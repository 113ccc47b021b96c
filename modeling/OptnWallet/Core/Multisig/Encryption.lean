import OptnWallet.Core.Multisig.RoundTrip
import OptnWallet.Core.Scan

/-
  Records that are sealed under a session token: a tag over the token and the text, and the text
  under a stream of bytes that starts from the tag, both in hexadecimal digits.

  Main declarations:
    * `Multisig.decodeHex` and `decodeHex_eq_some_iff`
    * `Multisig.bsmsEncrypt` and `Multisig.bsmsDecrypt`
    * `Multisig.bsms_canonical`
-/

--- Hexadecimal Text

namespace OptnWallet.Multisig

/- Two bytes of text for each byte. -/
def decodeHex (text : List Char) : Option (List UInt8) :=
  if Utf8.size text % 2 ≠ 0 ∨ text = [] then none
  else (List.range (Utf8.size text / 2)).mapM
      (fun index => (Utf8.slice (2 * index) (2 * index + 2) text).bind Scan.byteFromHex)

--- Sealing

/- The digests, and the bytes that a cipher in counter mode adds to those of a text. -/
structure BsmsPrimitives where
  sha256 : List UInt8 → Vector UInt8 32
  hmacSha256 : List UInt8 → List UInt8 → Vector UInt8 32
  pbkdf2HmacSha512 : List UInt8 → List UInt8 → Nat → Vector UInt8 32
  keystream : Vector UInt8 32 → List UInt8 → Nat → UInt8

def bsmsKdfPassword : List UInt8 :=
  Utf8.encode "No SPOF".toList

def bsmsKdfRounds : Nat := 2048

variable (primitives : BsmsPrimitives)

/- The salt is the token itself. -/
def bsmsEncryptionKey (token : List UInt8) : Vector UInt8 32 :=
  primitives.pbkdf2HmacSha512 bsmsKdfPassword token bsmsKdfRounds

/- What is authenticated is the token in digits and the text. -/
def bsmsMac (encryptionKey : Vector UInt8 32) (token data : List UInt8) : Vector UInt8 32 :=
  primitives.hmacSha256 (primitives.sha256 encryptionKey.toList).toList
    (Utf8.encode (Text.hexEncode token).toList ++ data)

def bsmsApplyCtr (encryptionKey : Vector UInt8 32) (iv buffer : List UInt8) : List UInt8 :=
  buffer.mapIdx (fun index byte => byte ^^^ primitives.keystream encryptionKey iv index)

/- `String::from_utf8` -/
def fromUtf8 (bytes : List UInt8) : Option String := String.fromUTF8? bytes.toByteArray

def bsmsEncrypt (token : List UInt8) (plaintext : String) : Except CliError String :=
  if token = [] then
    .error (.usage "an encrypted BSMS session needs a token; 00 means no encryption")
  else
    let key := bsmsEncryptionKey primitives token
    let mac := bsmsMac primitives key token (Utf8.encode plaintext.toList)
    let buffer := bsmsApplyCtr primitives key (mac.toList.take 16) (Utf8.encode plaintext.toList)
    .ok (Text.hexEncode mac.toList ++ Text.hexEncode buffer)

/- The tag is compared with the one of what is inside. -/
def bsmsDecrypt (token : List UInt8) (encryptedHex : String) : Except CliError String :=
  if token = [] then .error (.usage "an encrypted BSMS record needs the session token to open it")
  else
    match decodeHex (Text.trim encryptedHex).toList with
    | none => .error (.usage "that encrypted record is not hex")
    | some raw =>
      if raw.length ≤ 32 then
        .error (.usage "that encrypted record is too short to hold a tag and a record")
      else
        let claimedMac := raw.take 32
        let key := bsmsEncryptionKey primitives token
        let buffer := bsmsApplyCtr primitives key (claimedMac.take 16) (raw.drop 32)
        if (bsmsMac primitives key token buffer).toList ≠ claimedMac
        then .error (.usage
              "that encrypted record's tag does not match what is inside it. Either the token is not the one it was sealed with, or the record was changed in transit.")
        else
          match fromUtf8 buffer with
          | some text => .ok text
          | none => .error (.usage "that record decrypted to something that is not text")

variable {primitives}

--- Texts And Bytes

variable {bytes : List UInt8}

/- A text is decoded from its own bytes and from no others. -/
theorem fromUtf8_eq_some_iff {text : String} :
    fromUtf8 bytes = some text ↔ Utf8.encode text.toList = bytes := by
  have hBytes : text.toByteArray = (Utf8.encode text.toList).toByteArray := by
    rw [← String.utf8Encode_toList]
    rfl
  have hInjective :
      ∀ front back : List UInt8, front.toByteArray = back.toByteArray → front = back := by
    intro front back hSame
    have hData := congrArg ByteArray.data hSame
    rw [List.data_toByteArray, List.data_toByteArray] at hData
    exact congrArg Array.toList hData
  unfold fromUtf8 String.fromUTF8?
  constructor
  · intro hText
    split at hText
    · rename_i hValid
      cases hText
      apply hInjective
      rw [← hBytes]
      rfl
    · cases hText
  · rintro rfl
    have hValid : (Utf8.encode text.toList).toByteArray.IsValidUTF8 := by
      rw [← hBytes]
      exact text.isValidUTF8
    rw [dif_pos hValid]
    congr 1
    apply String.toByteArray_inj.mp
    exact hBytes.symm

section

variable (encryptionKey : Vector UInt8 32) (iv buffer : List UInt8)

/- What is added twice is gone. -/
theorem bsmsApplyCtr_involutive :
    bsmsApplyCtr primitives encryptionKey iv (bsmsApplyCtr primitives encryptionKey iv buffer) =
      buffer := by
  unfold bsmsApplyCtr
  rw [List.mapIdx_mapIdx]
  apply List.ext_getElem?
  intro index
  rw [List.getElem?_mapIdx]
  cases buffer[index]? with
  | none => rfl
  | some byte =>
    rw [Option.map_some, Function.comp_apply, UInt8.xor_assoc, UInt8.xor_self, UInt8.xor_zero]

theorem length_bsmsApplyCtr :
    (bsmsApplyCtr primitives encryptionKey iv buffer).length = buffer.length := by
  unfold bsmsApplyCtr
  rw [List.length_mapIdx]

end

--- Pairs Of Digits

/- What is used of a character with a value. -/
theorem facts_of_hexDigitValue {c : Char} {value : Nat}
    (hValue : Scan.hexDigitValue c = some value) :
    c.utf8Size = 1 ∧ value < 16 ∧ c.toLower = Text.hexDigit value ∧ c ≠ '+' := by
  have hAll :
      ∀ code < 128,
      ∀ value ∈ Scan.hexDigitValue (Char.ofNat code),
        value < 16 ∧ (Char.ofNat code).toLower = Text.hexDigit value ∧ Char.ofNat code ≠ '+' := by
    decide +kernel
  have hAscii : c.toNat < 128 := by
    unfold Scan.hexDigitValue at hValue
    split at hValue
    · rename_i hDigit
      have hHigh : c.toNat ≤ 57 := by
        rw [Char.isDigit, Bool.and_eq_true, decide_eq_true_eq, decide_eq_true_eq] at hDigit
        exact hDigit.2
      omega
    · split at hValue
      · rename_i hLetter
        have hHigh : c.toNat ≤ 102 := hLetter.2
        omega
      · split at hValue
        · rename_i hLetter
          have hHigh : c.toNat ≤ 70 := hLetter.2
          omega
        · cases hValue
  have hHere := hAll c.toNat hAscii value
  rw [Char.ofNat_toNat] at hHere
  rcases hHere hValue with ⟨hLt, hLower, hSign⟩
  refine ⟨Char.utf8Size_eq_one_iff.mpr ?_, hLt, hLower, hSign⟩
  change c.toNat ≤ 127
  omega

/- By induction over the digits. -/
theorem digit_of_mapM {digits : List Char} {values : List Nat}
    (hValues : digits.mapM Scan.hexDigitValue = some values) :
    ∀ c ∈ digits, ∃ value, Scan.hexDigitValue c = some value := by
  induction digits generalizing values with
  | nil =>
    intro c hMem
    cases hMem
  | cons c digits ih =>
    rw [List.mapM_cons] at hValues
    rcases Option.bind_eq_some_iff.mp hValues with ⟨value, hValue, hRest⟩
    rcases Option.bind_eq_some_iff.mp hRest with ⟨rest, hRest, -⟩
    rw [List.forall_mem_cons]
    exact ⟨⟨value, hValue⟩, ih hRest⟩

variable {byte : UInt8}

theorem chars_of_byteFromHex {hex : List Char} (hByte : Scan.byteFromHex hex = some byte) :
    ∀ c ∈ hex, c.utf8Size = 1 := by
  unfold Scan.byteFromHex at hByte
  rcases Option.bind_eq_some_iff.mp hByte with ⟨values, hValues, -⟩
  have hDigits : ∀ c ∈ (hex.dropPrefix? ['+']).getD hex, c.utf8Size = 1 := by
    intro c hMem
    rcases digit_of_mapM hValues c hMem with ⟨value, hValue⟩
    exact (facts_of_hexDigitValue hValue).1
  cases hDrop : hex.dropPrefix? ['+'] with
  | none =>
    rw [hDrop] at hDigits
    exact hDigits
  | some rest =>
    rw [hDrop] at hDigits
    rcases List.dropPrefix?_eq_some_iff.mp hDrop with ⟨plus, rfl, hPlus⟩
    rw [eq_of_beq hPlus, List.forall_mem_append, List.forall_mem_singleton]
    exact ⟨by decide, hDigits⟩

/- Two bytes of text that are read as one are two characters. -/
theorem pair_of_byteFromHex {hex : List Char} (hByte : Scan.byteFromHex hex = some byte)
    (hSize : Utf8.size hex = 2) : ∃ c d, hex = [c, d] := by
  have hLength :
      ∀ text : List Char, (∀ c ∈ text, c.utf8Size = 1) → Utf8.size text = text.length := by
    intro text hOne
    induction text with
    | nil => rfl
    | cons c text ih =>
      rw [List.forall_mem_cons] at hOne
      rw [Utf8.size_cons, String.length_utf8EncodeChar, hOne.1, ih hOne.2, List.length_cons,
        Nat.add_comm]
  rw [hLength hex (chars_of_byteFromHex hByte)] at hSize
  exact List.length_eq_two.mp hSize

/- What two digits without a sign are. -/
theorem byteFromHex_of_digits {c d : Char} (hSign : c ≠ '+')
    (hByte : Scan.byteFromHex [c, d] = some byte) :
    [c, d].map Char.toLower =
      [Text.hexDigit (byte.toNat / 16), Text.hexDigit (byte.toNat % 16)] := by
  have hDrop : [c, d].dropPrefix? ['+'] = none := by simp [List.dropPrefix?, hSign]
  unfold Scan.byteFromHex at hByte
  rw [hDrop, Option.getD_none] at hByte
  dsimp only at hByte
  rcases Option.bind_eq_some_iff.mp hByte with ⟨values, hValues, hByte⟩
  rw [List.mapM_cons] at hValues
  rcases Option.bind_eq_some_iff.mp hValues with ⟨high, hHigh, hValues⟩
  rcases Option.bind_eq_some_iff.mp hValues with ⟨lows, hLows, hSame⟩
  cases hSame
  rw [List.mapM_cons] at hLows
  rcases Option.bind_eq_some_iff.mp hLows with ⟨low, hLow, hLows⟩
  cases hLows
  rcases facts_of_hexDigitValue hHigh with ⟨-, hHighLt, hHighLower, -⟩
  rcases facts_of_hexDigitValue hLow with ⟨-, hLowLt, hLowLower, -⟩
  split at hByte
  · cases hByte
  · cases hByte
    change [c.toLower, d.toLower] =
      [Text.hexDigit ((UInt8.ofNat ((0 * 16 + high) * 16 + low)).toNat / 16),
        Text.hexDigit ((UInt8.ofNat ((0 * 16 + high) * 16 + low)).toNat % 16)]
    have hLt : (0 * 16 + high) * 16 + low < UInt8.size := by
      change (0 * 16 + high) * 16 + low < 256
      omega
    rw [UInt8.toNat_ofNat_of_lt' hLt, hHighLower, hLowLower]
    congr 3
    · omega
    · omega

/- The two digits of a byte are read as it. -/
theorem byteFromHex_hexDigits (byte : UInt8) :
    Scan.byteFromHex [Text.hexDigit (byte.toNat / 16), Text.hexDigit (byte.toNat % 16)] =
      some byte := by
  have hAll :
      ∀ n < 256,
      Scan.byteFromHex [Text.hexDigit (n / 16), Text.hexDigit (n % 16)] = some (UInt8.ofNat n) := by
    decide +kernel
  have hByte := hAll byte.toNat byte.toNat_lt
  rw [UInt8.ofNat_toNat] at hByte
  exact hByte

--- Decoded Texts

/- A text in pairs, each of which is read as a byte. -/
def Spells (pairs : List (List Char)) (bytes : List UInt8) : Prop :=
  List.Forall₂ (fun pair byte => Utf8.size pair = 2 ∧ Scan.byteFromHex pair = some byte) pairs bytes

/- Behind the same characters, a slice is one of the rest. -/
theorem slice_behind (front rest : List Char) (start finish : Nat) :
    Utf8.slice (Utf8.size front + start) (Utf8.size front + finish) (front ++ rest) =
      Utf8.slice start finish rest := by
  apply Option.ext
  intro middle
  rw [Utf8.slice_eq_some_iff, Utf8.slice_eq_some_iff]
  constructor
  · rintro ⟨before, back, hText, hBefore, hFinish⟩
    rw [List.append_assoc] at hText
    rcases List.append_eq_append_iff.mp hText with ⟨inner, hInner, hRest⟩ | ⟨inner, hInner, hRest⟩
    · rw [hInner, Utf8.size_append] at hBefore
      exact ⟨inner, back, by rw [hRest, List.append_assoc], by omega, by omega⟩
    · rw [hInner, Utf8.size_append] at hBefore
      have hNone : inner = [] := by
        cases inner with
        | nil => rfl
        | cons c inner =>
          have hPos := Utf8.length_encodeChar_pos c
          rw [Utf8.size_cons] at hBefore
          omega
      rw [hNone, List.nil_append] at hRest
      exact ⟨[], back, by rw [← hRest, List.nil_append], by rw [Utf8.size_nil]; omega, by omega⟩
  · rintro ⟨before, back, rfl, hBefore, hFinish⟩
    refine ⟨front ++ before, back, ?_, ?_, ?_⟩
    · simp only [List.append_assoc]
    · rw [Utf8.size_append, hBefore]
    · omega

/- The slices of a text, two bytes each, as bytes. -/
def readPairs (text : List Char) (count : Nat) : Option (List UInt8) :=
  (List.range count).mapM
    (fun index => (Utf8.slice (2 * index) (2 * index + 2) text).bind Scan.byteFromHex)

/- Behind the first two bytes. -/
theorem readPairs_succ {pair : List Char} (hSize : Utf8.size pair = 2) (text : List Char)
    (count : Nat) :
    readPairs (pair ++ text) (count + 1) =
      (Scan.byteFromHex pair).bind (fun byte => (readPairs text count).map (List.cons byte)) := by
  have hFirst : Utf8.slice 0 2 (pair ++ text) = some pair := by
    rw [Utf8.slice_eq_some_iff]
    exact ⟨[], text, rfl, Utf8.size_nil, by rw [hSize]⟩
  have hRest :
      ∀ index,
      Utf8.slice (2 * (index + 1)) (2 * (index + 1) + 2) (pair ++ text) =
        Utf8.slice (2 * index) (2 * index + 2) text := by
    intro index
    rw [← slice_behind pair text, hSize]
    congr 1
    · omega
    · omega
  unfold readPairs
  rw [List.range_succ_eq_map, List.mapM_cons, Nat.mul_zero, hFirst, List.mapM_map]
  have hSame :
      (fun index => (Utf8.slice (2 * index) (2 * index + 2)
            (pair ++ text)).bind Scan.byteFromHex) ∘ Nat.succ =
        fun index => (Utf8.slice (2 * index) (2 * index + 2) text).bind Scan.byteFromHex := by
    funext index
    exact congrArg (fun piece => Option.bind piece Scan.byteFromHex) (hRest index)
  rw [hSame, Option.bind_some]
  cases Scan.byteFromHex pair with
  | none => rfl
  | some byte =>
    cases
      (List.range count).mapM
        (fun index => (Utf8.slice (2 * index) (2 * index + 2) text).bind
            Scan.byteFromHex) with
    | none => rfl
    | some bytes => rfl

/- What is read is what the pairs spell, by induction over the number of pairs. -/
theorem readPairs_eq_some_iff {text : List Char} {count : Nat} (hSize : Utf8.size text = 2 * count) :
    readPairs text count = some bytes ↔ ∃ pairs, text = pairs.flatten ∧ Spells pairs bytes := by
  induction count generalizing text bytes with
  | zero =>
    have hText : text = [] := by
      cases text with
      | nil => rfl
      | cons c text =>
        have hPos := Utf8.length_encodeChar_pos c
        rw [Utf8.size_cons] at hSize
        omega
    constructor
    · intro hRead
      cases hRead
      exact ⟨[], hText, List.Forall₂.nil⟩
    · rintro ⟨pairs, hPairs, hSpells⟩
      cases hSpells with
      | nil => rfl
      | cons hPair hRest =>
        rw [hPairs, List.flatten_cons, Utf8.size_append, hPair.1] at hSize
        omega
  | succ count ih =>
    constructor
    · intro hRead
      have hFirst :
          ∃ pair byte, Utf8.slice 0 2 text = some pair ∧ Scan.byteFromHex pair = some byte := by
        unfold readPairs at hRead
        rw [List.range_succ_eq_map, List.mapM_cons] at hRead
        rcases Option.bind_eq_some_iff.mp hRead with ⟨byte, hByte, -⟩
        rcases Option.bind_eq_some_iff.mp hByte with ⟨pair, hPair, hByte⟩
        exact ⟨pair, byte, hPair, hByte⟩
      rcases hFirst with ⟨pair, byte, hPair, hByte⟩
      rcases Utf8.slice_eq_some_iff.mp hPair with ⟨front, rest, hText, hFront, hTwo⟩
      have hEmpty : front = [] := by
        cases front with
        | nil => rfl
        | cons c front =>
          have hPos := Utf8.length_encodeChar_pos c
          rw [Utf8.size_cons] at hFront
          omega
      rw [hEmpty, List.nil_append] at hText
      have hPairSize : Utf8.size pair = 2 := by omega
      rw [hText, readPairs_succ hPairSize, hByte, Option.bind_some] at hRead
      rcases Option.map_eq_some_iff.mp hRead with ⟨others, hOthers, rfl⟩
      have hRestSize : Utf8.size rest = 2 * count := by
        rw [hText, Utf8.size_append] at hSize
        omega
      rcases (ih hRestSize).mp hOthers with ⟨pairs, hPairs, hSpells⟩
      refine ⟨pair :: pairs, ?_, ?_⟩
      · rw [hText, hPairs, List.flatten_cons]
      · exact List.Forall₂.cons ⟨hPairSize, hByte⟩ hSpells
    · rintro ⟨pairs, hPairs, hSpells⟩
      cases hSpells with
      | nil =>
        rw [hPairs] at hSize
        cases hSize
      | cons hPair hRest =>
        rename_i pair byte pairs bytes
        have hRestSize : Utf8.size pairs.flatten = 2 * count := by
          rw [hPairs, List.flatten_cons, Utf8.size_append, hPair.1] at hSize
          omega
        rw [hPairs, List.flatten_cons, readPairs_succ hPair.1, hPair.2, Option.bind_some,
          (ih hRestSize).mpr ⟨pairs, rfl, hRest⟩]
        rfl

theorem size_of_spells {pairs : List (List Char)} (hSpells : Spells pairs bytes) :
    Utf8.size pairs.flatten = 2 * bytes.length := by
  induction hSpells with
  | nil => rfl
  | cons hPair _ ih =>
    rw [List.flatten_cons, Utf8.size_append, hPair.1, ih, List.length_cons]
    omega

/- A text is decoded where it is pairs that are read as bytes, and not empty. -/
theorem decodeHex_eq_some_iff {text : List Char} :
    decodeHex text = some bytes ↔
    bytes ≠ [] ∧ ∃ pairs, text = pairs.flatten ∧ Spells pairs bytes := by
  unfold decodeHex
  constructor
  · intro hDecode
    split at hDecode
    · cases hDecode
    · rename_i hWhole
      rw [not_or, not_not] at hWhole
      have hSize : Utf8.size text = 2 * (Utf8.size text / 2) := by omega
      rcases (readPairs_eq_some_iff hSize).mp hDecode with ⟨pairs, hPairs, hSpells⟩
      refine ⟨?_, pairs, hPairs, hSpells⟩
      rintro rfl
      cases hSpells
      exact hWhole.2 hPairs
  · rintro ⟨hSome, pairs, rfl, hSpells⟩
    have hSize := size_of_spells hSpells
    have hPos := List.length_pos_iff.mpr hSome
    have hText : pairs.flatten ≠ [] := by
      intro hNone
      rw [hNone, Utf8.size_nil] at hSize
      omega
    have hHalf : Utf8.size pairs.flatten / 2 = bytes.length := by omega
    have hEven : ¬ Utf8.size pairs.flatten % 2 ≠ 0 := by omega
    rw [if_neg (not_or.mpr ⟨hEven, hText⟩), hHalf]
    exact (readPairs_eq_some_iff hSize).mpr ⟨pairs, rfl, hSpells⟩

theorem hexEncode_toList (bytes : List UInt8) :
    (Text.hexEncode bytes).toList = (bytes.map
        (fun byte =>
          [Text.hexDigit (byte.toNat / 16), Text.hexDigit (byte.toNat % 16)])).flatten := by
  unfold Text.hexEncode
  rw [String.toList_ofList, List.flatMap_def]

theorem spells_hexEncode (bytes : List UInt8) :
    Spells
      (bytes.map (fun byte => [Text.hexDigit (byte.toNat / 16), Text.hexDigit (byte.toNat % 16)]))
      bytes := by
  have hPairs : ∀ n < 256, Utf8.size [Text.hexDigit (n / 16), Text.hexDigit (n % 16)] = 2 := by
    decide +kernel
  induction bytes with
  | nil => exact List.Forall₂.nil
  | cons byte bytes ih =>
    exact List.Forall₂.cons ⟨hPairs byte.toNat byte.toNat_lt, byteFromHex_hexDigits byte⟩ ih

theorem decodeHex_hexEncode (hSome : bytes ≠ []) :
    decodeHex (Text.hexEncode bytes).toList = some bytes := by
  rw [decodeHex_eq_some_iff, hexEncode_toList]
  exact ⟨hSome, _, rfl, spells_hexEncode bytes⟩

/- Without a sign, what is spelled is written in digits, up to the case of the letters. -/
theorem lower_of_spells {pairs : List (List Char)} (hSpells : Spells pairs bytes)
    (hSign : '+' ∉ pairs.flatten) :
    pairs.flatten.map Char.toLower = (Text.hexEncode bytes).toList := by
  rw [hexEncode_toList]
  induction hSpells with
  | nil => rfl
  | cons hPair _ ih =>
    rename_i pair byte pairs bytes
    rw [List.flatten_cons, List.mem_append, not_or] at hSign
    rcases pair_of_byteFromHex hPair.2 hPair.1 with ⟨c, d, rfl⟩
    have hFirst : c ≠ '+' := by
      rintro rfl
      exact hSign.1 List.mem_cons_self
    rw [List.flatten_cons, List.map_append, ih hSign.2, byteFromHex_of_digits hFirst hPair.2,
      List.map_cons, List.flatten_cons]

--- Sealed Records

/- What a sealed text is. -/
theorem bsmsEncrypt_eq_ok {token : List UInt8} (hToken : token ≠ []) (plaintext : String) :
    ∃ mac buffer,
    mac = (bsmsMac primitives (bsmsEncryptionKey primitives token) token
            (Utf8.encode plaintext.toList)).toList ∧
      buffer = bsmsApplyCtr primitives (bsmsEncryptionKey primitives token) (mac.take 16)
          (Utf8.encode plaintext.toList) ∧
      bsmsEncrypt primitives token plaintext = .ok (Text.hexEncode (mac ++ buffer)) := by
  refine ⟨_, _, rfl, rfl, ?_⟩
  unfold bsmsEncrypt
  rw [if_neg hToken]
  dsimp only
  rw [Text.hexEncode, Text.hexEncode, Text.hexEncode, List.flatMap_append, String.ofList_append]

/- Digits have no blanks around them. -/
theorem trim_hexEncode (bytes : List UInt8) :
    Text.trim (Text.hexEncode bytes) = Text.hexEncode bytes := by
  have hDigits : ∀ n < 16, Text.isWhitespace (Text.hexDigit n) = false := by decide +kernel
  have hPlain : ∀ c ∈ (Text.hexEncode bytes).toList, Text.isWhitespace c = false := by
    intro c hMem
    rw [hexEncode_toList] at hMem
    rcases List.mem_flatten.mp hMem with ⟨pair, hPair, hMem⟩
    rcases List.mem_map.mp hPair with ⟨byte, -, rfl⟩
    have hByte := byte.toNat_lt
    simp only [List.mem_cons, List.not_mem_nil, or_false] at hMem
    rcases hMem with rfl | rfl
    · exact hDigits _ (by omega)
    · exact hDigits _ (by omega)
  rw [← String.ofList_toList (s := Text.hexEncode bytes), trim_of_ends]
  · intro c hHead
    exact hPlain c (List.mem_of_mem_head? hHead)
  · intro c hLast
    exact hPlain c (List.mem_of_mem_getLast? hLast)

variable {token : List UInt8} {plaintext : String}

/- What is opened of a tag and what is behind it. -/
theorem bsmsDecrypt_eq_ok_iff (hToken : token ≠ []) {encryptedHex : String} :
    bsmsDecrypt primitives token encryptedHex = .ok plaintext ↔
    ∃ raw,
      decodeHex (Text.trim encryptedHex).toList = some raw ∧ 32 < raw.length ∧
        Utf8.encode plaintext.toList =
          bsmsApplyCtr primitives (bsmsEncryptionKey primitives token) ((raw.take 32).take 16)
            (raw.drop 32) ∧
        (bsmsMac primitives (bsmsEncryptionKey primitives token) token
              (Utf8.encode plaintext.toList)).toList = raw.take 32 := by
  unfold bsmsDecrypt
  rw [if_neg hToken]
  constructor
  · intro hDecrypt
    split at hDecrypt
    · cases hDecrypt
    · rename_i raw hRaw
      split at hDecrypt
      · cases hDecrypt
      · rename_i hLong
        dsimp only at hDecrypt
        split at hDecrypt
        · cases hDecrypt
        · rename_i hMac
          split at hDecrypt
          · rename_i text hText
            cases hDecrypt
            have hEncode := fromUtf8_eq_some_iff.mp hText
            refine ⟨raw, hRaw, Nat.lt_of_not_le hLong, hEncode, ?_⟩
            rw [hEncode]
            exact not_not.mp hMac
          · cases hDecrypt
  · rintro ⟨raw, hRaw, hLong, hBuffer, hMac⟩
    rw [hRaw]
    dsimp only
    rw [if_neg (Nat.not_le.mpr hLong), ← hBuffer, if_neg (not_not.mpr hMac),
      fromUtf8_eq_some_iff.mpr rfl]

/- What is sealed is opened, unless nothing is inside. -/
theorem bsmsDecrypt_bsmsEncrypt (hToken : token ≠ []) (hSome : plaintext ≠ "") :
    ∃ text,
    bsmsEncrypt primitives token plaintext = .ok text ∧
      bsmsDecrypt primitives token text = .ok plaintext := by
  rcases @bsmsEncrypt_eq_ok primitives token hToken plaintext with
    ⟨mac, buffer, hMac, hBuffer, hText⟩
  have hMacLength : mac.length = 32 := by rw [hMac, Vector.length_toList]
  have hTake : (mac ++ buffer).take 32 = mac := List.take_left' hMacLength
  have hDrop : (mac ++ buffer).drop 32 = buffer := List.drop_left' hMacLength
  have hLong : 0 < buffer.length := by
    rw [hBuffer, length_bsmsApplyCtr]
    cases hChars : plaintext.toList with
    | nil => exact absurd (String.toList_eq_nil_iff.mp hChars) hSome
    | cons c chars =>
      change 0 < Utf8.size (c :: chars)
      have hPos := Utf8.length_encodeChar_pos c
      rw [Utf8.size_cons]
      omega
  refine ⟨_, hText, ?_⟩
  rw [bsmsDecrypt_eq_ok_iff hToken, trim_hexEncode]
  refine ⟨mac ++ buffer, ?_, ?_, ?_, ?_⟩
  · apply decodeHex_hexEncode
    intro hNone
    rw [(List.append_eq_nil_iff.mp hNone).1] at hMacLength
    cases hMacLength
  · rw [List.length_append]
    omega
  · rw [hTake, hDrop, hBuffer, bsmsApplyCtr_involutive]
  · rw [hTake, hMac]

/- Nothing is sealed as a tag alone, which is refused. -/
theorem bsmsDecrypt_of_empty {token : List UInt8} (hToken : token ≠ []) :
    ∃ text,
    bsmsEncrypt primitives token "" = .ok text ∧ bsmsDecrypt primitives token text =
        .error (.usage "that encrypted record is too short to hold a tag and a record") := by
  rcases @bsmsEncrypt_eq_ok primitives token hToken "" with ⟨mac, buffer, hMac, hBuffer, hText⟩
  have hMacLength : mac.length = 32 := by rw [hMac, Vector.length_toList]
  have hNone : buffer = [] := by
    rw [hBuffer]
    rfl
  refine ⟨_, hText, ?_⟩
  unfold bsmsDecrypt
  rw [if_neg hToken, trim_hexEncode, hNone, List.append_nil, decodeHex_hexEncode]
  · dsimp only
    rw [if_pos hMacLength.le]
  · rintro rfl
    cases hMacLength

/- What is opened was sealed, and is written in its digits. -/
theorem bsmsEncrypt_of_bsmsDecrypt (hToken : token ≠ []) {encryptedHex : String}
    (hSign : '+' ∉ (Text.trim encryptedHex).toList)
    (hDecrypt : bsmsDecrypt primitives token encryptedHex = .ok plaintext) :
    bsmsEncrypt primitives token plaintext =
      .ok (String.ofList ((Text.trim encryptedHex).toList.map Char.toLower)) := by
  rcases (bsmsDecrypt_eq_ok_iff hToken).mp hDecrypt with ⟨raw, hRaw, -, hEncode, hMac⟩
  rcases decodeHex_eq_some_iff.mp hRaw with ⟨-, pairs, hPairs, hSpells⟩
  rcases @bsmsEncrypt_eq_ok primitives token hToken plaintext with
    ⟨mac, buffer, hTag, hBuffer, hText⟩
  have hSame : mac = raw.take 32 := hTag.trans hMac
  have hRest : buffer = raw.drop 32 := by rw [hBuffer, hEncode, hSame, bsmsApplyCtr_involutive]
  rw [hPairs] at hSign
  rw [hText, hSame, hRest, List.take_append_drop, hPairs, lower_of_spells hSpells hSign,
    String.ofList_toList]

/-
  Under a token, a record that is not empty is opened to what was sealed, an empty one is refused,
  and a text without a sign that is opened is the one that sealing gives, up to blanks around it
  and the case of its letters.
-/
theorem bsms_canonical (primitives : BsmsPrimitives) (token : List UInt8) (hToken : token ≠ []) :
    (∀ plaintext,
        plaintext ≠ "" → ∃ text,
            bsmsEncrypt primitives token plaintext = .ok text ∧
              bsmsDecrypt primitives token text = .ok plaintext) ∧
    (∃ text,
        bsmsEncrypt primitives token "" = .ok text ∧ bsmsDecrypt primitives token text =
            .error (.usage "that encrypted record is too short to hold a tag and a record")) ∧
    ∀ encryptedHex plaintext,
      '+' ∉ (Text.trim encryptedHex).toList →
        bsmsDecrypt primitives token encryptedHex = .ok plaintext →
        bsmsEncrypt primitives token plaintext =
          .ok (String.ofList ((Text.trim encryptedHex).toList.map Char.toLower)) :=
  ⟨fun _ hSome =>
    bsmsDecrypt_bsmsEncrypt hToken hSome, bsmsDecrypt_of_empty hToken, fun _ _ hSign hDecrypt =>
      bsmsEncrypt_of_bsmsDecrypt hToken hSign hDecrypt⟩

/- Tags of zeros, and a cipher that adds nothing. -/
def plainBsms : BsmsPrimitives :=
  { sha256 := fun _ => Vector.replicate 32 0
    hmacSha256 := fun _ _ => Vector.replicate 32 0
    pbkdf2HmacSha512 := fun _ _ _ => Vector.replicate 32 0
    keystream := fun _ _ _ => 0 }

theorem bsms_canonical_plain :
    ∃ text,
    bsmsEncrypt plainBsms [0xa5] "BSMS 1.0" = .ok text ∧
      bsmsDecrypt plainBsms [0xa5] text = .ok "BSMS 1.0" :=
  (bsms_canonical plainBsms [0xa5] (by decide)).1 "BSMS 1.0"
    (by decide)

/- The first digit of the tag replaced by a sign. -/
def signedHex : String := String.ofList ('+' :: '0' :: (List.replicate 62 '0' ++ ['6', '1']))

theorem signedHex_opens : bsmsDecrypt plainBsms [0xa5] signedHex = .ok "a" := by
  rw [bsmsDecrypt_eq_ok_iff (by decide)]
  refine ⟨List.replicate 32 0 ++ [0x61], ?_, ?_, ?_, ?_⟩
  · decide +kernel
  · decide
  · decide
  · decide

/- An empty record is not opened, and a sign is read. -/
theorem bsms_not_canonical :
    (¬ ∀ token plaintext, token ≠ [] → ∃ text,
        bsmsEncrypt plainBsms token plaintext = .ok text ∧
          bsmsDecrypt plainBsms token text = .ok plaintext) ∧
    ¬ ∀ token encryptedHex plaintext, token ≠ [] → bsmsDecrypt plainBsms token encryptedHex = .ok
      plaintext → bsmsEncrypt plainBsms token plaintext = .ok
      (String.ofList ((Text.trim encryptedHex).toList.map Char.toLower)) := by
  constructor
  · intro hAll
    rcases hAll [0xa5] "" (by decide) with
      ⟨text, hText, hOpened⟩
    rcases @bsmsDecrypt_of_empty plainBsms [0xa5] (by decide)
      with
      ⟨other, hOther, hRefused⟩
    rw [hText] at hOther
    cases hOther
    rw [hOpened] at hRefused
    cases hRefused
  · intro hAll
    have hSealed :=
      hAll [0xa5] signedHex "a" (by decide) signedHex_opens
    revert hSealed
    decide +kernel

end OptnWallet.Multisig
