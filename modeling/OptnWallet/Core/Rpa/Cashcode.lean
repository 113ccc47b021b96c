import Mathlib.Data.List.TakeWhile
import OptnWallet.Core.Cashaddr.Canonical
import OptnWallet.Core.Rpa.Payment

/-
  Cash codes as they are written: the digits of an address, over a payload with two public keys.
  A code is read from its characters, each by its lowest byte.

  Main declarations:
    * `Rpa.encode` and `Rpa.decode`
    * `Rpa.isLegacyPaycode`
    * `Rpa.cashcode_round_trip`
-/

--- Cases

namespace OptnWallet

/- The same data with the upper case of characters. -/
structure CaseTables extends UnicodeTables where
  uppercase : Char → List Char

/- `str::to_uppercase`, which looks at one character at a time. -/
def CaseTables.toUppercase (tables : CaseTables) (text : List Char) : List Char :=
  text.flatMap
    (fun c =>
      if c.toNat < 128 then [c.toUpper] else tables.uppercase c)

namespace Rpa

open StagedUpdate Cashaddr

--- Prefixes

def versionMainnet : UInt8 := 0x01

def versionTestnet : UInt8 := 0x05

def cashcodeMainnet : String := "cashcode"

def cashcodeTestnet : String := "cashcodetest"

def legacyMainnet : String := "paycode"

def legacyTestnet : String := "paycodetest"

def mainnetPrefixes : List String := [cashcodeMainnet]

def testnetPrefixes : List String := [cashcodeTestnet]

def legacyPaycodeRejection : String :=
  "Legacy PayCode addresses are not supported. Use a Cash Code address."

/- What is entered, up to a question mark. -/
def bareOf (candidate : String) : List Char :=
  (Text.trim candidate).toList.takeWhile (fun c => c ≠ '?')

def carries (bare : List Char) (codePrefix : String) : Bool :=
  (codePrefix.toList ++ [':']).isPrefixOf bare

def isLegacyPaycode (tables : CaseTables) (candidate : String) : Bool :=
  let bare := tables.toLowercase (bareOf candidate)
  carries bare legacyMainnet || carries bare legacyTestnet

def looksLikeRpa (tables : CaseTables) (candidate : String) : Bool :=
  let bare := tables.toLowercase (bareOf candidate)
  (mainnetPrefixes ++ testnetPrefixes).any (carries bare)

--- Writing

def payloadLen : Nat := 72

/- Regtest shares the version of the test networks. -/
def versionOf : Network → UInt8
  | .mainnet => versionMainnet
  | .chipnet => versionTestnet
  | .regtest => versionTestnet

def codePrefixOf : Network → String
  | .mainnet => cashcodeMainnet
  | .chipnet => cashcodeTestnet
  | .regtest => cashcodeTestnet

section

variable (scanPubkey spendPubkey : Vector UInt8 33) (network : Network) (prefixBits : UInt8)

/- The last four bytes stay zero: there is no expiry. -/
def payloadOf : List UInt8 :=
  [versionOf network, prefixBits] ++ scanPubkey.toList ++ spendPubkey.toList ++ [0, 0, 0, 0]

def encode : Option String :=
  (encodePayload (codePrefixOf network).toList
      ([0x00] ++ payloadOf scanPubkey spendPubkey network prefixBits)).map String.ofList

end

--- Reading

/- The symbols without the checksum behind them. -/
def dropChecksum (values : List UInt8) : Except (Fault CliError) (List UInt8) :=
  if values.length < 8 then .error .panic
  else .ok (values.take (values.length - 8))

def usage {α : Type} (message : String) : Except (Fault CliError) α :=
  .error (.error (.usage message))

theorem slice_size {n start count : Nat} (bytes : Vector UInt8 n) (hFits : start + count ≤ n) :
    (bytes.toArray.extract start (start + count)).size = count := by
  rw [Array.size_extract, Vector.size_toArray]
  omega

def slice {n : Nat} (bytes : Vector UInt8 n) (start count : Nat) (hFits : start + count ≤ n) :
    Vector UInt8 count := ⟨bytes.toArray.extract start (start + count), slice_size bytes hFits⟩

def ofPayload (isPublicKey : Vector UInt8 33 → Bool) (codePrefix : List Char)
    (payload8 : List UInt8) : Except (Fault CliError) Cashcode :=
  if hPayload : payload8.tail.length = payloadLen ∧ payload8.head? = some 0x00
  then
    let p : Vector UInt8 payloadLen := ⟨payload8.tail.toArray, hPayload.1⟩
    let isMainnetVersion := p[0] = 0x01 ∨ p[0] = 0x02
    let isTestnetVersion := p[0] = 0x05 ∨ p[0] = 0x06
    let prefixIsMainnet := String.ofList codePrefix ∈ mainnetPrefixes
    let prefixIsTestnet := String.ofList codePrefix ∈ testnetPrefixes
    if ¬ ((prefixIsMainnet ∧ isMainnetVersion) ∨ (prefixIsTestnet ∧ isTestnetVersion))
    then usage
        ("payment code prefix '" ++ String.ofList codePrefix ++
          "' does not match its version byte 0x" ++ Text.hexEncode [p[0]])
    else if p[1] ∉ ([0, 4, 8, 12, 16] : List UInt8) then
      usage ("prefix size " ++ toString p[1].toNat ++ " is not one of 0, 4, 8, 12, 16 bits")
    else
      let scanPubkey := slice p 2 33 (by decide)
      let spendPubkey := slice p 35 33 (by decide)
      if ¬ isPublicKey scanPubkey then usage "scan pubkey is not a curve point"
      else if ¬ isPublicKey spendPubkey then usage "spend pubkey is not a curve point"
      else .ok
          { version := p[0]
            prefixBits := p[1]
            scanPubkey
            spendPubkey
            expiry := UInt32.ofNat (natOfBytesLE [p[68], p[69], p[70], p[71]])
            codePrefix := String.ofList codePrefix }
  else usage "payment code is not a reusable payment address"

/- The prefix and the body of a code, in lower case. -/
def ofParts (isPublicKey : Vector UInt8 33 → Bool) (codePrefix body : List Char) :
    Except (Fault CliError) Cashcode :=
  if (utf8 body).length ≤ 8 then usage "payment code is too short"
  else do
    let values ← (body.mapM digitOf).mapError (fun message => .error (.usage message))
    if polymod (prefixSymbols codePrefix ++ [0] ++ values) ≠ 0
    then usage "payment code checksum does not match — it was mistyped or truncated"
    else
      let payload5 ← dropChecksum values
      match convertBits payload5 5 8 false with
      | none => usage "payment code does not convert to bytes"
      | some payload8 => ofPayload isPublicKey codePrefix payload8

/- Letters of both cases. -/
def isMixed (tables : CaseTables) (bare : List Char) : Bool :=
  let hasLower := bare ≠ tables.toUppercase bare
  let hasUpper := bare ≠ tables.toLowercase bare
  hasLower && hasUpper

def decode (tables : CaseTables) (isPublicKey : Vector UInt8 33 → Bool) (code : String) :
    Except (Fault CliError) Cashcode :=
  if isLegacyPaycode tables code then usage legacyPaycodeRejection
  else
    let bare := bareOf code
    if isMixed tables bare then usage "a payment code must not mix upper and lower case"
    else
      match splitOnce ':' (tables.toLowercase bare) with
      | none => usage ("'" ++ code ++ "' has no prefix")
      | some (codePrefix, body) => ofParts isPublicKey codePrefix body

--- Round Trips

/- Bytes behind others are found behind them. -/
theorem slice_append {n start count : Nat} {bytes : Vector UInt8 n} {front back : List UInt8}
    {middle : Vector UInt8 count} (hBytes : bytes.toList = front ++ middle.toList ++ back)
    (hStart : front.length = start) (hFits : start + count ≤ n) :
    slice bytes start count hFits = middle := by
  apply Vector.toList_inj.mp
  subst hStart
  unfold slice
  rw [Vector.toList_mk, ← Vector.toArray_toList, hBytes]
  simp [List.extract_eq_take_drop]

section RoundTrip

variable (scanPubkey spendPubkey : Vector UInt8 33) (network : Network) (prefixBits : UInt8)

/- What a code carries that is written for the keys. -/
def codeOf : Cashcode :=
  { version := versionOf network
    prefixBits
    scanPubkey
    spendPubkey
    expiry := 0
    codePrefix := codePrefixOf network }

theorem payloadOf_length :
    (payloadOf scanPubkey spendPubkey network prefixBits).length = payloadLen := by
  unfold payloadOf payloadLen
  simp

theorem ofPayload_payloadOf {isPublicKey : Vector UInt8 33 → Bool}
    (hScan : isPublicKey scanPubkey = true) (hSpend : isPublicKey spendPubkey = true)
    (hBits : prefixBits ∈ ([0, 4, 8, 12, 16] : List UInt8)) :
    ofPayload isPublicKey (codePrefixOf network).toList
        ([0x00] ++ payloadOf scanPubkey spendPubkey network prefixBits) =
      .ok (codeOf scanPubkey spendPubkey network prefixBits) := by
  have hPayload :
      ([0x00] ++ payloadOf scanPubkey spendPubkey network prefixBits).tail.length = payloadLen ∧
      ([0x00] ++ payloadOf scanPubkey spendPubkey network prefixBits).head? = some 0x00 :=
    ⟨payloadOf_length scanPubkey spendPubkey network prefixBits, rfl⟩
  unfold ofPayload
  rw [dif_pos hPayload]
  dsimp only
  have hList :
      (⟨([0x00] ++ payloadOf scanPubkey spendPubkey network prefixBits).tail.toArray, hPayload.1⟩ :
            Vector UInt8 payloadLen).toList =
        [versionOf network, prefixBits] ++ scanPubkey.toList ++
          (spendPubkey.toList ++ [0, 0, 0, 0]) := by
    simp [payloadOf]
  generalize
    (⟨([0x00] ++ payloadOf scanPubkey spendPubkey network prefixBits).tail.toArray, hPayload.1⟩ :
      Vector UInt8 payloadLen) = p at hList ⊢
  have hAt : ∀ (i : Nat) (hIndex : i < payloadLen), p.toList[i]? = some (p.get ⟨i, hIndex⟩) := by
    intro i hIndex
    rw [List.getElem?_eq_getElem (by simpa using hIndex)]
    rfl
  have hVersion : p[0] = versionOf network := by
    have hHere := hAt 0 (by decide)
    rw [hList] at hHere
    exact (Option.some.inj hHere).symm
  have hPrefixBits : p[1] = prefixBits := by
    have hHere := hAt 1 (by decide)
    rw [hList] at hHere
    exact (Option.some.inj hHere).symm
  have hExpiry : [p[68], p[69], p[70], p[71]] = [0, 0, 0, 0] := by
    have hTail : p.toList.drop 68 = [0, 0, 0, 0] := by
      rw [hList, ← List.append_assoc]
      exact List.drop_left' (by simp)
    have hZero :
        ∀ (i : Nat) (hIndex : 68 + i < payloadLen), i < 4 → p.get ⟨68 + i, hIndex⟩ = 0 := by
      intro i hIndex hLt
      have hHere := hAt (68 + i) hIndex
      rw [← List.getElem?_drop, hTail] at hHere
      have hMem := List.mem_of_getElem? hHere
      simpa using hMem
    have h0 : p[68] = 0 := hZero 0 (by decide) (by decide)
    have h1 : p[69] = 0 := hZero 1 (by decide) (by decide)
    have h2 : p[70] = 0 := hZero 2 (by decide) (by decide)
    have h3 : p[71] = 0 := hZero 3 (by decide) (by decide)
    rw [h0, h1, h2, h3]
  have hFirst : slice p 2 33 (by decide) = scanPubkey := slice_append hList rfl _
  rw [← List.append_assoc] at hList
  have hSecond : slice p 35 33 (by decide) = spendPubkey := slice_append hList (by simp) _
  have hNetwork :
      (String.ofList (codePrefixOf network).toList ∈ mainnetPrefixes ∧ (p[0] = 0x01 ∨ p[0] = 0x02))
        ∨
      (String.ofList (codePrefixOf network).toList ∈ testnetPrefixes ∧
        (p[0] = 0x05 ∨ p[0] = 0x06)) := by
    rw [hVersion, String.ofList_toList]
    cases network <;> decide
  rw [if_neg (not_not.mpr hNetwork), hPrefixBits, if_neg (not_not.mpr hBits), hFirst, hSecond,
    if_neg (not_not.mpr hScan), if_neg (not_not.mpr hSpend), hExpiry, hVersion,
    String.ofList_toList]
  rfl

/- A character of a code is no question mark. -/
theorem charOf_ne_mark {digit : UInt8} (hDigit : digit.toNat < 2 ^ 5) : charOf digit ≠ '?' := by
  have hAll : ∀ digit < 2 ^ 5, charOf (UInt8.ofNat digit) ≠ '?' := by decide
  have hHere := hAll digit.toNat hDigit
  rw [UInt8.ofNat_toNat] at hHere
  exact hHere

theorem utf8_digits_length {digits : List UInt8} (hDigits : ∀ digit ∈ digits, digit.toNat < 2 ^ 5) :
    (utf8 (digits.map charOf)).length = digits.length :=
  (length_of_mapM (mapM_symbolOf hDigits)).symm

theorem dropChecksum_append {payload5 checks : List UInt8} (hChecks : checks.length = 8) :
    dropChecksum (payload5 ++ checks) = .ok payload5 := by
  unfold dropChecksum
  rw [List.length_append, hChecks, if_neg (by omega), Nat.add_sub_cancel, List.take_left]

/- The characters of the prefixes. -/
theorem codePrefix_plain :
    ∀ c ∈ (codePrefixOf network).toList ++ [':'],
    c ≠ '?' ∧ c.toNat < 128 ∧ c.toLower = c ∧ Text.isWhitespace c = false := by
  apply forall_of_all
  cases network <;> decide

theorem colon_not_mem_codePrefix : ':' ∉ (codePrefixOf network).toList := by
  cases network <;> decide

theorem carries_legacy (body : List Char) :
    carries ((codePrefixOf network).toList ++ ':' :: body) legacyMainnet = false ∧
    carries ((codePrefixOf network).toList ++ ':' :: body) legacyTestnet = false := by
  cases network <;> exact ⟨rfl, rfl⟩

/-
  What is written for two public keys is read as a code that carries them.
-/
theorem decode_encoded (tables : CaseTables) {isPublicKey : Vector UInt8 33 → Bool}
    (hScan : isPublicKey scanPubkey = true) (hSpend : isPublicKey spendPubkey = true)
    (hBits : prefixBits ∈ ([0, 4, 8, 12, 16] : List UInt8)) :
    ∃ text,
    encode scanPubkey spendPubkey network prefixBits = some text ∧
      decode tables isPublicKey text = .ok (codeOf scanPubkey spendPubkey network prefixBits) := by
  rcases encodes (codePrefixOf network).toList
    ([0x00] ++ payloadOf scanPubkey spendPubkey network prefixBits) with
    ⟨payload5, checks, hEncodes⟩
  have hSmall := hEncodes.small
  have hPlain := plain_digits hSmall
  have hSome : payload5 ≠ [] := by
    intro hNil
    have hInverse := hEncodes.inverse
    rw [hNil] at hInverse
    cases hInverse
  have hLong : ¬ (payload5 ++ checks).length ≤ 8 := by
    rw [List.length_append, hEncodes.length]
    have hPositive := List.length_pos_iff.mpr hSome
    omega
  have hFront := codePrefix_plain network
  have hLegacy := carries_legacy network ((payload5 ++ checks).map charOf)
  generalize hText : (codePrefixOf network).toList ++ ':' :: (payload5 ++ checks).map charOf = text
    at hLegacy
  have hSplit :
      text = ((codePrefixOf network).toList ++ [':']) ++ (payload5 ++ checks).map charOf := by
    rw [← hText, List.append_assoc, List.singleton_append]
  have hTrim : Text.trim (String.ofList text) = String.ofList text := by
    apply trim_of_ends
    · intro c hHead
      apply (hFront c ?_).2.2.2
      rw [hSplit, List.head?_append_of_ne_nil _ (by simp)] at hHead
      exact List.mem_of_mem_head? hHead
    · rw [hSplit]
      apply Address.last_plain hSmall
      intro hNil
      exact hSome (List.append_eq_nil_iff.mp hNil).1
  have hBare : bareOf (String.ofList text) = text := by
    unfold bareOf
    rw [hTrim, String.toList_ofList, List.takeWhile_eq_self_iff]
    intro c hMem
    rw [hSplit] at hMem
    apply decide_eq_true
    rcases List.mem_append.mp hMem with hPrefix | hDigit
    · exact (hFront c hPrefix).1
    · rcases List.mem_map.mp hDigit with ⟨digit, hMember, rfl⟩
      exact charOf_ne_mark (hSmall digit hMember)
  have hLower : tables.toLowercase text = text := by
    apply toLowercase_of_isLower
    intro c hMem
    rw [hSplit] at hMem
    rcases List.mem_append.mp hMem with hPrefix | hDigit
    · rcases hFront c hPrefix with ⟨-, hAscii, hSame, -⟩
      constructor
      · intro hSigma
        rw [hSigma] at hAscii
        exact absurd hAscii (by decide)
      · unfold UnicodeTables.charToLowercase
        rw [if_pos hAscii, hSame]
    · exact (hPlain c hDigit).isLower _
  refine ⟨String.ofList text, ?_, ?_⟩
  · unfold encode
    rw [hEncodes.text, hText]
    rfl
  · unfold decode isLegacyPaycode isMixed
    simp only [hBare, hLower, hLegacy.1, hLegacy.2, Bool.or_self, Bool.false_eq_true, if_false,
      ne_eq, not_true_eq_false, decide_false, Bool.and_false]
    rw [← hText, splitOnce_append (colon_not_mem_codePrefix _)]
    dsimp only
    unfold ofParts
    rw [if_neg (by rw [utf8_digits_length hSmall]; exact hLong), mapM_digitOf hSmall]
    dsimp only [Except.mapError]
    rw [bind_of_ok rfl, if_neg (not_not.mpr hEncodes.accepts),
      bind_of_ok (dropChecksum_append hEncodes.length), hEncodes.inverse]
    exact ofPayload_payloadOf scanPubkey spendPubkey network prefixBits hScan hSpend hBits

end RoundTrip

--- What Is Accepted

theorem ofPayload_ne_panic (isPublicKey : Vector UInt8 33 → Bool) (codePrefix : List Char)
    (payload8 : List UInt8) : ofPayload isPublicKey codePrefix payload8 ≠ .error .panic := by
  intro hPanic
  unfold ofPayload at hPanic
  split at hPanic
  · dsimp only at hPanic
    split at hPanic
    · cases hPanic
    · split at hPanic
      · cases hPanic
      · split at hPanic
        · cases hPanic
        · split at hPanic <;> cases hPanic
  · cases hPanic

variable {isPublicKey : Vector UInt8 33 → Bool} {code : Cashcode}

theorem codePrefix_of_ofPayload {codePrefix : List Char} {payload8 : List UInt8}
    (hPayload : ofPayload isPublicKey codePrefix payload8 = .ok code) :
    String.ofList codePrefix ∈ mainnetPrefixes ++ testnetPrefixes ∧
    payload8.length = payloadLen + 1 := by
  unfold ofPayload at hPayload
  split at hPayload
  · rename_i hLength
    dsimp only at hPayload
    split at hPayload
    · cases hPayload
    · rename_i hNetwork
      constructor
      · rcases not_not.mp hNetwork with ⟨hMain, -⟩ | ⟨hTest, -⟩
        · exact List.mem_append_left _ hMain
        · exact List.mem_append_right _ hTest
      · cases payload8 with
        | nil => cases hLength.2
        | cons kind p =>
          rw [List.length_cons]
          exact congrArg (· + 1) hLength.1
  · cases hPayload

/- What is accepted of a body: symbols whose checksum the prefix makes vanish, and the payload in
   front of it. -/
structure Accepts (isPublicKey : Vector UInt8 33 → Bool) (codePrefix body : List Char)
    (code : Cashcode) (values : List UInt8) : Prop where
  symbols : body.mapM digitOf = .ok values
  length : values.length = 125
  accepts : polymod (prefixSymbols codePrefix ++ [0] ++ values) = 0
  payload :
    ∃ payload8,
    convertBits (values.take (values.length - 8)) 5 8 false = some payload8 ∧
      ofPayload isPublicKey codePrefix payload8 = .ok code

theorem accepts_of_ofParts {codePrefix body : List Char}
    (hParts : ofParts isPublicKey codePrefix body = .ok code) :
    ∃ values, Accepts isPublicKey codePrefix body code values := by
  unfold ofParts at hParts
  split at hParts
  · cases hParts
  · rcases bind_eq_ok_iff.mp hParts with ⟨values, hValues, hRest⟩
    have hSymbols := mapError_eq_ok_iff.mp hValues
    split at hRest
    · cases hRest
    · rename_i hAccepts
      rcases bind_eq_ok_iff.mp hRest with ⟨payload5, hCut, hRest⟩
      unfold dropChecksum at hCut
      split at hCut
      · cases hCut
      · rename_i hLong
        cases hCut
        split at hRest
        · cases hRest
        · rename_i payload8 hConvert
          refine ⟨values, hSymbols, ?_, not_not.mp hAccepts, payload8, hConvert, hRest⟩
          -- a payload of 73 bytes has 117 digits
          have hPayload := (codePrefix_of_ofPayload hRest).2
          rcases padded_of_convertBits (by decide) (by decide)
              (by decide) hConvert with
            ⟨zeros, hPadded, hZeros⟩
          have hLength := hPadded.length_eq
          rw [List.length_map, List.length_map, hPayload, List.length_take] at hLength
          unfold payloadLen at hLength
          omega

/- The parts of a code that is neither a legacy one nor of mixed case. -/
def partsOf (tables : CaseTables) (code : String) : Option (List Char × List Char) :=
  if isLegacyPaycode tables code || isMixed tables (bareOf code)
  then none
  else splitOnce ':' (tables.toLowercase (bareOf code))

variable {tables : CaseTables}

theorem decode_eq_of_parts {code : String} {parts : List Char × List Char}
    (hParts : partsOf tables code = some parts) (isPublicKey : Vector UInt8 33 → Bool) :
    decode tables isPublicKey code = ofParts isPublicKey parts.1 parts.2 := by
  unfold partsOf at hParts
  unfold decode
  dsimp only
  split at hParts
  · cases hParts
  · rename_i hPlain
    rw [Bool.or_eq_true, not_or] at hPlain
    rw [if_neg hPlain.1, if_neg hPlain.2, hParts]

theorem decode_of_no_parts {code : String} (hParts : partsOf tables code = none)
    (isPublicKey : Vector UInt8 33 → Bool) :
    ∃ message, decode tables isPublicKey code = .error (.error (.usage message)) := by
  unfold partsOf at hParts
  unfold decode
  dsimp only
  split at hParts
  · rename_i hEither
    rw [Bool.or_eq_true] at hEither
    by_cases hLegacy : isLegacyPaycode tables code = true
    · rw [if_pos hLegacy]
      exact ⟨_, rfl⟩
    · rw [if_neg hLegacy, if_pos (hEither.resolve_left hLegacy)]
      exact ⟨_, rfl⟩
  · rename_i hPlain
    rw [Bool.or_eq_true, not_or] at hPlain
    rw [if_neg hPlain.1, if_neg hPlain.2, hParts]
    exact ⟨_, rfl⟩

/- What is decoded carries a prefix of its own, and none of a legacy code. -/
theorem looksLikeRpa_of_decode {text : String}
    (hDecode : decode tables isPublicKey text = .ok code) :
    isLegacyPaycode tables text = false ∧ looksLikeRpa tables text = true := by
  cases hParts : partsOf tables text with
  | none =>
    rcases decode_of_no_parts hParts isPublicKey with ⟨message, hError⟩
    rw [hError] at hDecode
    cases hDecode
  | some parts =>
    rw [decode_eq_of_parts hParts] at hDecode
    rcases accepts_of_ofParts hDecode with ⟨values, hAccepts⟩
    rcases hAccepts.payload with ⟨payload8, -, hPayload⟩
    have hPrefix := (codePrefix_of_ofPayload hPayload).1
    unfold partsOf at hParts
    split at hParts
    · cases hParts
    · rename_i hPlain
      rw [Bool.or_eq_true, not_or] at hPlain
      constructor
      · exact Bool.eq_false_of_not_eq_true hPlain.1
      · unfold looksLikeRpa carries
        dsimp only
        rw [(Address.splitOnce_eq_some hParts).2, List.any_eq_true]
        refine ⟨_, hPrefix, ?_⟩
        rw [String.toList_ofList, List.isPrefixOf_iff_prefix]
        exact ⟨parts.2, by simp⟩

--- Out Of Range

/- A body of more than eight bytes, but of fewer characters, all of which stand for symbols. -/
def ShortAccepted (parts : List Char × List Char) : Prop :=
  8 < (utf8 parts.2).length ∧ ∃ values,
      parts.2.mapM digitOf = .ok values ∧ values.length < 8 ∧
        polymod (prefixSymbols parts.1 ++ [0] ++ values) = 0

theorem ofParts_panic_iff (isPublicKey : Vector UInt8 33 → Bool) (parts : List Char × List Char) :
    ofParts isPublicKey parts.1 parts.2 = .error .panic ↔ ShortAccepted parts := by
  unfold ofParts ShortAccepted
  split
  · rename_i hShort
    constructor
    · intro hPanic
      cases hPanic
    · rintro ⟨hLong, -⟩
      exfalso
      omega
  · rename_i hLong
    cases hValues : parts.2.mapM digitOf with
    | error message =>
      constructor
      · intro hPanic
        cases hPanic
      · rintro ⟨-, values, hOther, -⟩
        cases hOther
    | ok values =>
      dsimp only [Except.mapError]
      rw [bind_of_ok rfl]
      constructor
      · intro hPanic
        refine ⟨Nat.lt_of_not_le hLong, values, rfl, ?_⟩
        split at hPanic
        · cases hPanic
        · rename_i hAccepts
          refine ⟨?_, not_not.mp hAccepts⟩
          by_contra hEight
          refine bind_ne_error ?_ ?_ hPanic
          · unfold dropChecksum
            rw [if_neg hEight]
            intro hOther
            cases hOther
          · intro payload5 _
            split
            · intro hOther
              cases hOther
            · exact ofPayload_ne_panic _ _ _
      · rintro ⟨-, other, hOther, hEight, hAccepts⟩
        cases hOther
        rw [if_neg (not_not.mpr hAccepts)]
        unfold dropChecksum
        rw [if_pos hEight]
        rfl

theorem decode_inRange_iff (tables : CaseTables) (isPublicKey : Vector UInt8 33 → Bool)
    (code : String) :
    decode tables isPublicKey code ≠ .error .panic ↔
    ¬ ∃ parts, partsOf tables code = some parts ∧ ShortAccepted parts := by
  rw [not_iff_not]
  cases hParts : partsOf tables code with
  | none =>
    rcases decode_of_no_parts hParts isPublicKey with ⟨message, hError⟩
    rw [hError]
    simp
  | some parts =>
    rw [decode_eq_of_parts hParts, ofParts_panic_iff]
    simp

/-
  What is written for two public keys is read again with all of its fields, no legacy code is ever
  read as one, and reading one is out of range exactly where fewer characters than a checksum has
  pass as one in more bytes.
-/
theorem cashcode_round_trip (tables : CaseTables) (isPublicKey : Vector UInt8 33 → Bool) :
    (∀ (scanPubkey spendPubkey : Vector UInt8 33) (network : Network) (prefixBits : UInt8),
        isPublicKey scanPubkey = true → isPublicKey spendPubkey = true →
          prefixBits ∈ ([0, 4, 8, 12, 16] : List UInt8) →
          ∃ text,
            encode scanPubkey spendPubkey network prefixBits = some text ∧
              decode tables isPublicKey text =
                .ok (codeOf scanPubkey spendPubkey network prefixBits)) ∧
    (∀ text code,
        decode tables isPublicKey text = .ok code →
          isLegacyPaycode tables text = false ∧ looksLikeRpa tables text = true) ∧
    ∀ text,
      decode tables isPublicKey text ≠ .error .panic ↔
        ¬ ∃ parts, partsOf tables text = some parts ∧ ShortAccepted parts := by
  refine ⟨?_, ?_, ?_⟩
  · intro scanPubkey spendPubkey network prefixBits hScan hSpend hBits
    exact decode_encoded scanPubkey spendPubkey network prefixBits tables hScan hSpend hBits
  · intro text code hDecode
    exact looksLikeRpa_of_decode hDecode
  · exact decode_inRange_iff tables isPublicKey

/- Tables of characters without a case. -/
def caselessTables : CaseTables :=
  { Address.caselessTables with
    uppercase := fun c => [c] }

/- Seven characters of three bytes, whose lowest bytes are those of symbols. -/
def shortCode : String :=
  String.ofList
    ("zb:".toList ++ [0x4e76, 0x4e39, 0x4e34, 0x4e34, 0x4e77, 0x4e74, 0x4e78].map Char.ofNat)

theorem shortCode_panics :
    ¬ ∀ (tables : CaseTables) (isPublicKey : Vector UInt8 33 → Bool) (text : String), decode tables
      isPublicKey text ≠ .error .panic := by
  intro hNever
  apply hNever caselessTables (fun _ => true) shortCode
  decide +kernel

end Rpa

end OptnWallet
