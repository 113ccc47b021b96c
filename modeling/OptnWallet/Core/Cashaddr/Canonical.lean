import OptnWallet.Core.Cashaddr.RoundTrip
import OptnWallet.Library.Utf8

/-
  What is accepted as an address: the characters of a payload and of the one checksum that it has.
  The size bits of the version byte are accepted whatever they are, and a payload shorter than a
  checksum is cut out of range.

  Main declarations:
    * `Address.mapM_symbolOf_iff`
    * `Address.decode_ne_panic_iff`
    * `Address.Accepts` and `Address.accepts_of_decode`
    * `Address.decode_canonical_iff`
-/

namespace OptnWallet.Address

open StagedUpdate Cashaddr

--- Symbols

/- A byte that is a symbol is the character of that symbol. -/
theorem facts_of_symbolOf {byte digit : UInt8} (hSymbol : symbolOf byte = .ok digit) :
    digit.toNat < 2 ^ 5 ∧ byte.toNat < 128 ∧ Char.ofNat byte.toNat = charOf digit := by
  have hAll :
      ∀ code < 256,
        (symbolOf (UInt8.ofNat code)).toOption.all
            (fun digit =>
                decide (digit.toNat < 2 ^ 5 ∧ code < 128 ∧ Char.ofNat code = charOf digit)) =
          true := by
    decide +kernel
  have hHere := hAll byte.toNat byte.toNat_lt
  rw [UInt8.ofNat_toNat, hSymbol] at hHere
  exact of_decide_eq_true hHere

/- A character whose bytes are symbols is one symbol. -/
theorem mapM_symbolOf_char {c : Char} {symbols : List UInt8}
    (hSymbols : (String.utf8EncodeChar c).mapM symbolOf = .ok symbols) :
    ∃ digit, digit.toNat < 2 ^ 5 ∧ symbols = [digit] ∧ c = charOf digit := by
  rcases Utf8.encodeChar_cases c with ⟨hLow, hEncode⟩ | ⟨-, first, rest, hFirst, hEncode⟩
  · rw [hEncode, List.mapM_cons] at hSymbols
    rcases bind_eq_ok_iff.mp hSymbols with ⟨digit, hDigit, hRest⟩
    cases hRest
    have hFacts := facts_of_symbolOf hDigit
    rw [UInt8.toNat_ofNat_of_lt' (lt_trans hLow (by decide)), Char.ofNat_toNat] at hFacts
    exact ⟨digit, hFacts.1, rfl, hFacts.2.2⟩
  · rw [hEncode, List.mapM_cons] at hSymbols
    rcases bind_eq_ok_iff.mp hSymbols with ⟨digit, hDigit, -⟩
    have hByte := (facts_of_symbolOf hDigit).2.1
    omega

variable {text : List Char}

/- Text is read as symbols exactly where it is what they are written as.  By induction over the
   text. -/
theorem mapM_symbolOf_iff {symbols : List UInt8} :
    (utf8 text).mapM symbolOf = .ok symbols ↔
    text = symbols.map charOf ∧ ∀ digit ∈ symbols, digit.toNat < 2 ^ 5 := by
  constructor
  · intro hSymbols
    induction text generalizing symbols with
    | nil =>
      cases hSymbols
      simp
    | cons c text ih =>
      unfold utf8 at ih hSymbols
      rw [List.flatMap_cons, List.mapM_append] at hSymbols
      rcases bind_eq_ok_iff.mp hSymbols with ⟨here, hHere, hSymbols⟩
      rcases bind_eq_ok_iff.mp hSymbols with ⟨rest, hRest, hSymbols⟩
      cases hSymbols
      rcases mapM_symbolOf_char hHere with ⟨digit, hDigit, rfl, rfl⟩
      rcases ih hRest with ⟨rfl, hDigits⟩
      rw [List.singleton_append, List.map_cons, List.forall_mem_cons]
      exact ⟨rfl, hDigit, hDigits⟩
  · rintro ⟨rfl, hDigits⟩
    exact mapM_symbolOf hDigits

theorem symbolOf_ne_panic (byte : UInt8) : symbolOf byte ≠ .error .panic := by
  unfold symbolOf
  split
  · intro hPanic
    cases hPanic
  · intro hPanic
    cases hPanic

theorem charOf_inj {digits digits' : List UInt8} (hDigits : ∀ digit ∈ digits, digit.toNat < 2 ^ 5)
    (hDigits' : ∀ digit ∈ digits', digit.toNat < 2 ^ 5)
    (hEq : digits.map charOf = digits'.map charOf) : digits = digits' := by
  have hRead := mapM_symbolOf hDigits
  rw [hEq, mapM_symbolOf hDigits'] at hRead
  exact (Except.ok.inj hRead).symm

--- Out Of Range

/- The prefix and the payload of what is entered. -/
def partsOf (tables : UnicodeTables) (input : String) : List Char × List Char :=
  splitPrefix (tables.toLowercase (Text.trim input).toList)

/- Fewer symbols than a checksum has, for which the prefix makes the checksum vanish. -/
def ShortAccepted (parts : List Char × List Char) : Prop :=
  parts.2 ≠ [] ∧ ∃ symbols,
      (utf8 parts.2).mapM symbolOf = .ok symbols ∧ symbols.length < 8 ∧
        polymod (prefixSymbols parts.1 ++ [0] ++ symbols) = 0

theorem ofPayload_ne_panic (addressPrefix : List Char) (payload8 : List UInt8) :
    ofPayload addressPrefix payload8 ≠ .error .panic := by
  unfold ofPayload
  split
  · intro hPanic
    cases hPanic
  · split
    · apply bind_ne_error
      · unfold AddressKind.ofVersion
        split <;>
          · intro hPanic
            cases hPanic
      · intro kind _ hPanic
        cases hPanic
    · intro hPanic
      cases hPanic

theorem payloadDigits_panic_iff (addressPrefix : List Char) (symbols : List UInt8) :
    payloadDigits addressPrefix (prefixSymbols addressPrefix ++ [0] ++ symbols) = .error .panic ↔
    symbols.length < 8 := by
  have hLength :
      (prefixSymbols addressPrefix ++ [0] ++ symbols).length =
        (utf8 addressPrefix).length + 1 + symbols.length := by
    unfold prefixSymbols
    rw [List.length_append, List.length_append, List.length_map, List.length_singleton]
  unfold payloadDigits
  dsimp only
  rw [hLength]
  split
  · rename_i hShort
    refine ⟨fun _ => by omega, fun _ => rfl⟩
  · rename_i hLong
    constructor
    · intro hPanic
      cases hPanic
    · intro hShort
      exfalso
      omega

/-
  An address is read without an index out of range exactly where no payload shorter than a
  checksum passes as one.
-/
theorem decode_ne_panic_iff (tables : UnicodeTables) (input : String) :
    decode tables input ≠ .error .panic ↔ ¬ ShortAccepted (partsOf tables input) := by
  unfold decode partsOf ShortAccepted
  dsimp only
  generalize splitPrefix (tables.toLowercase (Text.trim input).toList) = parts
  rw [not_iff_not]
  by_cases hEmpty : parts.2 = []
  · simp [hEmpty]
  · rw [if_neg hEmpty]
    cases hSymbols : (utf8 parts.2).mapM symbolOf with
    | error e =>
      have hPlain : e ≠ .panic := by
        rintro rfl
        exact mapM_ne_error (fun byte _ => symbolOf_ne_panic byte) hSymbols
      simp [bind, Except.bind, hPlain]
    | ok symbols =>
      rw [bind_of_ok rfl]
      by_cases hChecks : polymod (prefixSymbols parts.1 ++ [0] ++ symbols) = 0
      · rw [if_neg (not_not.mpr hChecks)]
        constructor
        · intro hPanic
          refine ⟨hEmpty, symbols, rfl, ?_, hChecks⟩
          by_contra hLong
          refine bind_ne_error ?_ ?_ hPanic
          · intro hCut
            exact hLong ((payloadDigits_panic_iff parts.1 symbols).mp hCut)
          · intro payload5 _
            split
            · intro hOther
              cases hOther
            · exact ofPayload_ne_panic _ _
        · rintro ⟨-, other, hOther, hShort, -⟩
          cases hOther
          rw [(payloadDigits_panic_iff parts.1 symbols).mpr hShort]
          rfl
      · rw [if_pos hChecks]
        constructor
        · intro hPanic
          cases hPanic
        · rintro ⟨-, other, hOther, -, hAccepts⟩
          cases hOther
          exact absurd hAccepts hChecks

/- Seven characters behind a prefix of two letters. -/
theorem short_payload_panics :
    ¬ ∀ (tables : UnicodeTables) (input : String), decode tables input ≠ .error .panic := by
  intro hNever
  exact hNever caselessTables "zb:v944wtx" (by decide +kernel)

--- What Is Accepted

/- The digits of a payload and of its checksum, and the address that the payload is. -/
structure Accepts (parts : List Char × List Char) (address : Address)
    (payload5 checks payload8 : List UInt8) : Prop where
  text : parts.2 = (payload5 ++ checks).map charOf
  small : ∀ digit ∈ payload5 ++ checks, digit.toNat < 2 ^ 5
  length : checks.length = 8
  accepts : polymod (prefixSymbols parts.1 ++ [0] ++ (payload5 ++ checks)) = 0
  converts : convertBits payload5 5 8 false = some payload8
  payload : ofPayload parts.1 payload8 = .ok address

variable {address : Address}

theorem accepts_of_decode {tables : UnicodeTables} {input : String}
    (hDecode : decode tables input = .ok address) :
    ∃ payload5 checks payload8,
    Accepts (partsOf tables input) address payload5 checks payload8 := by
  unfold decode at hDecode
  unfold partsOf
  dsimp only at hDecode
  generalize splitPrefix (tables.toLowercase (Text.trim input).toList) = parts at hDecode ⊢
  by_cases hEmpty : parts.2 = []
  · rw [if_pos hEmpty] at hDecode
    cases hDecode
  · rw [if_neg hEmpty] at hDecode
    rcases bind_eq_ok_iff.mp hDecode with ⟨symbols, hSymbols, hDecode⟩
    rcases mapM_symbolOf_iff.mp hSymbols with ⟨hText, hSmall⟩
    by_cases hChecks : polymod (prefixSymbols parts.1 ++ [0] ++ symbols) = 0
    · rw [if_neg (not_not.mpr hChecks)] at hDecode
      rcases bind_eq_ok_iff.mp hDecode with ⟨payload5, hCut, hDecode⟩
      have hLong : 8 ≤ symbols.length := by
        by_contra hShort
        rw [(payloadDigits_panic_iff parts.1 symbols).mpr (Nat.lt_of_not_le hShort)] at hCut
        cases hCut
      have hSplit := List.take_append_drop (symbols.length - 8) symbols
      have hEight : (symbols.drop (symbols.length - 8)).length = 8 := by
        rw [List.length_drop]
        omega
      rw [← hSplit, payloadDigits_eq hEight] at hCut
      cases hCut
      split at hDecode
      · cases hDecode
      · rename_i payload8 hConvert
        refine ⟨symbols.take (symbols.length - 8), symbols.drop (symbols.length - 8), payload8, ?_,
          ?_, hEight, ?_, hConvert, hDecode⟩
        · rw [hSplit]
          exact hText
        · rw [hSplit]
          exact hSmall
        · rw [hSplit]
          exact hChecks
    · rw [if_pos hChecks] at hDecode
      cases hDecode

/- The version byte of a kind is the one that was read, with its size bits cleared. -/
theorem toNat_versionByte {version : UInt8} {kind : AddressKind}
    (hKind : AddressKind.ofVersion version = .ok kind) :
    kind.versionByte.toNat = version.toNat / 8 * 8 := by
  have hShift : (version >>> 3).toNat = version.toNat / 8 := by
    rw [UInt8.toNat_shiftRight, Nat.shiftRight_eq_div_pow]
    rfl
  unfold AddressKind.ofVersion at hKind
  rw [hShift] at hKind
  split at hKind <;> cases hKind <;>
    simp [*, AddressKind.versionByte]

/- A payload of an address is a version and a hash. -/
theorem of_ofPayload {addressPrefix : List Char} {payload8 : List UInt8}
    (hPayload : ofPayload addressPrefix payload8 = .ok address) :
    address.addressPrefix = String.ofList addressPrefix ∧
    ∃ version,
      payload8 = version :: address.hash.toList ∧
        address.kind.versionByte.toNat = version.toNat / 8 * 8 := by
  unfold ofPayload at hPayload
  split at hPayload
  · cases hPayload
  · rename_i version hash
    split at hPayload
    · rename_i hLength
      rcases bind_eq_ok_iff.mp hPayload with ⟨kind, hKind, hAddress⟩
      cases hAddress
      exact ⟨rfl, version, rfl, toNat_versionByte hKind⟩
    · cases hPayload

--- The Version Byte

theorem drainGroups_out (toBits acc fuel bits : Nat) (out : List UInt8) :
    out <+: (drainGroups toBits acc fuel bits out).2 := by
  induction fuel generalizing bits out with
  | zero => exact List.prefix_refl out
  | succ fuel ih =>
    unfold drainGroups
    split
    · exact (List.prefix_append out _).trans (ih _ _)
    · exact List.prefix_refl out

/- What was written stays where it is. -/
theorem out_of_foldlM {fromBits toBits : Nat} {data : List UInt8} {buffer buffer' : BitBuffer}
    (hFold :
        data.foldlM (fun buffer value => buffer.push fromBits toBits value) buffer = some buffer') :
    buffer.out <+: buffer'.out := by
  induction data generalizing buffer with
  | nil =>
    cases hFold
    exact List.prefix_refl _
  | cons value data ih =>
    rw [List.foldlM_cons] at hFold
    rcases Option.bind_eq_some_iff.mp hFold with ⟨next, hPush, hRest⟩
    have hNext := ih hRest
    unfold BitBuffer.push at hPush
    split at hPush
    · cases hPush
    · cases hPush
      exact (drainGroups_out _ _ _ _ _).trans hNext

/- The first byte is the first digit and three bits of the second one. -/
theorem first_byte {digit digit' : UInt8} {digits bytes : List UInt8} {byte : UInt8}
    (hConvert : convertBits (digit :: digit' :: digits) 5 8 false = some (byte :: bytes)) :
    byte.toNat = digit.toNat * 8 + digit'.toNat / 4 := by
  unfold convertBits at hConvert
  rcases Option.bind_eq_some_iff.mp hConvert with ⟨buffer, hFold, hFinal⟩
  have hOut : buffer.out = byte :: bytes := by
    rw [if_neg (by decide)] at hFinal
    split at hFinal
    · cases hFinal
    · exact Option.some.inj hFinal
  have hSmall := small_of_foldlM hFold
  rw [List.forall_mem_cons, List.forall_mem_cons] at hSmall
  have hAll :
      ∀ high < 2 ^ 5, ∀ low < 2 ^ 5,
        (([UInt8.ofNat high, UInt8.ofNat low].foldlM
            (fun buffer value => BitBuffer.push buffer 5 8 value)
            { acc := 0, bits := 0, out := [] : BitBuffer }).map BitBuffer.out) =
          some [UInt8.ofNat (high * 8 + low / 4)] := by
    decide +kernel
  have hPair := hAll digit.toNat hSmall.1 digit'.toNat hSmall.2.1
  rw [UInt8.ofNat_toNat, UInt8.ofNat_toNat] at hPair
  rcases Option.map_eq_some_iff.mp hPair with ⟨next, hNext, hWritten⟩
  have hSplit : digit :: digit' :: digits = [digit, digit'] ++ digits := rfl
  rw [hSplit, List.foldlM_append, hNext] at hFold
  have hPrefix := out_of_foldlM hFold
  rw [hWritten, hOut, List.cons_prefix_cons] at hPrefix
  have hDigit := hSmall.1
  have hDigit' := hSmall.2.1
  have hByte : digit.toNat * 8 + digit'.toNat / 4 < UInt8.size := by
    change _ < 256
    omega
  rw [← hPrefix.1, UInt8.toNat_ofNat_of_lt' hByte]

--- One Text For An Address

/- What is entered, in lower case and with a prefix. -/
def completed (tables : UnicodeTables) (input : String) : String :=
  let lower := tables.toLowercase (Text.trim input).toList
  if ':' ∈ lower then String.ofList lower
  else String.ofList ("bitcoincash:".toList ++ lower)

/- The second character of the payload is one of the first four of the alphabet. -/
def SizeBitsClear (tables : UnicodeTables) (input : String) : Prop :=
  ∃ c ∈ ['q', 'p', 'z', 'r'], (partsOf tables input).2[1]? = some c

theorem splitOnce_eq_none {separator : Char} (hSplit : splitOnce separator text = none) :
    separator ∉ text := by
  induction text with
  | nil => exact List.not_mem_nil
  | cons c text ih =>
    unfold splitOnce at hSplit
    split at hSplit
    · cases hSplit
    · rename_i hHere
      rw [List.mem_cons, not_or]
      exact ⟨Ne.symm hHere, ih (Option.map_eq_none_iff.mp hSplit)⟩

theorem splitOnce_eq_some {separator : Char} {parts : List Char × List Char}
    (hSplit : splitOnce separator text = some parts) :
    separator ∉ parts.1 ∧ text = parts.1 ++ separator :: parts.2 := by
  induction text generalizing parts with
  | nil => cases hSplit
  | cons c text ih =>
    unfold splitOnce at hSplit
    split at hSplit
    · rename_i hHere
      cases hSplit
      rw [hHere]
      exact ⟨List.not_mem_nil, rfl⟩
    · rename_i hHere
      rcases Option.map_eq_some_iff.mp hSplit with ⟨rest, hRest, rfl⟩
      rcases ih hRest with ⟨hFree, hText⟩
      constructor
      · exact List.not_mem_cons_of_ne_of_not_mem (Ne.symm hHere) hFree
      · rw [hText]
        rfl

theorem completed_eq (tables : UnicodeTables) (input : String) :
    completed tables input =
      String.ofList ((partsOf tables input).1 ++ ':' :: (partsOf tables input).2) := by
  unfold completed partsOf splitPrefix
  dsimp only
  generalize tables.toLowercase (Text.trim input).toList = lower
  cases hSplit : splitOnce ':' lower with
  | none =>
    rw [if_neg (splitOnce_eq_none hSplit)]
    rfl
  | some parts =>
    have hText := (splitOnce_eq_some hSplit).2
    have hColon : ':' ∈ lower := by
      rw [hText]
      exact List.mem_append_right _ List.mem_cons_self
    rw [if_pos hColon]
    exact congrArg String.ofList hText

section Accepted

variable {parts : List Char × List Char} {address : Address} {payload5 checks payload8 : List UInt8}
variable (hAccepts : Accepts parts address payload5 checks payload8)

include hAccepts

theorem Accepts.payload_length : payload5.length = 34 := by
  rcases of_ofPayload hAccepts.payload with ⟨-, version, hPayload, -⟩
  rcases padded_of_convertBits (by decide) (by decide)
      (by decide) hAccepts.converts with
    ⟨zeros, hPadded, hZeros⟩
  have hLength := hPadded.length_eq
  rw [List.length_map, List.length_map, hPayload, List.length_cons, Vector.length_toList] at hLength
  omega

/- The size bits are in the second digit. -/
theorem Accepts.sizeBits_iff :
    payload8.head? = some address.kind.versionByte ↔
    ∃ c ∈ ['q', 'p', 'z', 'r'], parts.2[1]? = some c := by
  have hLength := hAccepts.payload_length
  rcases of_ofPayload hAccepts.payload with ⟨-, version, hPayload, hVersion⟩
  cases hDigits : payload5 with
  | nil => simp [hDigits] at hLength
  | cons digit rest =>
    cases hRest : rest with
    | nil => simp [hDigits, hRest] at hLength
    | cons digit' rest' =>
      subst hRest hDigits hPayload
      have hSmall := hAccepts.small
      have hByte := first_byte hAccepts.converts
      simp only [List.cons_append, List.forall_mem_cons] at hSmall
      have hChars : ∀ low < 2 ^ 5, charOf (UInt8.ofNat low) ∈ ['q', 'p', 'z', 'r'] ↔ low < 4 := by
        decide
      have hChar := hChars digit'.toNat hSmall.2.1
      rw [UInt8.ofNat_toNat] at hChar
      rw [hAccepts.text]
      simp only [List.head?_cons, Option.some.injEq, List.cons_append, List.map_cons,
        List.getElem?_cons_succ, List.getElem?_cons_zero]
      rw [← UInt8.toNat_inj, hVersion]
      constructor
      · intro hEq
        refine ⟨_, hChar.mpr ?_, rfl⟩
        have hHigh := hSmall.1
        omega
      · rintro ⟨c, hMem, rfl⟩
        have hLow := hChar.mp hMem
        omega

theorem Accepts.encode_iff :
    address.encode = some (String.ofList (parts.1 ++ ':' :: parts.2)) ↔
    payload8.head? = some address.kind.versionByte := by
  rcases of_ofPayload hAccepts.payload with ⟨hPrefix, version, hPayload, -⟩
  rcases encodes parts.1 ([address.kind.versionByte] ++ address.hash.toList) with
    ⟨own5, ownChecks, hOwn⟩
  have hEncode :
      address.encode = some (String.ofList (parts.1 ++ ':' :: (own5 ++ ownChecks).map charOf)) := by
    unfold encode
    rw [hPrefix, String.toList_ofList, hOwn.text]
    rfl
  have hSame :
      address.encode = some (String.ofList (parts.1 ++ ':' :: parts.2)) ↔
      own5 ++ ownChecks = payload5 ++ checks := by
    rw [hEncode, hAccepts.text, Option.some.injEq, String.ofList_inj, List.append_cancel_left_eq,
      List.cons.injEq]
    constructor
    · intro hEq
      exact charOf_inj hOwn.small hAccepts.small hEq.2
    · intro hEq
      exact ⟨rfl, congrArg (List.map charOf) hEq⟩
  rw [hSame, hPayload, List.head?_cons, Option.some.injEq]
  constructor
  · intro hEq
    have hLengths : ownChecks.length = checks.length := by rw [hOwn.length, hAccepts.length]
    have hDigits := (List.append_inj' hEq hLengths).1
    have hConvert := hOwn.inverse
    rw [hDigits, hAccepts.converts, hPayload] at hConvert
    exact (List.cons.inj (Option.some.inj hConvert)).1
  · intro hEq
    have hDigits : own5 = payload5 := by
      have hBack :=
        convertBits_reversed (by decide) (by decide) (by decide)
          (by decide) (fun value _ => value.toNat_lt)
          hAccepts.converts
      rw [hPayload, hEq] at hBack
      exact Option.some.inj (hOwn.converts.symm.trans hBack)
    have hOwnAccepts := hOwn.accepts
    have hGiven := hAccepts.accepts
    rw [hDigits, ← List.append_assoc] at hOwnAccepts
    rw [← List.append_assoc] at hGiven
    have hOwnSmall : ∀ digit ∈ ownChecks, digit.toNat < 2 ^ 5 :=
      fun digit hMem => hOwn.small digit (List.mem_append_right _ hMem)
    have hSmall : ∀ digit ∈ checks, digit.toNat < 2 ^ 5 :=
      fun digit hMem => hAccepts.small digit (List.mem_append_right _ hMem)
    rw [hDigits, checks_unique hOwnSmall hOwn.length hOwnAccepts,
      checks_unique hSmall hAccepts.length hGiven]

end Accepted

theorem encode_completed_iff {tables : UnicodeTables} {input : String}
    (hDecode : decode tables input = .ok address) :
    address.encode = some (completed tables input) ↔ SizeBitsClear tables input := by
  rcases accepts_of_decode hDecode with ⟨payload5, checks, payload8, hAccepts⟩
  rw [completed_eq, hAccepts.encode_iff, hAccepts.sizeBits_iff]
  rfl

/-
  What is accepted is the text of its address exactly where the size bits of the version byte are
  clear, and there no other text with clear size bits is accepted as that address.
-/
theorem decode_canonical_iff {tables : UnicodeTables} {input : String} {address : Address}
    (hDecode : decode tables input = .ok address) :
    (address.encode = some (completed tables input) ↔ SizeBitsClear tables input) ∧
    ∀ other,
      decode tables other = .ok address → SizeBitsClear tables input →
        (completed tables other = completed tables input ↔ SizeBitsClear tables other) := by
  refine ⟨encode_completed_iff hDecode, ?_⟩
  intro other hOther hClear
  rw [← encode_completed_iff hOther, (encode_completed_iff hDecode).mpr hClear, Option.some.injEq,
    eq_comm]

/- The example address of the specification, and the same hash behind a version byte with a size bit
   set. -/
def specificationAddress : String :=
  "bitcoincash:qpm2qsznhks23z7629mms6s4cwef74vcwvy22gdx6a"

def resizedAddress : String :=
  "bitcoincash:q9m2qsznhks23z7629mms6s4cwef74vcwvtn0d2s8a"

theorem specificationAddress_canonical :
    ∃ address,
    decode caselessTables specificationAddress = .ok address ∧
      (address.encode = some (completed caselessTables specificationAddress) ↔
        SizeBitsClear caselessTables specificationAddress) := by
  have hRead :
      ∃ address,
      decode caselessTables specificationAddress = .ok address ∧
        address.addressPrefix = "bitcoincash" :=
    exists_ok_of_check (by decide +kernel)
  rcases hRead with ⟨address, hDecode, -⟩
  exact ⟨address, hDecode, (decode_canonical_iff hDecode).1⟩

theorem resizedAddress_not_canonical :
    ¬ ∀ (tables : UnicodeTables) (input : String) (address : Address), decode tables input = .ok
      address → address.encode = some (completed tables input) ∧ ∀ other, decode tables other = .ok
      address → completed tables other = completed tables input := by
  intro hCanonical
  have hRead :
      ∃ address,
      decode caselessTables resizedAddress = .ok address ∧
        address.encode ≠ some (completed caselessTables resizedAddress) :=
    exists_ok_of_check (by decide +kernel)
  rcases hRead with ⟨address, hDecode, hOther⟩
  have hSame := hCanonical caselessTables resizedAddress address hDecode
  exact hOther hSame.1

end OptnWallet.Address
