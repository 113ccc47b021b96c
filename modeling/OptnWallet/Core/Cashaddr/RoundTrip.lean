import OptnWallet.Core.Cashaddr.Checksum
import OptnWallet.Core.Cashaddr.Regrouping
import OptnWallet.Library.StagedUpdate

/-
  What is encoded is decoded: every payload, and every address under a prefix that trimming and
  lower case leave alone.

  Main declarations:
    * `NetworkPrefix` and `Network.networkPrefix`
    * `Address.decode_encode`
-/

--- Characters

namespace OptnWallet

/- Prefixes in lower case, without a colon in them and without white space in front. -/
structure NetworkPrefix (tables : UnicodeTables) (text : List Char) : Prop where
  colonFree : ':' ∉ text
  lower : ∀ c ∈ text, tables.IsLower c
  unspaced : ∀ c, text.head? = some c → Text.isWhitespace c = false

variable {text : List Char}

/- What is decided of each character of a text. -/
theorem forall_of_all {Holds : Char → Prop} [DecidablePred Holds]
    (hAll : text.all (fun c => decide (Holds c)) = true) : ∀ c ∈ text, Holds c := by
  intro c hMem
  exact of_decide_eq_true (List.all_eq_true.mp hAll c hMem)

/- What is used of the characters that digits are written as. -/
structure PlainChar (c : Char) : Prop where
  ascii : c.toNat < 128
  lower : c.toLower = c
  utf8 : String.utf8EncodeChar c = [UInt8.ofNat c.toNat]
  not_colon : c ≠ ':'
  not_space : Text.isWhitespace c = false

theorem PlainChar.isLower {c : Char} (hPlain : PlainChar c) (tables : UnicodeTables) :
    tables.IsLower c := by
  constructor
  · intro hSigma
    have hAscii := hPlain.ascii
    rw [hSigma] at hAscii
    exact absurd hAscii (by decide)
  · unfold UnicodeTables.charToLowercase
    rw [if_pos hPlain.ascii, hPlain.lower]

/- Lower case leaves such a text in front of others as it is.  By induction over what is in front.
   -/
theorem toLowercase_front {tables : UnicodeTables} {front : List Char}
    (hLower : ∀ c ∈ front, tables.IsLower c) (before back : List Char) :
    tables.toLowercaseAfter before (front ++ back) =
      front ++ tables.toLowercaseAfter (front.reverse ++ before) back := by
  induction front generalizing before with
  | nil => rfl
  | cons c front ih =>
    have hHere := hLower c List.mem_cons_self
    rw [List.cons_append, UnicodeTables.toLowercaseAfter, if_neg hHere.1, hHere.2, ih,
      List.reverse_cons, List.append_assoc]
    · rfl
    · intro other hMem
      exact hLower other (List.mem_cons_of_mem _ hMem)

theorem toLowercase_of_isLower {tables : UnicodeTables} (hLower : ∀ c ∈ text, tables.IsLower c)
    (before : List Char) : tables.toLowercaseAfter before text = text := by
  have hFront := toLowercase_front hLower before []
  rw [UnicodeTables.toLowercaseAfter, List.append_nil] at hFront
  exact hFront

/- Nothing is trimmed between two characters that are no white space. -/
theorem trim_of_ends (hHead : ∀ c, text.head? = some c → Text.isWhitespace c = false)
    (hLast : ∀ c, text.getLast? = some c → Text.isWhitespace c = false) :
    Text.trim (String.ofList text) = String.ofList text := by
  have hDrop :
      ∀ chars : List Char,
      (∀ c, chars.head? = some c → Text.isWhitespace c = false) →
        chars.dropWhile Text.isWhitespace = chars := by
    intro chars hChars
    cases chars with
    | nil => rfl
    | cons c chars =>
      rw [List.dropWhile_cons_of_neg]
      rw [hChars c rfl]
      decide
  unfold Text.trim
  rw [String.toList_ofList, hDrop text hHead, hDrop, List.reverse_reverse]
  rw [List.head?_reverse]
  exact hLast

/- The same, in a form that is decided. -/
theorem trim_of_all_ends (hHead : text.head?.all (fun c => !Text.isWhitespace c) = true)
    (hLast : text.getLast?.all (fun c => !Text.isWhitespace c) = true) :
    Text.trim (String.ofList text) = String.ofList text := by
  apply trim_of_ends
  · intro c hFirst
    rw [hFirst] at hHead
    simpa using hHead
  · intro c hFinal
    rw [hFinal] at hLast
    simpa using hLast

theorem splitOnce_of_not_mem {separator : Char} (hMem : separator ∉ text) :
    Cashaddr.splitOnce separator text = none := by
  induction text with
  | nil => rfl
  | cons c text ih =>
    rw [List.mem_cons, not_or] at hMem
    unfold Cashaddr.splitOnce
    rw [if_neg (Ne.symm hMem.1), ih hMem.2]
    rfl

theorem splitOnce_append {separator : Char} {before : List Char} (hMem : separator ∉ before)
    (after : List Char) :
    Cashaddr.splitOnce separator (before ++ separator :: after) = some (before, after) := by
  induction before with
  | nil => rw [List.nil_append, Cashaddr.splitOnce, if_pos rfl]
  | cons c before ih =>
    rw [List.mem_cons, not_or] at hMem
    rw [List.cons_append, Cashaddr.splitOnce, if_neg (Ne.symm hMem.1), ih hMem.2]
    rfl

namespace Cashaddr

/- A digit is found again where its character is. -/
theorem charset_digits :
    ∀ digit : Fin 32,
    PlainChar (charOf (UInt8.ofNat digit.val)) ∧
      Address.symbolOf (UInt8.ofNat (charOf (UInt8.ofNat digit.val)).toNat) =
        .ok (UInt8.ofNat digit.val) ∧
      digitOf (charOf (UInt8.ofNat digit.val)) = .ok (UInt8.ofNat digit.val) := by
  intro digit
  refine ⟨⟨?_, ?_, ?_, ?_, ?_⟩, ?_, ?_⟩ <;>
    revert digit <;> decide +kernel

section Digits

variable {digits : List UInt8} (hDigits : ∀ digit ∈ digits, digit.toNat < 2 ^ 5)

theorem digit_facts {digit : UInt8} (hDigit : digit.toNat < 2 ^ 5) :
    PlainChar (charOf digit) ∧
    Address.symbolOf (UInt8.ofNat (charOf digit).toNat) = .ok digit ∧
    digitOf (charOf digit) = .ok digit := by
  have hFacts := charset_digits ⟨digit.toNat, hDigit⟩
  rw [UInt8.ofNat_toNat] at hFacts
  exact hFacts

include hDigits

theorem plain_digits : ∀ c ∈ digits.map charOf, PlainChar c := by
  intro c hMem
  rcases List.mem_map.mp hMem with ⟨digit, hDigit, rfl⟩
  exact (digit_facts (hDigits digit hDigit)).1

theorem colon_not_mem_digits : ':' ∉ digits.map charOf := by
  intro hMem
  exact (plain_digits hDigits _ hMem).not_colon rfl

/- What was written is read, from bytes and from characters. By induction over the digits. -/
theorem mapM_symbolOf : (utf8 (digits.map charOf)).mapM Address.symbolOf = .ok digits := by
  induction digits with
  | nil => rfl
  | cons digit digits ih =>
    have hHere := digit_facts (hDigits digit List.mem_cons_self)
    have hRest := ih (fun other hMem => hDigits other (List.mem_cons_of_mem _ hMem))
    unfold utf8 at hRest ⊢
    rw [List.map_cons, List.flatMap_cons, hHere.1.utf8, List.singleton_append, List.mapM_cons,
      hHere.2.1, hRest]
    rfl

theorem mapM_digitOf : (digits.map charOf).mapM digitOf = .ok digits := by
  induction digits with
  | nil => rfl
  | cons digit digits ih =>
    have hHere := digit_facts (hDigits digit List.mem_cons_self)
    have hRest := ih (fun other hMem => hDigits other (List.mem_cons_of_mem _ hMem))
    rw [List.map_cons, List.mapM_cons, hHere.2.2, hRest]
    rfl

end Digits

--- Payloads

/-
  What a payload is written as: the prefix, and the digits of the payload and of a checksum that
  accepts them.  They convert back to the payload.
-/
structure Encodes (addressPrefix : List Char) (payload8 payload5 checks : List UInt8) : Prop where
  converts : convertBits payload8 8 5 true = some payload5
  inverse : convertBits payload5 5 8 false = some payload8
  small : ∀ digit ∈ payload5 ++ checks, digit.toNat < 2 ^ 5
  length : checks.length = 8
  accepts : polymod (prefixSymbols addressPrefix ++ [0] ++ (payload5 ++ checks)) = 0
  text :
    encodePayload addressPrefix payload8 =
      some (addressPrefix ++ ':' :: (payload5 ++ checks).map charOf)

theorem encodes (addressPrefix : List Char) (payload8 : List UInt8) :
    ∃ payload5 checks, Encodes addressPrefix payload8 payload5 checks := by
  have hBytes : ∀ value ∈ payload8, value.toNat < 2 ^ 8 := fun value _ => value.toNat_lt
  rcases @convertBits_padded payload8 8 5 (by decide)
      (by decide) (by decide) hBytes with
    ⟨payload5, zeros, hConvert, hPadded, -⟩
  refine ⟨payload5,
    checksumDigits (polymod (prefixSymbols addressPrefix ++ [0] ++ payload5 ++ List.replicate 8 0)),
    ?_⟩
  constructor
  · exact hConvert
  · exact convertBits_inverse (by decide) (by decide) (by decide) hBytes hConvert
  · intro digit hMem
    rcases List.mem_append.mp hMem with hPayload | hCheck
    · exact hPadded.small _ (List.mem_map_of_mem hPayload)
    · exact checksumDigits_lt _ digit hCheck
  · exact checksumDigits_length _
  · rw [← List.append_assoc]
    exact polymod_checksum _
  · unfold encodePayload
    rw [hConvert, Option.bind_eq_bind, Option.bind_some, List.map_append]
    simp only [List.append_assoc, List.cons_append, List.nil_append]

end Cashaddr

--- Addresses

namespace Address

open Cashaddr

theorem ofVersion_versionByte (kind : AddressKind) :
    AddressKind.ofVersion kind.versionByte = .ok kind := by
  cases kind <;> rfl

theorem ofPayload_of_address (address : Address) :
    ofPayload address.addressPrefix.toList ([address.kind.versionByte] ++ address.hash.toList) =
      .ok address := by
  have hLength : address.hash.toList.length = 20 := Vector.length_toList
  unfold ofPayload
  rw [List.singleton_append]
  dsimp only
  rw [dif_pos hLength, ofVersion_versionByte]
  simp only [bind, Except.bind, String.ofList_toList]
  rfl

theorem payloadDigits_eq {addressPrefix : List Char} {payload5 checks : List UInt8}
    (hChecks : checks.length = 8) :
    payloadDigits addressPrefix (prefixSymbols addressPrefix ++ [0] ++ (payload5 ++ checks)) =
      .ok payload5 := by
  have hSymbols :
      (prefixSymbols addressPrefix ++ [0]).length = (utf8 addressPrefix).length + 1 := by
    unfold prefixSymbols
    rw [List.length_append, List.length_map, List.length_singleton]
  have hLength :
      (prefixSymbols addressPrefix ++ [0] ++ (payload5 ++ checks)).length - 8 =
        (prefixSymbols addressPrefix ++ [0] ++ payload5).length := by
    simp only [List.length_append, hChecks]
    omega
  unfold payloadDigits
  dsimp only
  rw [if_neg, ← hSymbols, hLength, ← List.append_assoc, List.take_left, List.drop_left]
  rw [hLength, ← hSymbols, List.length_append]
  simp only [List.length_append] at *
  omega

/- Text that splits into a prefix and the digits of an address is decoded to it. -/
theorem decode_of_split {tables : UnicodeTables} {address : Address} {payload5 checks : List UInt8}
    (hEncodes :
      Encodes address.addressPrefix.toList ([address.kind.versionByte] ++ address.hash.toList)
        payload5 checks) {text : List Char}
    (hTrim : Text.trim (String.ofList text) = String.ofList text)
    (hLower : tables.toLowercase text = text)
    (hSplit : splitPrefix text = (address.addressPrefix.toList, (payload5 ++ checks).map charOf)) :
    decode tables (String.ofList text) = .ok address := by
  have hNonempty : (payload5 ++ checks).map charOf ≠ [] := by
    intro hNil
    have hLength := congrArg List.length hNil
    rw [List.length_map, List.length_append, hEncodes.length] at hLength
    simp at hLength
  have hAccepts :
      ¬ polymod (prefixSymbols address.addressPrefix.toList ++ [0] ++ (payload5 ++ checks)) ≠
        0 := by
    intro hNe
    exact hNe hEncodes.accepts
  unfold decode
  dsimp only
  rw [hTrim, String.toList_ofList, hLower, hSplit]
  dsimp only
  rw [if_neg hNonempty, mapM_symbolOf hEncodes.small]
  simp only [bind, Except.bind]
  rw [if_neg hAccepts, payloadDigits_eq hEncodes.length]
  dsimp only
  rw [hEncodes.inverse]
  exact ofPayload_of_address address

/- The last character is a digit of the checksum. -/
theorem last_plain {digits : List UInt8} (hSmall : ∀ digit ∈ digits, digit.toNat < 2 ^ 5)
    (hNonempty : digits ≠ []) (front : List Char) :
    ∀ c, (front ++ digits.map charOf).getLast? = some c → Text.isWhitespace c = false := by
  intro c hLast
  have hDigits : digits.map charOf ≠ [] := by
    intro hNil
    exact hNonempty (List.map_eq_nil_iff.mp hNil)
  rw [List.getLast?_append_of_ne_nil _ hDigits] at hLast
  exact (plain_digits hSmall c (List.mem_of_getLast? hLast)).not_space

/-
  Every address is decoded from its own text, and under the default prefix also from the text
  without the prefix.
-/
theorem exists_text (tables : UnicodeTables) (address : Address)
    (hPrefix : NetworkPrefix tables address.addressPrefix.toList) :
    ∃ text,
    address.encode = some text ∧ decode tables text = .ok address ∧
      (address.addressPrefix = "bitcoincash" → ∃ bare,
        text = "bitcoincash:" ++ bare ∧ decode tables bare = .ok address) := by
  rcases encodes address.addressPrefix.toList ([address.kind.versionByte] ++ address.hash.toList)
    with ⟨payload5, checks, hEncodes⟩
  have hPlain := plain_digits hEncodes.small
  have hNonempty : payload5 ++ checks ≠ [] := by
    intro hNil
    have hLength := congrArg List.length hNil
    rw [List.length_append, hEncodes.length] at hLength
    simp at hLength
  refine ⟨String.ofList (address.addressPrefix.toList ++ ':' :: (payload5 ++ checks).map charOf),
    ?_, ?_, ?_⟩
  · unfold encode
    rw [hEncodes.text]
    rfl
  · apply decode_of_split hEncodes
    · apply trim_of_ends
      · intro c hHead
        cases hText : address.addressPrefix.toList with
        | nil =>
          rw [hText] at hHead
          cases hHead
          decide
        | cons first rest =>
          rw [hText] at hHead
          apply hPrefix.unspaced
          rw [hText]
          exact hHead
      · rw [List.append_cons]
        exact last_plain hEncodes.small hNonempty _
    · apply toLowercase_of_isLower
      intro c hMem
      rcases List.mem_append.mp hMem with hFront | hBack
      · exact hPrefix.lower c hFront
      · rcases List.mem_cons.mp hBack with rfl | hDigit
        · constructor
          · decide
          · rfl
        · exact (hPlain c hDigit).isLower tables
    · unfold splitPrefix
      rw [splitOnce_append hPrefix.colonFree]
  · intro hDefault
    refine ⟨String.ofList ((payload5 ++ checks).map charOf), ?_, ?_⟩
    · rw [hDefault]
      apply String.toList_injective
      rw [String.toList_append, String.toList_ofList, String.toList_ofList, String.toList_ofList,
        String.toList_ofList]
      rfl
    · apply decode_of_split hEncodes
      · apply trim_of_ends
        · intro c hHead
          exact (hPlain c (List.mem_of_mem_head? hHead)).not_space
        · exact last_plain hEncodes.small hNonempty []
      · apply toLowercase_of_isLower
        intro c hMem
        exact (hPlain c hMem).isLower tables
      · unfold splitPrefix
        rw [splitOnce_of_not_mem (colon_not_mem_digits hEncodes.small), hDefault]

/-
  Every payload has a text that decodes to it, under any prefix: its digits convert back, and the
  checksum accepts them.  Every address is decoded from its own text, and under the default prefix
  also from the text without the prefix.
-/
theorem decode_encode (tables : UnicodeTables) :
    (∀ (addressPrefix : List Char) (payload8 : List UInt8),
        ∃ payload5 checks, Encodes addressPrefix payload8 payload5 checks) ∧
    ∀ address : Address,
      NetworkPrefix tables address.addressPrefix.toList → ∃ text,
          address.encode = some text ∧ decode tables text = .ok address ∧
            (address.addressPrefix = "bitcoincash" → ∃ bare,
              text = "bitcoincash:" ++ bare ∧ decode tables bare = .ok address) := by
  constructor
  · exact encodes
  · intro address hPrefix
    exact exists_text tables address hPrefix

end Address

/- The prefixes of the networks are such prefixes. -/
theorem Network.networkPrefix (tables : UnicodeTables) (network : Network) :
    NetworkPrefix tables network.addressPrefix.toList where
  colonFree := by
    cases network <;> decide
  lower := by
    have hAscii :
        ∀ c ∈ network.addressPrefix.toList,
        c ≠ UnicodeTables.capitalSigma ∧ c.toNat < 128 ∧ c.toLower = c := by
      apply forall_of_all
      cases network <;> decide
    intro c hMem
    rcases hAscii c hMem with ⟨hSigma, hLt, hLower⟩
    refine ⟨hSigma, ?_⟩
    unfold UnicodeTables.charToLowercase
    rw [if_pos hLt, hLower]
  unspaced := by
    intro c hHead
    have hPlain : ∀ c ∈ network.addressPrefix.toList, Text.isWhitespace c = false := by
      apply forall_of_all
      cases network <;> decide
    exact hPlain c (List.mem_of_mem_head? hHead)

namespace Address

/- Tables of characters that are all in lower case. -/
def caselessTables : UnicodeTables :=
  { lowercase := fun c => [c]
    cased := fun _ => false
    caseIgnorable := fun _ => false }

/- A script address of the main network that takes tokens. -/
theorem decode_encode_mainnet :
    ∃ text bare,
      text = "bitcoincash:" ++ bare ∧ decode caselessTables text = .ok
            { kind := .p2shToken
              hash := Vector.replicate 20 0x42
              addressPrefix := "bitcoincash" } ∧
        decode caselessTables bare = .ok
            { kind := .p2shToken
              hash := Vector.replicate 20 0x42
              addressPrefix := "bitcoincash" } := by
  rcases (decode_encode caselessTables).2
      { kind := .p2shToken
        hash := Vector.replicate 20 0x42
        addressPrefix := "bitcoincash" }
      (Network.networkPrefix caselessTables .mainnet) with
    ⟨text, -, hText, hBare⟩
  rcases hBare rfl with ⟨bare, hEq, hDecode⟩
  exact ⟨text, bare, hEq, hText, hDecode⟩

/- The example address of the specification. -/
example :
    ((decode caselessTables "bitcoincash:qpm2qsznhks23z7629mms6s4cwef74vcwvy22gdx6a").map
          (fun address => (address.kind, Text.hexEncode address.hash.toList))) =
      .ok (.p2pkh, "76a04053bda0a88bda5177b86a15c3b29f559873") := by
  decide +kernel

end Address

end OptnWallet
