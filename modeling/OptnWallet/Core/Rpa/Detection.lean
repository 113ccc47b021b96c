import OptnWallet.Core.Cashaddr.Detection
import OptnWallet.Core.Rpa.Cashcode

/-
  One character of a cash code, replaced by another.  A code is read by the lowest byte of each
  character, so one that has the lowest byte of a symbol is taken for it.

  Main declarations:
    * `Rpa.ReadsAs`
    * `Rpa.replaced_iff`
    * `Rpa.replaced_characters`
-/

--- Symbols

namespace OptnWallet

open UnicodeTables

namespace Rpa

open StagedUpdate Cashaddr

/- A character whose lower case has the lowest byte of a symbol. -/
def ReadsAs (tables : UnicodeTables) (c : Char) (digit : UInt8) : Prop :=
  c ≠ capitalSigma ∧ ∃ x, tables.charToLowercase c = [x] ∧ digitOf x = .ok digit

variable {tables : UnicodeTables}

theorem readsAs_unique : Relator.RightUnique (ReadsAs tables) := by
  rintro c digit digit' ⟨-, x, hX, hDigit⟩ ⟨-, x', hX', hDigit'⟩
  rw [hX] at hX'
  rw [(List.cons.inj hX').1, hDigit'] at hDigit
  exact (Except.ok.inj hDigit).symm

variable {digit : UInt8}

/- The lowest byte of a symbol is that of its character. -/
theorem byte_of_digitOf {x : Char} (hDigit : digitOf x = .ok digit) :
    digit.toNat < 2 ^ 5 ∧ UInt8.ofNat x.toNat = UInt8.ofNat (charOf digit).toNat := by
  unfold digitOf at hDigit
  split at hDigit
  · rename_i i hFind
    cases hDigit
    rw [List.findIdx?_eq_some_iff_getElem] at hFind
    rcases hFind with ⟨hLt, hByte, -⟩
    have hCount : charset.length = 32 := by decide
    rw [hCount] at hLt
    have hIndex : (UInt8.ofNat i).toNat = i := UInt8.toNat_ofNat_of_lt' (lt_trans hLt (by decide))
    refine ⟨by rw [hIndex]; exact hLt, ?_⟩
    unfold charOf
    rw [hIndex, List.getElem?_eq_getElem (by omega)]
    exact (of_decide_eq_true hByte).symm
  · cases hDigit

/- In ASCII the lowest byte is the character. -/
theorem isSymbol_of_readsAs {c : Char} (hReads : ReadsAs tables c digit) (hAscii : c.toNat < 128) :
    Address.IsSymbol c := by
  rcases hReads with ⟨-, x, hX, hDigit⟩
  unfold charToLowercase at hX
  rw [if_pos hAscii] at hX
  have hAll :
      ∀ code < 128,
      (digitOf (Char.ofNat code).toLower).toOption.isSome = true →
        (Char.ofNat code).toLower ∈ charset := by
    decide +kernel
  have hHere := hAll c.toNat hAscii
  rw [Char.ofNat_toNat, (List.cons.inj hX).1, hDigit] at hHere
  unfold Address.IsSymbol
  rw [(List.cons.inj hX).1]
  exact hHere rfl

/- No white space has the lowest byte of a symbol. -/
theorem digitOf_space {x : Char} (hSpace : Text.isWhitespace x = true) : digitOf x ≠ .ok digit := by
  intro hDigit
  rcases byte_of_digitOf hDigit with ⟨hSmall, hByte⟩
  have hAll :
      ∀ low < 2 ^ 5,
      48 ≤ (charOf (UInt8.ofNat low)).toNat ∧ (charOf (UInt8.ofNat low)).toNat < 128 ∧
        (charOf (UInt8.ofNat low)).toNat ≠ 0x5f := by
    decide
  have hChar := hAll digit.toNat hSmall
  rw [UInt8.ofNat_toNat] at hChar
  have hMod := congrArg UInt8.toNat hByte
  rw [UInt8.toNat_ofNat', UInt8.toNat_ofNat'] at hMod
  have hCode : x.toNat = x.val.toNat := rfl
  unfold Text.isWhitespace at hSpace
  rw [decide_eq_true_eq] at hSpace
  omega

section Symbols

variable {tables : UnicodeTables}

/- Neither white space nor a question mark is a symbol. -/
theorem plain_of_readsAs (hStandard : tables.Standard) {c : Char} {digit : UInt8}
    (hReads : ReadsAs tables c digit) : Text.isWhitespace c = false ∧ c ≠ '?' := by
  by_cases hAscii : c.toNat < 128
  · have hSymbol := isSymbol_of_readsAs hReads hAscii
    have hAll :
        ∀ code < 128,
        (Char.ofNat code).toLower ∈ charset →
          Text.isWhitespace (Char.ofNat code) = false ∧ Char.ofNat code ≠ '?' := by
      decide +kernel
    have hHere := hAll c.toNat hAscii
    rw [Char.ofNat_toNat] at hHere
    exact hHere hSymbol
  · constructor
    · rcases hReads with ⟨-, x, hX, hDigit⟩
      by_contra hSpace
      rw [Bool.not_eq_false] at hSpace
      unfold charToLowercase at hX
      rw [if_neg hAscii, hStandard.space c (by omega) hSpace] at hX
      rw [(List.cons.inj hX).1] at hSpace
      exact digitOf_space hSpace hDigit
    · rintro rfl
      exact hAscii (by decide)

theorem digitOf_sigma :
    ∀ final : Bool, ∀ rest : List Char, ∀ values,
      ((if final = true then [Char.ofNat 0x3c2]
          else [Char.ofNat 0x3c3]) ++ rest).mapM digitOf ≠
        .ok values := by
  intro final rest values
  cases final with
  | true =>
    intro hValues
    rcases exists_of_mapM hValues List.mem_cons_self with ⟨digit, hDigit⟩
    cases hDigit
  | false =>
    intro hValues
    rcases exists_of_mapM hValues List.mem_cons_self with ⟨digit, hDigit⟩
    cases hDigit

/- The characters of a body are read one by one.  By induction over the text. -/
theorem reads_of_body (hStandard : tables.Standard) {text : List Char} {values : List UInt8}
    {before : List Char}
    (hValues : (tables.toLowercaseAfter before text).mapM digitOf = .ok values) :
    List.Forall₂ (ReadsAs tables) text values := by
  induction text generalizing before values with
  | nil =>
    cases hValues
    exact List.Forall₂.nil
  | cons c text ih =>
    unfold toLowercaseAfter at hValues
    by_cases hSigma : c = capitalSigma
    · rw [if_pos hSigma] at hValues
      exact absurd hValues (digitOf_sigma _ _ _)
    · rw [if_neg hSigma] at hValues
      have hOne : ∃ x, tables.charToLowercase c = [x] := by
        rcases hStandard.lower_cases c with ⟨-, hHere⟩ | ⟨-, hHere⟩ | ⟨-, hHere⟩ | ⟨-, x, -, hHere⟩
        · exact ⟨_, hHere⟩
        · exact ⟨_, hHere⟩
        · exfalso
          rw [hHere] at hValues
          rcases exists_of_mapM hValues List.mem_cons_self with ⟨digit, hDigit⟩
          cases hDigit
        · exact ⟨_, hHere⟩
      rcases hOne with ⟨x, hX⟩
      rw [hX, List.singleton_append, List.mapM_cons] at hValues
      rcases bind_eq_ok_iff.mp hValues with ⟨digit, hDigit, hValues⟩
      rcases bind_eq_ok_iff.mp hValues with ⟨rest, hRest, hValues⟩
      cases hValues
      exact List.Forall₂.cons ⟨hSigma, x, hX, hDigit⟩ (ih hRest)

theorem body_of_reads {text : List Char} {values : List UInt8}
    (hReads : List.Forall₂ (ReadsAs tables) text values) (before : List Char) :
    (tables.toLowercaseAfter before text).mapM digitOf = .ok values ∧
    (tables.toLowercaseAfter before text).length = values.length := by
  induction hReads generalizing before with
  | nil => exact ⟨rfl, rfl⟩
  | cons hHere _ ih =>
    rcases hHere with ⟨hSigma, x, hX, hDigit⟩
    unfold toLowercaseAfter
    rw [if_neg hSigma, hX, List.singleton_append, List.mapM_cons, bind_of_ok hDigit,
      bind_of_ok (ih _).1, List.length_cons, List.length_cons, (ih _).2]
    exact ⟨rfl, rfl⟩

/- A prefix in ASCII has no letter whose lower case depends on what follows. -/
theorem lowerFront_ascii {followed : Bool} {front before : List Char}
    (hAscii : ∀ x ∈ tables.lowerFront followed before front, x.toNat < 128) (other : Bool) :
    tables.lowerFront other before front = tables.lowerFront followed before front := by
  induction front generalizing before with
  | nil => rfl
  | cons c front ih =>
    unfold lowerFront at hAscii ⊢
    by_cases hSigma : c = capitalSigma
    · exfalso
      rw [if_pos hSigma] at hAscii
      exact sigma_not_ascii _ _ hAscii
    · rw [if_neg hSigma] at hAscii ⊢
      rw [if_neg hSigma, ih]
      intro x hMem
      exact hAscii x (List.mem_append_right _ hMem)

end Symbols

--- Written Codes

/- What is accepted of a bare code: a prefix of a network, and the symbols of a payload with a
   checksum that the prefix makes vanish. -/
structure Written (tables : CaseTables) (bare front payload : List Char) (values : List UInt8) :
    Prop where
  split : splitOnce ':' bare = some (front, payload)
  reads : List.Forall₂ (ReadsAs tables.toUnicodeTables) payload values
  length : values.length = 125
  network :
    ∃ network, ∀ followed, tables.lowerFront followed [] front = (codePrefixOf network).toList
  accepts : polymod (prefixSymbols (tables.lowerFront true [] front) ++ [0] ++ values) = 0
  unmixed : isMixed tables bare = false

section Written

variable {tables : CaseTables} {isPublicKey : Vector UInt8 33 → Bool}

theorem network_of_prefix {codePrefix : List Char}
    (hMem : String.ofList codePrefix ∈ mainnetPrefixes ++ testnetPrefixes) :
    ∃ network, codePrefix = (codePrefixOf network).toList := by
  unfold mainnetPrefixes testnetPrefixes at hMem
  rcases List.mem_append.mp hMem with hMain | hTest
  · refine ⟨.mainnet, ?_⟩
    rw [← String.toList_ofList (l := codePrefix), List.mem_singleton.mp hMain]
    rfl
  · refine ⟨.chipnet, ?_⟩
    rw [← String.toList_ofList (l := codePrefix), List.mem_singleton.mp hTest]
    rfl

theorem codePrefix_ascii (network : Network) :
    ∀ x ∈ (codePrefixOf network).toList, x.toNat < 128 := by
  apply forall_of_all
  cases network <;> decide

variable {text : String}

theorem written_of_decode (hStandard : tables.Standard) {code : Cashcode}
    (hDecode : decode tables isPublicKey text = .ok code) :
    ∃ front payload values, Written tables (bareOf text) front payload values := by
  cases hParts : partsOf tables text with
  | none =>
    rcases decode_of_no_parts hParts isPublicKey with ⟨message, hError⟩
    rw [hError] at hDecode
    cases hDecode
  | some parts =>
    rw [decode_eq_of_parts hParts] at hDecode
    rcases accepts_of_ofParts hDecode with ⟨values, hAccepts⟩
    rcases hAccepts.payload with ⟨payload8, -, hPayload⟩
    rcases network_of_prefix (codePrefix_of_ofPayload hPayload).1 with ⟨network, hNetwork⟩
    unfold partsOf at hParts
    split at hParts
    · cases hParts
    · rename_i hPlain
      rw [Bool.or_eq_true, not_or] at hPlain
      rw [Address.splitOnce_lower hStandard] at hParts
      rcases Option.map_eq_some_iff.mp hParts with ⟨written, hSplit, rfl⟩
      dsimp only at hNetwork hAccepts
      have hFront :
          ∀ followed, tables.lowerFront followed [] written.1 = (codePrefixOf network).toList := by
        intro followed
        rw [← hNetwork]
        apply lowerFront_ascii
        rw [hNetwork]
        exact codePrefix_ascii network
      refine ⟨written.1, written.2, values, hSplit, reads_of_body hStandard hAccepts.symbols,
        hAccepts.length, ⟨network, hFront⟩, ?_, Bool.eq_false_of_not_eq_true hPlain.2⟩
      have hChecks := hAccepts.accepts
      rw [hFront] at hChecks ⊢
      exact hChecks

theorem utf8_length_ge (text : List Char) : text.length ≤ (utf8 text).length := by
  unfold utf8
  induction text with
  | nil => exact Nat.zero_le _
  | cons c text ih =>
    have hChar := List.length_pos_iff.mpr (@String.utf8EncodeChar_ne_nil c)
    rw [List.flatMap_cons, List.length_append, List.length_cons]
    omega

variable {values : List UInt8}

/- Bodies with the same symbols are read alike. -/
theorem ofParts_congr {codePrefix body other : List Char} (hBody : body.mapM digitOf = .ok values)
    (hOther : other.mapM digitOf = .ok values) (hLong : 8 < body.length)
    (hLong' : 8 < other.length) :
    ofParts isPublicKey codePrefix other = ofParts isPublicKey codePrefix body := by
  have hBytes := utf8_length_ge body
  have hBytes' := utf8_length_ge other
  unfold ofParts
  rw [if_neg (by omega), if_neg (by omega), hBody, hOther]

theorem partsOf_written (hStandard : tables.Standard) {front payload : List Char}
    (hWritten : Written tables (bareOf text) front payload values) :
    partsOf tables text = some (tables.lowerFront true [] front,
          tables.toLowercaseAfter (':' :: front.reverse) payload) := by
  rcases hWritten.network with ⟨network, hNetwork⟩
  have hSplit := Address.splitOnce_lower hStandard (bareOf text)
  rw [hWritten.split, Option.map_some] at hSplit
  dsimp only at hSplit
  rw [hNetwork] at hSplit
  have hLegacy : isLegacyPaycode tables text = false := by
    unfold isLegacyPaycode
    dsimp only
    rw [(Address.splitOnce_eq_some hSplit).2, (carries_legacy network _).1,
      (carries_legacy network _).2]
    rfl
  unfold partsOf
  rw [hLegacy, hWritten.unmixed, hSplit, hNetwork]
  rfl

/- A code with the same prefix and symbols is read alike. -/
theorem decode_of_written (hStandard : tables.Standard) {other : String} {code : Cashcode}
    {front payload payload' : List Char} (hDecode : decode tables isPublicKey text = .ok code)
    (hWritten : Written tables (bareOf text) front payload values)
    (hOther : Written tables (bareOf other) front payload' values) :
    decode tables isPublicKey other = .ok code := by
  have hParts := partsOf_written hStandard hWritten
  have hParts' := partsOf_written hStandard hOther
  rw [decode_eq_of_parts hParts] at hDecode
  rw [decode_eq_of_parts hParts', ← hDecode]
  have hBody := body_of_reads hWritten.reads (':' :: front.reverse)
  have hBody' := body_of_reads hOther.reads (':' :: front.reverse)
  have hLong : 8 < (tables.toLowercaseAfter (':' :: front.reverse) payload).length := by
    rw [hBody.2, hWritten.length]
    decide
  have hLong' : 8 < (tables.toLowercaseAfter (':' :: front.reverse) payload').length := by
    rw [hBody'.2, hWritten.length]
    decide
  exact ofParts_congr hBody.1 hBody'.1 hLong hLong'

end Written

--- Another Character

theorem bareOf_replaced (front : List Char) (c : Char) (back : List Char) :
    bareOf (Address.replaced front c back) =
      TrimmedText.cut Text.isWhitespace (fun x => decide (x = '?')) (front ++ c :: back) := by
  have hStop : (fun x : Char => decide (x ≠ '?')) = fun x => !decide (x = '?') := by
    funext x
    exact decide_not
  unfold bareOf TrimmedText.cut
  rw [Address.trim_toList, hStop]
  unfold Address.trimmedText Address.replaced
  rw [String.toList_ofList]

section Replaced

variable {tables : CaseTables} {isPublicKey : Vector UInt8 33 → Bool} {front back : List Char}
variable {c d : Char}

/- The prefix is what is in front of the first colon. -/
theorem exists_split (hColon : ':' ∈ front) :
    ∃ a b,
    ':' ∉ a ∧ front.dropWhile Text.isWhitespace = a ++ ':' :: b ∧
      ∀ c back front' payload,
        splitOnce ':' (bareOf (Address.replaced front c back)) = some (front', payload) →
          front' = a := by
  cases hSplit : splitOnce ':' front with
  | none => exact absurd hColon (Address.splitOnce_eq_none hSplit)
  | some parts =>
    rcases Address.splitOnce_eq_some hSplit with ⟨hFree, hText⟩
    have hBlank : Text.isWhitespace ':' = false := by decide
    have hFree' : ':' ∉ parts.1.dropWhile Text.isWhitespace := by
      intro hMem
      exact hFree ((List.dropWhile_sublist _).subset hMem)
    refine ⟨parts.1.dropWhile Text.isWhitespace, parts.2, hFree', ?_, ?_⟩
    · rw [hText, TrimmedText.dropWhile_cons hBlank]
    · intro c back front' payload hBare
      rw [bareOf_replaced, hText, List.append_assoc, List.cons_append] at hBare
      unfold TrimmedText.cut at hBare
      rw [TrimmedText.trimmed_cons hBlank, List.takeWhile_append] at hBare
      split at hBare
      · rw [List.takeWhile_cons_of_pos (by decide), splitOnce_append hFree'] at hBare
        cases hBare
        rfl
      · rw [splitOnce_of_not_mem] at hBare
        · cases hBare
        · intro hMem
          exact hFree' ((List.takeWhile_prefix _).subset hMem)

/-
  Behind its prefix, a code that is accepted stays accepted with one character replaced exactly
  where nothing of it is left of the change, or the two characters are taken for one symbol and
  the cases are not mixed.
-/
theorem replaced_iff (hStandard : tables.Standard) (hColon : ':' ∈ front) {code : Cashcode}
    (hDecode : decode tables isPublicKey (Address.replaced front c back) = .ok code) :
    (∃ other, decode tables isPublicKey (Address.replaced front d back) = .ok other) ↔
    bareOf (Address.replaced front d back) = bareOf (Address.replaced front c back) ∨
      (∃ digit, ReadsAs tables.toUnicodeTables c digit ∧ ReadsAs tables.toUnicodeTables d digit) ∧
        isMixed tables (bareOf (Address.replaced front d back)) = false := by
  rcases written_of_decode hStandard hDecode with ⟨front', payload, values, hWritten⟩
  rcases exists_split hColon with ⟨a, b, hFree, hFront, hPrefix⟩
  have hSome : front.dropWhile Text.isWhitespace ≠ [] := by
    rw [hFront]
    simp
  have hSame := hPrefix c back front' payload hWritten.split
  subst hSame
  -- what is kept of the code around the character
  have hPayload :
      ∀ x rest,
      bareOf (Address.replaced front x back) = front.dropWhile Text.isWhitespace ++ x :: rest →
        splitOnce ':' (bareOf (Address.replaced front x back)) = some (front', b ++ x :: rest) := by
    intro x rest hBare
    rw [hBare, hFront, List.append_assoc, List.cons_append, splitOnce_append hFree]
  constructor
  · rintro ⟨other, hOther⟩
    rcases written_of_decode hStandard hOther with ⟨front'', payload', values', hWritten'⟩
    have hSame := hPrefix d back front'' payload' hWritten'.split
    subst hSame
    have hLength :
        (bareOf (Address.replaced front c back)).length =
          (bareOf (Address.replaced front d back)).length := by
      rw [(Address.splitOnce_eq_some hWritten.split).2,
        (Address.splitOnce_eq_some hWritten'.split).2, List.length_append, List.length_append,
        List.length_cons, List.length_cons, hWritten.reads.length_eq, hWritten'.reads.length_eq,
        hWritten.length, hWritten'.length]
    rw [bareOf_replaced, bareOf_replaced] at hLength
    rcases TrimmedText.cut_replaced front back hSome hLength with hEq | ⟨rest, hRest⟩
    · left
      rw [bareOf_replaced, bareOf_replaced, hEq]
    · right
      have hBareC := hPayload c rest ((bareOf_replaced front c back).trans (hRest c (Or.inl rfl)))
      have hBareD := hPayload d rest ((bareOf_replaced front d back).trans (hRest d (Or.inr rfl)))
      rw [hWritten.split] at hBareC
      rw [hWritten'.split] at hBareD
      cases hBareC
      cases hBareD
      exact ⟨replaced_symbol readsAs_unique hWritten.reads hWritten'.reads hWritten.accepts
          hWritten'.accepts, hWritten'.unmixed⟩
  · intro hEither
    have hCases :
        bareOf (Address.replaced front d back) = bareOf (Address.replaced front c back) ∨
        ∃ rest digit,
          (∀ x,
                x = c ∨ x = d → bareOf (Address.replaced front x back) =
                    front.dropWhile Text.isWhitespace ++ x :: rest) ∧
            ReadsAs tables.toUnicodeTables c digit ∧
            ReadsAs tables.toUnicodeTables d digit ∧
            isMixed tables (bareOf (Address.replaced front d back)) = false := by
      rcases hEither with hEq | ⟨⟨digit, hC, hD⟩, hUnmixed⟩
      · exact Or.inl hEq
      · have hPlainC := plain_of_readsAs hStandard hC
        have hPlainD := plain_of_readsAs hStandard hD
        have hLength :=
          @TrimmedText.length_cut_plain Char Text.isWhitespace (fun x => decide (x = '?')) front
            back c d hPlainC.1 hPlainD.1 (decide_eq_false hPlainC.2) (decide_eq_false hPlainD.2)
        rcases TrimmedText.cut_replaced front back hSome hLength with hEq | ⟨rest, hRest⟩
        · left
          rw [bareOf_replaced, bareOf_replaced, hEq]
        · right
          refine ⟨rest, digit, ?_, hC, hD, hUnmixed⟩
          intro x hX
          rw [bareOf_replaced, hRest x hX]
    rcases hCases with hEq | ⟨rest, digit, hBare, hC, hD, hUnmixed⟩
    · have hOther := hWritten
      rw [← hEq] at hOther
      exact ⟨code, decode_of_written hStandard hDecode hWritten hOther⟩
    · have hBareC := hPayload c rest (hBare c (Or.inl rfl))
      have hBareD := hPayload d rest (hBare d (Or.inr rfl))
      rw [hWritten.split] at hBareC
      cases hBareC
      refine ⟨code,
        decode_of_written hStandard hDecode hWritten
          ⟨hBareD, ?_, hWritten.length, hWritten.network, hWritten.accepts, hUnmixed⟩⟩
      apply reads_replaced hWritten.reads
      intro other hOther
      rw [readsAs_unique hOther hC]
      exact hD

end Replaced

/-
  What is written as the body of a code that is accepted is of the alphabet, exactly where it is
  in ASCII.
-/
theorem written_symbols_iff {tables : CaseTables} (hStandard : tables.Standard)
    {isPublicKey : Vector UInt8 33 → Bool} {text : String} {code : Cashcode}
    (hDecode : decode tables isPublicKey text = .ok code) :
    (∀ c ∈ Address.payloadText (bareOf text), Address.IsSymbol c) ↔
    ∀ c ∈ Address.payloadText (bareOf text), c.toNat < 128 := by
  rcases written_of_decode hStandard hDecode with ⟨front, payload, values, hWritten⟩
  have hPayload : Address.payloadText (bareOf text) = payload := by
    unfold Address.payloadText
    rw [hWritten.split]
  rw [hPayload]
  constructor
  · intro hSymbols c hMem
    exact Address.isSymbol_ascii (hSymbols c hMem)
  · intro hAscii c hMem
    rcases exists_of_forall₂ hWritten.reads hMem with ⟨digit, hReads⟩
    exact isSymbol_of_readsAs hReads (hAscii c hMem)

--- Both Decoders

/- White space has no case. -/
theorem space_lower (hStandard : tables.Standard) {c : Char} (hSpace : Text.isWhitespace c = true) :
    tables.charToLowercase c = [c] := by
  unfold charToLowercase
  split
  · rename_i hAscii
    have hAll :
        ∀ code < 128,
        Text.isWhitespace (Char.ofNat code) = true →
          (Char.ofNat code).toLower = Char.ofNat code := by
      decide +kernel
    have hHere := hAll c.toNat hAscii
    rw [Char.ofNat_toNat] at hHere
    rw [hHere hSpace]
  · rename_i hHigh
    exact hStandard.space c (by omega) hSpace

/-
  A replaced character of an address is rejected but for white space that is trimmed, and its
  payload is of the alphabet but for the Kelvin sign.  One of a cash code is rejected but where
  nothing of the change is left or the two characters have the lowest byte of one symbol, and its
  body is of the alphabet where it is in ASCII.
-/
theorem replaced_characters {tables : CaseTables} (hStandard : tables.Standard)
    (isPublicKey : Vector UInt8 33 → Bool) :
    (∀ front c d back address,
        Address.BehindPrefix front c back →
          Address.decode tables.toUnicodeTables (Address.replaced front c back) = .ok address →
          ((tables.charToLowercase c ≠ tables.charToLowercase d → ∀ other,
                Address.decode tables.toUnicodeTables (Address.replaced front d back) ≠ .ok other) ↔
            ¬ (c ≠ d ∧ Text.isWhitespace c = true ∧ Text.isWhitespace d = true))) ∧
    (∀ input address,
        Address.decode tables.toUnicodeTables input = .ok address →
          ((∀ c ∈ Address.payloadText (Address.trimmedText input), Address.IsSymbol c) ↔
            kelvinSign ∉ Address.payloadText (Address.trimmedText input))) ∧
    (∀ front c d back code,
        ':' ∈ front → decode tables isPublicKey (Address.replaced front c back) = .ok code →
          ((tables.charToLowercase c ≠ tables.charToLowercase d → ∀ other,
                decode tables isPublicKey (Address.replaced front d back) ≠ .ok other) ↔
            (tables.charToLowercase c = tables.charToLowercase d ∨
              bareOf (Address.replaced front d back) ≠ bareOf (Address.replaced front c back) ∧
                ((∃ digit,
                      ReadsAs tables.toUnicodeTables c digit ∧
                        ReadsAs tables.toUnicodeTables d digit) →
                  isMixed tables (bareOf (Address.replaced front d back)) = true)))) ∧
    ∀ text code,
      decode tables isPublicKey text = .ok code →
        ((∀ c ∈ Address.payloadText (bareOf text), Address.IsSymbol c) ↔
            ∀ c ∈ Address.payloadText (bareOf text), c.toNat < 128) := by
  refine ⟨?_, ?_, ?_, ?_⟩
  · intro front c d back address hBehind hDecode
    have hReplaced :=
      @Address.replaced_iff tables.toUnicodeTables front back c d hStandard hBehind address hDecode
    rw [← not_exists, hReplaced]
    constructor
    · rintro hRejected ⟨hNe, hC, hD⟩
      refine hRejected ?_ (Or.inl ⟨hC, hD⟩)
      rw [space_lower hStandard hC, space_lower hStandard hD]
      intro hSame
      exact hNe (List.cons.inj hSame).1
    · rintro hNever hLower (⟨hC, hD⟩ | ⟨-, -, hSame⟩)
      · apply hNever ⟨?_, hC, hD⟩
        rintro rfl
        exact hLower rfl
      · exact hLower hSame
  · intro input address hDecode
    exact Address.written_symbols_iff hStandard hDecode
  · intro front c d back code hColon hDecode
    have hReplaced := @replaced_iff tables isPublicKey front back c d hStandard hColon code hDecode
    rw [← not_exists, hReplaced, not_or, not_and, Bool.not_eq_false]
    constructor
    · intro hRejected
      by_cases hLower : tables.charToLowercase c = tables.charToLowercase d
      · exact Or.inl hLower
      · exact Or.inr (hRejected hLower)
    · rintro (hSame | hVisible) hLower
      · exact absurd hSame hLower
      · exact hVisible
  · intro text code hDecode
    exact written_symbols_iff hStandard hDecode

/- Tables of letters in ASCII, and of characters that have a lower case in it. -/
def sampleTables : CaseTables :=
  { lowercase := fun c =>
      if c = kelvinSign then ['k']
      else if c = dottedCapitalI then ['i', Char.ofNat 0x307]
      else [c]
    cased := fun c => c.isAlpha
    caseIgnorable := fun c => decide (c = ':')
    uppercase := fun c => [c] }

theorem sampleTables_standard : sampleTables.Standard where
  single := by
    intro c _ hDotted
    unfold sampleTables
    dsimp only
    rw [if_neg hDotted]
    split
    · exact ⟨_, rfl⟩
    · exact ⟨_, rfl⟩
  dotted := by decide
  ascii := by
    intro c x hHigh hLower hAscii
    by_contra hKelvin
    unfold sampleTables at hLower
    dsimp only at hLower
    rw [if_neg hKelvin] at hLower
    split at hLower
    · exact absurd (congrArg List.length hLower) (by simp)
    · rw [(List.cons.inj hLower).1] at hHigh
      omega
  kelvin := by decide
  space := by
    intro c _ hSpace
    unfold sampleTables
    dsimp only
    rw [if_neg, if_neg]
    · rintro rfl
      exact absurd hSpace (by decide)
    · rintro rfl
      exact absurd hSpace (by decide)
  cased := forall_of_all (by decide)

/- A code, without the first character of its body. -/
def codeFront : List Char :=
  "cashcode:".toList

def codeBack : List Char :=
  "qq3qqnehen8a7wuhwk9tgrzjh8gwzc8q2dlekedec5djk0js9d3d7q".toList ++
    "hnqpvvprlj3q76ltdxpz5qm54cp7dshrh3e9cemeu5746czdet3cfa".toList ++ "egqqqqqq2cdan7fk".toList

theorem code_accepted :
    ∃ code,
    decode sampleTables (fun _ => true) (Address.replaced codeFront 'q' codeBack) = .ok code ∧
      code.codePrefix = "cashcode" :=
  exists_ok_of_check (by decide +kernel)

theorem replaced_characters_code :
    ∃ code,
    decode sampleTables (fun _ => true) (Address.replaced codeFront 'q' codeBack) = .ok code ∧
      ((∀ c ∈ Address.payloadText (bareOf (Address.replaced codeFront 'q' codeBack)),
              Address.IsSymbol c) ↔
          ∀ c ∈ Address.payloadText (bareOf (Address.replaced codeFront 'q' codeBack)),
        c.toNat < 128) := by
  rcases code_accepted with ⟨code, hDecode, -⟩
  have hBoth := replaced_characters sampleTables_standard (fun _ => true)
  exact ⟨code, hDecode, hBoth.2.2.2 _ code hDecode⟩

/- A character of three bytes in place of the first symbol. -/
theorem aliased_character_accepted :
    ¬ ∀ (tables : CaseTables) (isPublicKey : Vector UInt8 33 → Bool) (front : List Char)
      (c d : Char) (back : List Char) (code other : Cashcode), tables.Standard → ':' ∈ front →
      decode tables isPublicKey (Address.replaced front c back) = .ok code → tables.charToLowercase
      c ≠ tables.charToLowercase d → decode tables isPublicKey (Address.replaced front d back) ≠ .ok
      other := by
  intro hRejected
  have hAliased :
      ∃ other,
        decode sampleTables (fun _ => true)
              (Address.replaced codeFront (Char.ofNat 0x4e71) codeBack) =
            .ok other ∧
          other.codePrefix = "cashcode" :=
    exists_ok_of_check (by decide +kernel)
  rcases code_accepted with ⟨code, hDecode, -⟩
  rcases hAliased with ⟨other, hOther, -⟩
  exact hRejected sampleTables (fun _ => true) codeFront 'q' (Char.ofNat 0x4e71) codeBack code other
      sampleTables_standard (by decide) hDecode (by decide)
      hOther

end Rpa

end OptnWallet
