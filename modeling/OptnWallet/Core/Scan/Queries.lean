import OptnWallet.Core.Scan.Boundaries

/-
  What panics in a scanned payload: a percent sign in a query, where the two bytes behind it end
  inside a character.

  Main declarations:
    * `Scan.Torn` and `Scan.decodeQueryComponent_returns_iff`
    * `Scan.TornQuery` and `Scan.queryValue_returns_iff`
    * `Scan.ReadAsAddress` and `Scan.classifyScannedPayload_returns_iff`
-/

namespace OptnWallet.Scan

open StagedUpdate

--- Percent Signs

/- A percent sign where two bytes behind it end inside a character: the next one has more than two,
   or it has one and another one of more than one follows. -/
def Torn (value : List Char) : Prop :=
  ∃ front c rest,
    value = front ++ '%' :: c :: rest ∧
      (3 ≤ c.utf8Size ∨ c.utf8Size = 1 ∧ ∃ d tail, rest = d :: tail ∧ 2 ≤ d.utf8Size)

/- The same by its byte. -/
structure CutAt (value : List Char) (index : Nat) : Prop where
  percent : (Utf8.encode value)[index]? = some 0x25
  followed : index + 2 < Utf8.size value
  inside : Utf8.isBoundary (index + 3) value = false

theorem cutAt_iff (front back : List Char) :
    CutAt (front ++ '%' :: back) (Utf8.size front) ↔
    2 ≤ Utf8.size back ∧ Utf8.isBoundary 2 back = false := by
  have hSign : (String.utf8EncodeChar '%').length = 1 := rfl
  have hByte : (Utf8.encode (front ++ '%' :: back))[Utf8.size front]? = some 0x25 :=
    Utf8.encode_getElem? front ('%' :: back) 0
  have hSize : Utf8.size (front ++ '%' :: back) = Utf8.size front + 1 + Utf8.size back := by
    rw [Utf8.size_append, Utf8.size_cons, hSign, Nat.add_assoc]
  have hBoundary :
      Utf8.isBoundary (Utf8.size front + 3) (front ++ '%' :: back) = Utf8.isBoundary 2 back := by
    rw [Utf8.isBoundary_append, Utf8.isBoundary_cons, hSign]
    rfl
  constructor
  · rintro ⟨-, hFollowed, hInside⟩
    rw [hSize] at hFollowed
    rw [hBoundary] at hInside
    exact ⟨by omega, hInside⟩
  · rintro ⟨hLong, hInside⟩
    rw [← hBoundary] at hInside
    refine ⟨hByte, ?_, hInside⟩
    rw [hSize]
    omega

/- The sizes of the next two characters decide. -/
theorem inside_iff (c : Char) (rest : List Char) :
    2 ≤ Utf8.size (c :: rest) ∧ Utf8.isBoundary 2 (c :: rest) = false ↔
    3 ≤ c.utf8Size ∨ c.utf8Size = 1 ∧ ∃ d tail, rest = d :: tail ∧ 2 ≤ d.utf8Size := by
  have hPos := Char.utf8Size_pos c
  rw [Utf8.isBoundary_cons, Utf8.size_cons, String.length_utf8EncodeChar]
  rcases (by omega :
      c.utf8Size = 1 ∨ c.utf8Size = 2 ∨ 3 ≤ c.utf8Size) with
    hOne | hTwo | hWide
  · rw [hOne]
    cases rest with
    | nil => simp
    | cons d tail =>
      have hPosNext := Char.utf8Size_pos d
      rw [Utf8.isBoundary_cons, Utf8.size_cons, String.length_utf8EncodeChar]
      rcases (by omega : d.utf8Size = 1 ∨ 2 ≤ d.utf8Size) with
        hNext | hNext
      · simp [hNext, Utf8.isBoundary, Utf8.splitBytes]
      · have hLong : ¬ d.utf8Size ≤ 1 := by omega
        simp [hLong, hNext]
        omega
  · simp [hTwo, Utf8.isBoundary, Utf8.splitBytes]
  · have hLong : ¬ c.utf8Size ≤ 2 := by omega
    simp [hLong, hWide]
    omega

theorem torn_iff (value : List Char) : Torn value ↔ ∃ index, CutAt value index := by
  constructor
  · rintro ⟨front, c, rest, rfl, hBehind⟩
    exact ⟨Utf8.size front, (cutAt_iff front (c :: rest)).mpr ((inside_iff c rest).mpr hBehind)⟩
  · rintro ⟨index, hCut⟩
    rcases Utf8.char_of_ascii hCut.percent (by decide) with ⟨front, back, rfl, rfl⟩
    have hInside := (cutAt_iff front back).mp hCut
    cases back with
    | nil =>
      rw [Utf8.size_nil] at hInside
      omega
    | cons c rest => exact ⟨front, c, rest, rfl, (inside_iff c rest).mp hInside⟩

variable {text : List Char}

/- A percent sign is a byte of text only where it is a character. -/
theorem percent_mem (hMem : (0x25 : UInt8) ∈ Utf8.encode text) : '%' ∈ text := by
  rcases List.mem_iff_getElem?.mp hMem with ⟨n, hByte⟩
  rcases Utf8.char_of_ascii hByte (by decide) with ⟨front, back, rfl, -⟩
  exact List.mem_append_right _ List.mem_cons_self

/- By induction over the text. -/
theorem mapM_hexDigitValue_percent (hMem : '%' ∈ text) : text.mapM hexDigitValue = none := by
  induction text with
  | nil => cases hMem
  | cons c text ih =>
    rw [List.mapM_cons]
    rcases List.mem_cons.mp hMem with rfl | hRest
    · rfl
    · rw [ih hRest]
      cases hexDigitValue c with
      | none => rfl
      | some value => rfl

/- Digits, and a plus sign in front of them. -/
theorem percent_not_mem_hex {byte : UInt8} (hHex : byteFromHex text = some byte) : '%' ∉ text := by
  intro hMem
  have hDigits : '%' ∈ (text.dropPrefix? ['+']).getD text := by
    cases hDrop : text.dropPrefix? ['+'] with
    | none => exact hMem
    | some rest =>
      rcases List.dropPrefix?_eq_some_iff.mp hDrop with ⟨plus, rfl, hPlus⟩
      rw [eq_of_beq hPlus] at hMem
      rcases List.mem_append.mp hMem with hHead | hRest
      · exact absurd hHead (by decide)
      · exact hRest
  unfold byteFromHex at hHex
  dsimp only at hHex
  rw [mapM_hexDigitValue_percent hDigits] at hHex
  cases hHex

variable {value : List Char}

/- No byte that is sliced out as a digit is a percent sign. -/
theorem not_percent_of_hex {hex : List Char} {index i : Nat} {byte : UInt8}
    (hSlice : Utf8.slice (index + 1) (index + 3) value = some hex)
    (hHex : byteFromHex hex = some byte) (hLt : index < i) (hInside : i < index + 3) :
    (Utf8.encode value)[i]? ≠ some 0x25 := by
  intro hPercent
  rcases Utf8.slice_eq_some_iff.mp hSlice with ⟨front, back, rfl, hFront, hSize⟩
  have hPlace : i = Utf8.size front + (i - (index + 1)) := by omega
  have hShort : i - (index + 1) < (Utf8.encode hex).length := by
    change i - (index + 1) < Utf8.size hex
    omega
  rw [hPlace, List.append_assoc, Utf8.encode_getElem?, Utf8.encode_append,
    List.getElem?_append_left hShort] at hPercent
  exact percent_not_mem_hex hHex (percent_mem (List.mem_of_getElem? hPercent))

/- By induction over the fuel.  Bytes that are skipped as digits are no percent signs. -/
theorem decodeLoop_returns_iff {fuel index : Nat} (hFuel : Utf8.size value ≤ index + fuel)
    (out : List UInt8) :
    Returns (decodeLoop value fuel index out) ↔ ∀ i, index ≤ i → ¬ CutAt value i := by
  induction fuel generalizing index out with
  | zero =>
    refine ⟨fun _ => ?_, fun _ => returns_ok out⟩
    intro i hLe hCut
    have hFollowed := hCut.followed
    omega
  | succ fuel ih =>
    have hSkip :
        ∀ count,
        (∀ i, index ≤ i → i < index + count → ¬ CutAt value i) →
          ((∀ i, index + count ≤ i → ¬ CutAt value i) ↔ ∀ i, index ≤ i → ¬ CutAt value i) := by
      intro count hFront
      constructor
      · intro hBack i hLe
        rcases Nat.lt_or_ge i (index + count) with hLt | hGe
        · exact hFront i hLe hLt
        · exact hBack i hGe
      · intro hAll i hLe
        exact hAll i (by omega)
    unfold decodeLoop
    cases hByte : (Utf8.encode value)[index]? with
    | none =>
      have hEnd := List.getElem?_eq_none_iff.mp hByte
      refine ⟨fun _ => ?_, fun _ => returns_ok out⟩
      intro i hLe hCut
      have hFollowed := hCut.followed
      unfold Utf8.size at hFollowed
      omega
    | some byte =>
      have hOne : ¬ CutAt value index → ∀ i, index ≤ i → i < index + 1 → ¬ CutAt value i := by
        intro hHere i hLe hLt
        rw [(by omega : i = index)]
        exact hHere
      dsimp only
      split
      · rename_i hPlus
        rw [ih (by omega), hSkip 1]
        apply hOne
        intro hCut
        have hPercent := hCut.percent
        rw [hByte, hPlus] at hPercent
        cases hPercent
      · split
        · rename_i hPercent
          have hStart : Utf8.isBoundary (index + 1) value = true := by
            refine (Utf8.boundary_of_ascii hByte ?_).2
            rw [hPercent.1]
            decide
          have hSome := Utf8.isSome_slice hStart (by omega : index + 1 ≤ index + 3)
          cases hSlice : Utf8.slice (index + 1) (index + 3) value with
          | none =>
            rw [hSlice] at hSome
            constructor
            · intro hReturns
              exact absurd hReturns (returns_error _)
            · intro hNone
              exfalso
              apply hNone index (le_refl _)
              refine ⟨?_, hPercent.2, hSome.symm⟩
              rw [hByte, hPercent.1]
          | some hex =>
            rw [hSlice] at hSome
            have hHere : ¬ CutAt value index := by
              intro hCut
              rw [hCut.inside] at hSome
              cases hSome
            rw [bind_of_ok (orPanic_of_some rfl)]
            cases hHex : byteFromHex hex with
            | none =>
              dsimp only
              rw [ih (by omega), hSkip 1 (hOne hHere)]
            | some decoded =>
              dsimp only
              rw [ih (by omega), hSkip 3]
              intro i hLe hLt hCut
              rcases Nat.eq_or_lt_of_le hLe with rfl | hBehind
              · exact hHere hCut
              · exact not_percent_of_hex hSlice hHex hBehind hLt hCut.percent
        · rename_i hOther
          rw [ih (by omega), hSkip 1]
          apply hOne
          intro hCut
          apply hOther
          have hPercent := hCut.percent
          rw [hByte] at hPercent
          cases hPercent
          exact ⟨rfl, hCut.followed⟩

/-
  A component is decoded without a panic exactly where no percent sign is torn from what follows
  it.
-/
theorem decodeQueryComponent_returns_iff (value : List Char) :
    Returns (decodeQueryComponent value) ↔ ¬ Torn value := by
  have hLoop := decodeLoop_returns_iff (by omega : Utf8.size value ≤ 0 + Utf8.size value) []
  rw [torn_iff, not_exists]
  unfold decodeQueryComponent
  rw [returns_bind_iff]
  constructor
  · rintro ⟨out, hOut, -⟩ i
    exact hLoop.mp ⟨out, hOut⟩ i (Nat.zero_le i)
  · intro hNone
    rcases hLoop.mpr (fun i _ => hNone i) with ⟨out, hOut⟩
    exact ⟨out, hOut, returns_ok _⟩

--- Keys And Values

/- A pair of that key with a value that is not blank, behind which nothing is decoded. -/
def Answers (key : String) (pair : List Char) : Prop :=
  ∃ name value text,
    Cashaddr.splitOnce '=' pair = some (name, value) ∧ decodeQueryComponent name = .ok key.toList ∧
      decodeQueryComponent value = .ok text ∧
      isBlank text = false

/- The name of a pair is always decoded, and its value where the name is the key. -/
def TornPair (key : String) (pair : List Char) : Prop :=
  ∃ name value,
    Cashaddr.splitOnce '=' pair = some (name, value) ∧
      (Torn name ∨ decodeQueryComponent name = .ok key.toList ∧ Torn value)

/- A pair that is torn, before any that answers. -/
def TornBefore (key : String) (pairs : List (List Char)) : Prop :=
  ∃ before pair after,
    pairs = before ++ pair :: after ∧ (∀ other ∈ before, ¬ Answers key other) ∧ TornPair key pair

theorem tornBefore_cons_iff (key : String) (pair : List Char) (pairs : List (List Char)) :
    TornBefore key (pair :: pairs) ↔
    TornPair key pair ∨ ¬ Answers key pair ∧ TornBefore key pairs := by
  constructor
  · rintro ⟨before, torn, after, hPairs, hBefore, hTorn⟩
    cases before with
    | nil =>
      cases hPairs
      exact Or.inl hTorn
    | cons first before =>
      cases hPairs
      rw [List.forall_mem_cons] at hBefore
      exact Or.inr ⟨hBefore.1, before, torn, after, rfl, hBefore.2, hTorn⟩
  · rintro (hTorn | ⟨hHere, before, torn, after, rfl, hRest⟩)
    · exact ⟨[], pair, pairs, rfl, by simp, hTorn⟩
    · refine ⟨pair :: before, torn, after, rfl, ?_, hRest.2⟩
      rw [List.forall_mem_cons]
      exact ⟨hHere, hRest.1⟩

/- A pair without an equals sign is passed over. -/
theorem passed_over {key : String} {pair : List Char}
    (hSplit : Cashaddr.splitOnce '=' pair = none) : ¬ TornPair key pair ∧ ¬ Answers key pair := by
  constructor
  · rintro ⟨name, value, hSome, -⟩
    rw [hSplit] at hSome
    cases hSome
  · rintro ⟨name, value, text, hSome, -⟩
    rw [hSplit] at hSome
    cases hSome

theorem tornPair_iff {key : String} {pair name : List Char}
    (hSplit : Cashaddr.splitOnce '=' pair = some (name, value)) :
    TornPair key pair ↔ Torn name ∨ decodeQueryComponent name = .ok key.toList ∧ Torn value := by
  unfold TornPair
  rw [hSplit]
  simp

theorem answers_iff {key : String} {pair name : List Char}
    (hSplit : Cashaddr.splitOnce '=' pair = some (name, value)) :
    Answers key pair ↔
    ∃ text,
      decodeQueryComponent name = .ok key.toList ∧ decodeQueryComponent value = .ok text ∧
        isBlank text = false := by
  unfold Answers
  rw [hSplit]
  simp

/- A component that is torn ends what comes after it. -/
theorem not_returns_of_torn (hTorn : Torn value) {α : Type} (next : List Char → Scanning α) :
    ¬ Returns (decodeQueryComponent value >>= next) := by
  intro hReturns
  rcases returns_bind_iff.mp hReturns with ⟨text, hText, -⟩
  exact (decodeQueryComponent_returns_iff value).mp ⟨text, hText⟩ hTorn

/- By induction over the pairs. -/
theorem valueOf_returns_iff (key : String) (pairs : List (List Char)) :
    Returns (valueOf key pairs) ↔ ¬ TornBefore key pairs := by
  induction pairs with
  | nil =>
    refine ⟨fun _ => ?_, fun _ => returns_ok none⟩
    rintro ⟨before, pair, after, hPairs, -⟩
    exact absurd hPairs.symm (List.append_ne_nil_of_right_ne_nil _ (List.cons_ne_nil _ _))
  | cons pair pairs ih =>
    rw [tornBefore_cons_iff]
    unfold valueOf
    cases hSplit : Cashaddr.splitOnce '=' pair with
    | none =>
      have hPassed := @passed_over key pair hSplit
      dsimp only
      rw [ih]
      simp [hPassed]
    | some parts =>
      rcases parts with ⟨name, value⟩
      dsimp only
      rw [tornPair_iff hSplit, answers_iff hSplit]
      by_cases hName : Torn name
      · refine iff_of_false (not_returns_of_torn hName _) ?_
        exact not_not.mpr (Or.inl (Or.inl hName))
      rcases (decodeQueryComponent_returns_iff name).mpr hName with ⟨decoded, hDecoded⟩
      rw [returns_bind_iff_of_ok hDecoded, hDecoded]
      by_cases hKey : decoded = key.toList
      · rw [if_pos hKey, hKey]
        by_cases hValue : Torn value
        · refine iff_of_false (not_returns_of_torn hValue _) ?_
          exact not_not.mpr (Or.inl (Or.inr ⟨rfl, hValue⟩))
        rcases (decodeQueryComponent_returns_iff value).mpr hValue with ⟨text, hText⟩
        rw [returns_bind_iff_of_ok hText, hText]
        cases hBlank : isBlank text with
        | true =>
          rw [if_pos rfl, ih]
          simp [hName, hValue, hBlank]
        | false =>
          rw [if_neg (by decide)]
          simp [hName, hValue, hBlank, returns_ok]
      · have hOther : (Except.ok decoded : Scanning (List Char)) ≠ .ok key.toList := by
          intro hEq
          exact hKey (Except.ok.inj hEq)
        rw [if_neg hKey, ih]
        simp [hName, hOther]

theorem queryValue_returns_iff (query : List Char) (key : String) :
    Returns (queryValue query key) ↔ ¬ TornBefore key (query.splitOn '&') :=
  valueOf_returns_iff key _

theorem amountRaw_returns_iff (query : List Char) :
    Returns (amountRaw query) ↔ ¬ TornBefore "amount" (query.splitOn '&') := by
  rw [← queryValue_returns_iff]
  unfold amountRaw
  rw [returns_bind_iff]
  constructor
  · rintro ⟨raw, hRaw, -⟩
    exact ⟨raw, hRaw⟩
  · rintro ⟨raw, hRaw⟩
    refine ⟨raw, hRaw, ?_⟩
    cases raw with
    | none => exact returns_ok none
    | some raw =>
      dsimp only
      split
      · exact returns_ok _
      · exact returns_ok _

--- Classification

/- One of the three keys that are looked for is behind a pair that is torn, or in one. -/
def TornQuery (query : List Char) : Prop :=
  ∃ key ∈ ["label", "message", "amount"], TornBefore key (query.splitOn '&')

/- An address that is neither empty nor declared to be of the other network. -/
structure Payable (tables : UnicodeTables) (network : Network) (addressPart : List Char) :
    Prop where
  nonempty : (splitDeclared tables addressPart).2 ≠ []
  declared : (splitDeclared tables addressPart).1 ≠ some (opposite network).addressPrefix.toList

variable (sha256 : List UInt8 → Vector UInt8 32)

theorem classifyAddress_returns_iff (tables : UnicodeTables) (scanned : List Char)
    (network : Network) :
    Returns (classifyAddress sha256 tables scanned network) ↔
    ¬ (Payable tables network (splitQuery scanned).1 ∧ TornQuery (splitQuery scanned).2) := by
  unfold classifyAddress
  dsimp only
  generalize splitQuery scanned = parts
  by_cases hEmpty : (splitDeclared tables parts.1).2 = []
  · rw [if_pos hEmpty]
    refine ⟨fun _ => ?_, fun _ => returns_ok _⟩
    rintro ⟨hPayable, -⟩
    exact hPayable.nonempty hEmpty
  rw [if_neg hEmpty]
  by_cases hOther : (splitDeclared tables parts.1).1 = some (opposite network).addressPrefix.toList
  · rw [if_pos hOther]
    refine ⟨fun _ => ?_, fun _ => returns_ok _⟩
    rintro ⟨hPayable, -⟩
    exact hPayable.declared hOther
  rw [if_neg hOther]
  have hPayable : Payable tables network parts.1 := ⟨hEmpty, hOther⟩
  have hTorn :
      ¬ (Payable tables network parts.1 ∧ TornQuery parts.2) ↔
      Returns (queryValue parts.2 "label") ∧ Returns (queryValue parts.2 "message") ∧
        Returns (amountRaw parts.2) := by
    rw [queryValue_returns_iff, queryValue_returns_iff, amountRaw_returns_iff]
    unfold TornQuery
    simp [hPayable]
  rw [hTorn, returns_bind_iff]
  constructor
  · rintro ⟨label, hLabel, hReturns⟩
    rcases returns_bind_iff.mp hReturns with ⟨message, hMessage, hReturns⟩
    rcases returns_bind_iff.mp hReturns with ⟨amount, hAmount, -⟩
    exact ⟨⟨label, hLabel⟩, ⟨message, hMessage⟩, amount, hAmount⟩
  · rintro ⟨⟨label, hLabel⟩, ⟨message, hMessage⟩, amount, hAmount⟩
    refine ⟨label, hLabel, ?_⟩
    rw [returns_bind_iff_of_ok hMessage, returns_bind_iff_of_ok hAmount]
    apply returns_bind (isLegacyAddress_returns sha256 _)
    intro legacy _
    split
    · exact legacyPayload_returns sha256 _ _ _ _ _ _
    · exact cashaddrPayload_returns tables _ _ _ _ _ _

/- What is neither empty, nor a connection or a proposal, nor a key, and so is read as an address.
   -/
structure ReadAsAddress (scanned : String) : Prop where
  nonempty : scanned.toList ≠ []
  cashconnect : isCashconnectUri scanned = .ok false
  walletconnect : isWalletconnectUri scanned = .ok false
  wizardconnect : isWizardconnectUri scanned = .ok false
  proposal : isMerchantProposal scanned = .ok false
  keyless :
    ∃ candidates, wifCandidates scanned = .ok candidates ∧ findKey sha256 candidates = .ok none

theorem returns_check_iff {α : Type} {check : Scanning Bool} (hCheck : Returns check) {answer : α}
    {next : Scanning α} :
    Returns
        (check >>= fun found =>
          if found = true then .ok answer else next) ↔
      (check = .ok false → Returns next) := by
  rcases hCheck with ⟨found, hFound⟩
  rw [returns_bind_iff_of_ok hFound, hFound]
  cases found with
  | true => simp [returns_ok]
  | false => simp

/-
  A payload is classified without a panic exactly where it is not read as an address to pay with a
  torn query.
-/
theorem classifyScannedPayload_returns_iff (tables : UnicodeTables) (input : String)
    (network : Network) :
    Returns (classifyScannedPayload sha256 tables input network) ↔
    ¬ (ReadAsAddress sha256 (Text.trim input) ∧
        Payable tables network (splitQuery (Text.trim input).toList).1 ∧
        TornQuery (splitQuery (Text.trim input).toList).2) := by
  have hAddress := classifyAddress_returns_iff sha256 tables (Text.trim input).toList network
  unfold classifyScannedPayload
  dsimp only
  generalize Text.trim input = scanned at hAddress ⊢
  by_cases hEmpty : scanned.toList = []
  · rw [if_pos hEmpty]
    refine ⟨fun _ => ?_, fun _ => returns_ok _⟩
    rintro ⟨hRead, -⟩
    exact hRead.nonempty hEmpty
  have hCash : Returns (isCashconnectUri scanned) := hasScheme_returns scanned _
  have hConnect : Returns (isWalletconnectUri scanned) := hasScheme_returns scanned _
  have hWizard : Returns (isWizardconnectUri scanned) := hasScheme_returns scanned _
  rw [if_neg hEmpty, returns_check_iff hCash, returns_check_iff hConnect, returns_check_iff hWizard,
    returns_check_iff (isMerchantProposal_returns scanned)]
  rcases wifCandidates_returns scanned with ⟨candidates, hCandidates⟩
  rcases findKey_returns sha256 candidates with ⟨key, hKey⟩
  rw [returns_bind_iff_of_ok hCandidates, returns_bind_iff_of_ok hKey]
  constructor
  · rintro hReturns ⟨hRead, hTorn⟩
    rcases hRead.keyless with ⟨others, hOthers, hNone⟩
    rw [hCandidates] at hOthers
    cases hOthers
    rw [hKey] at hNone
    cases hNone
    have hHere := hReturns hRead.cashconnect hRead.walletconnect hRead.wizardconnect hRead.proposal
    exact hAddress.mp hHere hTorn
  · intro hNone hNoCash hNoConnect hNoWizard hProposal
    cases key with
    | some key => exact returns_ok _
    | none =>
      apply hAddress.mpr
      intro hTorn
      apply hNone
      exact
        ⟨⟨hEmpty, hNoCash, hNoConnect, hNoWizard, hProposal, candidates, hCandidates, hKey⟩, hTorn⟩

end OptnWallet.Scan
