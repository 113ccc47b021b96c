import OptnWallet.Core.Cashaddr.Detection
import OptnWallet.Core.Scan

/-
  Where a payload is cut.  Schemes, prefixes and candidates for keys are cut between characters,
  and no index of a decoded key is out of range.

  Main declarations:
    * `Scan.hasScheme_returns`
    * `Scan.wifCandidates_returns`
    * `Scan.findKey_returns`
-/

namespace OptnWallet.Scan

open StagedUpdate

--- Schemes

theorem orPanic_returns_iff {ε α : Type} {value : Option α} :
    Returns (orPanic value : Except (Fault ε) α) ↔ value.isSome = true := by
  cases value with
  | none =>
    constructor
    · intro hReturns
      exact absurd hReturns (returns_error _)
    · intro hSome
      cases hSome
  | some value => exact ⟨fun _ => rfl, fun _ => returns_ok value⟩

theorem orPanic_of_some {ε α : Type} {value : Option α} {a : α} (hSome : value = some a) :
    (orPanic value : Except (Fault ε) α) = .ok a := by
  rw [hSome]
  rfl

theorem sliceTo_returns {finish : Nat} {text : List Char}
    (hBoundary : Utf8.isBoundary finish text = true) :
    Returns (orPanic (Utf8.sliceTo finish text) : Scanning (List Char)) := by
  rw [orPanic_returns_iff, Utf8.isSome_sliceTo]
  exact hBoundary

theorem sliceFrom_returns {start : Nat} {text : List Char}
    (hBoundary : Utf8.isBoundary start text = true) :
    Returns (orPanic (Utf8.sliceFrom start text) : Scanning (List Char)) := by
  rw [orPanic_returns_iff, Utf8.isSome_sliceFrom]
  exact hBoundary

theorem hasScheme_returns (value scheme : String) : Returns (hasScheme value scheme) := by
  unfold hasScheme
  dsimp only
  split
  · rename_i hLong
    apply returns_bind (sliceTo_returns hLong.2)
    intro head _
    split
    · apply returns_bind (sliceFrom_returns hLong.2)
      intro rest _
      exact returns_ok _
    · exact returns_ok _
  · exact returns_ok _

/- The slice behind the prefix is cut where the prefix is found. -/
theorem isMerchantProposal_returns (value : String) : Returns (isMerchantProposal value) := by
  unfold isMerchantProposal
  dsimp only
  split
  · exact returns_ok _
  · rename_i head hHead
    have hCut := (Option.filter_eq_some_iff.mp hHead).1
    apply returns_bind
    · apply sliceFrom_returns
      rw [← Utf8.isSome_sliceTo, hCut]
      rfl
    · intro rest _
      exact returns_ok _

--- Runs

variable {byte : UInt8}

theorem ascii_of_isBase58 (hBase58 : isBase58 byte = true) : byte.toNat < 128 := by
  have hAll : ∀ other ∈ base58Alphabet, other.toNat < 128 := by decide +kernel
  exact hAll byte (List.contains_iff_mem.mp hBase58)

/- All of its bytes are in the alphabet. -/
def IsRun (run : List Char) : Prop := ∀ byte ∈ Utf8.encode run, isBase58 byte = true

theorem IsRun.ascii {run : List Char} (hRun : IsRun run) :
    ∀ byte ∈ Utf8.encode run, byte.toNat < 128 := by
  intro byte hMem
  exact ascii_of_isBase58 (hRun byte hMem)

/- A run that began at an index ends at the next one, where both are between characters. -/
structure Pending (before : List UInt8) (start : Option Nat) : Prop where
  bytes :
    ∀ begin,
    start = some begin →
      ∃ front run,
        before = front ++ run ∧ front.length = begin ∧ run ≠ [] ∧ ∀ byte ∈ run, isBase58 byte = true

variable {begin : Nat}

theorem Pending.slice {value : List Char} {before bytes : List UInt8}
    (hPending : Pending before (some begin)) (hBytes : Utf8.encode value = before ++ bytes) :
    ∃ run, Utf8.slice begin before.length value = some run ∧ IsRun run := by
  rcases hPending.bytes begin rfl with ⟨front, run, rfl, hLength, hRun, hBase58⟩
  rcases Utf8.slice_of_ascii hBytes hRun (fun byte hMem => ascii_of_isBase58 (hBase58 byte hMem))
    with ⟨head, middle, tail, hText, hHead, hMiddle⟩
  refine ⟨middle, Utf8.slice_eq_some_iff.mpr ⟨head, tail, hText, ?_, ?_⟩, ?_⟩
  · rw [hHead, hLength]
  · unfold Utf8.size
    rw [hMiddle, List.length_append, hLength]
  · unfold IsRun
    rw [hMiddle]
    exact hBase58

/- At the end of the text the run is what is left of it. -/
theorem Pending.sliceFrom {value : List Char}
    (hPending : Pending (Utf8.encode value) (some begin)) :
    ∃ run, Utf8.sliceFrom begin value = some run ∧ IsRun run := by
  have hBytes : Utf8.encode value = Utf8.encode value ++ [] := by rw [List.append_nil]
  rcases hPending.slice hBytes with ⟨run, hSlice, hRun⟩
  rcases Utf8.slice_eq_some_iff.mp hSlice with ⟨front, back, hText, hFront, hSize⟩
  have hTotal := congrArg Utf8.size hText
  rw [Utf8.size_append, Utf8.size_append, hFront] at hTotal
  change begin + Utf8.size run = Utf8.size value at hSize
  have hBack : back = [] := by
    cases back with
    | nil => rfl
    | cons c back =>
      have hPos := Utf8.length_encodeChar_pos c
      rw [Utf8.size_cons] at hTotal
      omega
  rw [hBack, List.append_nil] at hText
  exact ⟨run, Utf8.sliceFrom_eq_some_iff.mpr ⟨front, hText, hFront⟩, hRun⟩

theorem pending_none (before : List UInt8) : Pending before none := by
  constructor
  intro begin hBegin
  cases hBegin

theorem pending_start (before : List UInt8) (hByte : isBase58 byte = true) :
    Pending (before ++ [byte]) (some before.length) := by
  constructor
  intro begin hBegin
  cases hBegin
  refine ⟨before, [byte], rfl, rfl, List.cons_ne_nil _ _, ?_⟩
  rw [List.forall_mem_singleton]
  exact hByte

theorem Pending.next {before : List UInt8} (hPending : Pending before (some begin))
    (hByte : isBase58 byte = true) : Pending (before ++ [byte]) (some begin) := by
  constructor
  intro other hOther
  cases hOther
  rcases hPending.bytes begin rfl with ⟨front, run, rfl, hLength, -, hBase58⟩
  refine ⟨front, run ++ [byte], ?_, hLength, by simp, ?_⟩
  · rw [List.append_assoc]
  · rw [List.forall_mem_append, List.forall_mem_singleton]
    exact ⟨hBase58, hByte⟩

/- By induction over the bytes that are left. -/
theorem runsLoop_returns {value : List Char} (bytes : List UInt8) {before : List UInt8}
    (hBytes : Utf8.encode value = before ++ bytes) {start : Option Nat}
    (hPending : Pending before start) {runs : List (List Char)} (hRuns : ∀ run ∈ runs, IsRun run) :
    ∃ runs',
    runsLoop value bytes before.length start runs = .ok runs' ∧ ∀ run ∈ runs', IsRun run := by
  induction bytes generalizing before start runs with
  | nil =>
    cases start with
    | none => exact ⟨runs, rfl, hRuns⟩
    | some begin =>
      rw [List.append_nil] at hBytes
      subst hBytes
      rcases hPending.sliceFrom with ⟨run, hSlice, hRun⟩
      refine ⟨runs ++ [run], ?_, ?_⟩
      · unfold runsLoop
        rw [bind_of_ok (orPanic_of_some hSlice)]
      · rw [List.forall_mem_append, List.forall_mem_singleton]
        exact ⟨hRuns, hRun⟩
  | cons byte bytes ih =>
    have hNext : Utf8.encode value = (before ++ [byte]) ++ bytes := by
      rw [hBytes, List.append_assoc]
      rfl
    have hIndex : (before ++ [byte]).length = before.length + 1 := by
      rw [List.length_append, List.length_singleton]
    unfold runsLoop
    rw [← hIndex]
    cases hByte : isBase58 byte with
    | true =>
      cases start with
      | none => exact ih hNext (pending_start before hByte) hRuns
      | some begin => exact ih hNext (hPending.next hByte) hRuns
    | false =>
      cases start with
      | none => exact ih hNext (pending_none _) hRuns
      | some begin =>
        rcases hPending.slice hBytes with ⟨run, hSlice, hRun⟩
        dsimp only
        rw [bind_of_ok (orPanic_of_some hSlice)]
        apply ih hNext (pending_none _)
        rw [List.forall_mem_append, List.forall_mem_singleton]
        exact ⟨hRuns, hRun⟩

theorem base58Runs_returns (value : List Char) :
    ∃ runs, base58Runs value = .ok runs ∧ ∀ run ∈ runs, IsRun run := by
  apply @runsLoop_returns value (Utf8.encode value) [] rfl none (pending_none [])
  intro run hMem
  cases hMem

--- Candidates

theorem IsRun.isBoundary {run : List Char} (hRun : IsRun run) {n : Nat} (hLe : n ≤ Utf8.size run) :
    Utf8.isBoundary n run = true := Utf8.boundary_of_all_ascii hRun.ascii hLe

/- A run is cut anywhere, and what is behind is a run. -/
theorem cutRun_returns (fuel : Nat) {rest : List Char} (hRun : IsRun rest)
    (found : List (List Char)) : Returns (cutRun fuel rest found) := by
  induction fuel generalizing rest found with
  | zero => exact returns_ok found
  | succ fuel ih =>
    unfold cutRun
    split
    · have hCut := hRun.isBoundary (Nat.min_le_left _ wifLongest)
      apply returns_bind (sliceTo_returns hCut)
      intro piece _
      rw [← Utf8.isSome_sliceFrom, Option.isSome_iff_exists] at hCut
      rcases hCut with ⟨after, hAfter⟩
      rw [bind_of_ok (orPanic_of_some hAfter)]
      rcases Utf8.sliceFrom_eq_some_iff.mp hAfter with ⟨front, hRest, -⟩
      apply ih
      intro byte hMem
      apply hRun
      rw [hRest, Utf8.encode_append]
      exact List.mem_append_right _ hMem
    · exact returns_ok found

/- A colon is a byte, so behind one a text can be cut. -/
theorem addSuffix_returns (trimmed : List Char) (found : List (List Char)) :
    Returns (addSuffix trimmed found) := by
  unfold addSuffix
  split
  · exact returns_ok found
  · rename_i index hIndex
    unfold rfind Multisig.rsplitOnce at hIndex
    rcases Option.map_eq_some_iff.mp hIndex with ⟨parts, hParts, rfl⟩
    rcases Option.map_eq_some_iff.mp hParts with ⟨reversed, hReversed, rfl⟩
    have hText := congrArg List.reverse (Address.splitOnce_eq_some hReversed).2
    rw [List.reverse_reverse, List.reverse_append, List.reverse_cons] at hText
    apply returns_bind
    · apply sliceFrom_returns
      refine Utf8.isBoundary_iff.mpr ⟨_, _, hText, ?_⟩
      rw [Utf8.size_append]
      rfl
    · intro after _
      dsimp only
      split
      · exact returns_ok _
      · exact returns_ok _

theorem wifCandidates_returns (value : String) : Returns (wifCandidates value) := by
  unfold wifCandidates
  dsimp only
  rcases base58Runs_returns (Text.trim value).toList with ⟨runs, hRuns, hEach⟩
  rw [bind_of_ok hRuns]
  apply returns_bind
  · apply returns_foldlM
    intro found run hMem
    exact cutRun_returns _ (hEach run hMem) found
  · intro found _
    exact addSuffix_returns _ _

--- Keys

/- A carry of less than a byte stays one, and the word does not overflow. -/
theorem feedDigit_returns (digit : UInt8) {state : Nat × List UInt8} (hCarry : state.1 < 256) :
    ∃ state', feedDigit digit state = .ok state' ∧ state'.1 < 256 := by
  have hDigit := digit.toNat_lt
  unfold feedDigit
  dsimp only
  rw [if_pos (by omega)]
  exact ⟨_, rfl, by dsimp only; omega⟩

theorem feedByte_returns (digits : Option (List UInt8)) (byte : UInt8) :
    Returns (feedByte digits byte) := by
  unfold feedByte
  split
  · rename_i digits value hValue
    have hSmall : value < 256 :=
      lt_trans (List.findIdx?_eq_some_iff_getElem.mp hValue).1 (by decide +kernel)
    rw [← List.reverse_reverse digits, List.foldrM_reverse]
    rcases @foldlM_returns _ _ _ (fun state digit => feedDigit digit state)
      (fun state => state.1 < 256) digits.reverse
      (fun state digit _ hState => feedDigit_returns digit hState) (value, []) hSmall with
      ⟨fed, hFed, -⟩
    rw [bind_of_ok hFed]
    exact returns_ok _
  · exact returns_ok none

theorem base58Decode_returns (input : List Char) : Returns (base58Decode input) := by
  unfold base58Decode
  apply returns_bind
  · apply returns_foldlM
    intro digits byte _
    exact feedByte_returns digits byte
  · intro digits _
    exact returns_ok _

variable (sha256 : List UInt8 → Vector UInt8 32)

/- A body that is decoded is not empty. -/
theorem base58checkDecode_returns (input : List Char) :
    ∃ body,
    base58checkDecode sha256 input = .ok body ∧ ∀ bytes, body = some bytes → bytes ≠ [] := by
  unfold base58checkDecode
  rcases base58Decode_returns input with ⟨raw, hRaw⟩
  rw [bind_of_ok hRaw]
  cases raw with
  | none => exact ⟨none, rfl, by simp⟩
  | some raw =>
    dsimp only
    split
    · exact ⟨none, rfl, by simp⟩
    · rename_i hLong
      split
      · refine ⟨_, rfl, ?_⟩
        intro bytes hBytes
        cases hBytes
        rw [← List.length_pos_iff, List.length_take]
        omega
      · exact ⟨none, rfl, by simp⟩

theorem wellFormed_returns (body : List UInt8) : Returns (wellFormed body) := by
  unfold wellFormed
  split
  · exact returns_ok _
  · split
    · rename_i hLength
      apply returns_bind
      · rw [orPanic_returns_iff, List.getElem?_eq_getElem (by omega)]
        rfl
      · intro marker _
        exact returns_ok _
    · exact returns_ok _

theorem decodeWif_returns (candidate : List Char) : Returns (decodeWif sha256 candidate) := by
  unfold decodeWif
  rcases base58checkDecode_returns sha256 candidate with ⟨body, hBody, -⟩
  rw [bind_of_ok hBody]
  cases body with
  | none => exact returns_ok none
  | some body =>
    dsimp only
    split
    · exact returns_ok none
    · apply returns_bind (wellFormed_returns body)
      intro valid _
      exact returns_ok _

/- By induction over the candidates. -/
theorem findKey_returns (candidates : List (List Char)) : Returns (findKey sha256 candidates) := by
  induction candidates with
  | nil => exact returns_ok none
  | cons candidate candidates ih =>
    unfold findKey
    apply returns_bind (decodeWif_returns sha256 candidate)
    intro key _
    cases key with
    | none => exact ih
    | some key => exact returns_ok _

theorem isLegacyAddress_returns (candidate : List Char) :
    Returns (isLegacyAddress sha256 candidate) := by
  unfold isLegacyAddress
  rcases base58checkDecode_returns sha256 candidate with ⟨body, hBody, -⟩
  rw [bind_of_ok hBody]
  exact returns_ok _

theorem kindOfBody_returns {body : Option (List UInt8)}
    (hBytes : ∀ bytes, body = some bytes → bytes ≠ []) : Returns (kindOfBody body) := by
  unfold kindOfBody
  cases body with
  | none => exact returns_ok none
  | some bytes =>
    apply returns_bind
    · rw
        [orPanic_returns_iff, List.getElem?_eq_getElem (List.length_pos_iff.mpr (hBytes bytes rfl))]
      rfl
    · intro version _
      exact returns_ok _

theorem legacyPayload_returns (network : Network) (noPrefix : List Char) (isBip21 : Bool)
    (amountRaw label message : Option String) :
    Returns (legacyPayload sha256 network noPrefix isBip21 amountRaw label message) := by
  unfold legacyPayload
  rcases base58checkDecode_returns sha256 noPrefix with ⟨body, hBody, hBytes⟩
  rw [bind_of_ok hBody]
  apply returns_bind (kindOfBody_returns hBytes)
  intro kind _
  split
  · exact returns_ok _
  · exact returns_ok _

--- Addresses

/- With the prefix of a network, fewer symbols than a checksum has are too few to make the register
   vanish. -/
theorem short_not_accepted (network : Network) {symbols : List UInt8}
    (hSmall : ∀ digit ∈ symbols, digit.toNat < 2 ^ 5) (hPos : symbols ≠ [])
    (hShort : symbols.length < 8) :
    Cashaddr.polymod (Cashaddr.prefixSymbols network.addressPrefix.toList ++ [0] ++ symbols) ≠
      0 := by
  have hZeros :
      ∀ count < 8,
      0 < count →
        (2 ^ 5) ^ count ≤
          (Cashaddr.polymod
            (Cashaddr.prefixSymbols network.addressPrefix.toList ++ [0] ++
              List.replicate count 0)).toNat := by
    cases network <;> decide +kernel
  have hHere := hZeros symbols.length hShort (List.length_pos_iff.mpr hPos)
  have hValue := Cashaddr.value_lt hSmall
  rw [← Cashaddr.feed_digits hSmall hShort.le] at hValue
  rw [Cashaddr.polymod_append, Ne, UInt64.xor_eq_zero_iff]
  intro hEq
  rw [hEq] at hHere
  omega

variable (tables : UnicodeTables)

/- The prefix that is put in front is the one that is read. -/
theorem partsOf_candidate (network : Network) (noPrefix : List Char) :
    (Address.partsOf tables (network.addressPrefix ++ ":" ++ String.ofList noPrefix)).1 =
      network.addressPrefix.toList := by
  have hPrefix := Network.networkPrefix tables network
  have hText :
      (network.addressPrefix ++ ":" ++ String.ofList noPrefix).toList =
        network.addressPrefix.toList ++ ':' :: noPrefix := by
    rw [String.toList_append, String.toList_append, List.append_assoc,
      @String.toList_ofList noPrefix]
    rfl
  have hHead :
      network.addressPrefix.toList.dropWhile Text.isWhitespace = network.addressPrefix.toList := by
    cases network <;> decide
  have hColon : Text.isWhitespace ':' = false := by decide
  unfold Address.partsOf Address.splitPrefix
  rw [Address.trim_toList]
  unfold Address.trimmedText
  rw [hText, TrimmedText.trimmed_cons hColon, hHead, UnicodeTables.toLowercase,
    toLowercase_front hPrefix.lower, Address.lower_colon, splitOnce_append hPrefix.colonFree]

theorem decode_candidate_ne_panic (network : Network) (noPrefix : List Char) :
    Address.decode tables (network.addressPrefix ++ ":" ++ String.ofList noPrefix) ≠
      .error .panic := by
  rw [Address.decode_ne_panic_iff]
  rintro ⟨hEmpty, symbols, hSymbols, hShort, hChecks⟩
  rcases Address.mapM_symbolOf_iff.mp hSymbols with ⟨hText, hSmall⟩
  rw [partsOf_candidate] at hChecks
  refine short_not_accepted network hSmall ?_ hShort hChecks
  rintro rfl
  exact hEmpty hText

theorem encode_isSome (address : Address) : address.encode.isSome = true := by
  rcases Cashaddr.encodes address.addressPrefix.toList
    ([address.kind.versionByte] ++ address.hash.toList) with ⟨payload5, checks, hEncodes⟩
  unfold Address.encode
  rw [hEncodes.text]
  rfl

theorem cashaddrPayload_returns (network : Network) (noPrefix : List Char) (isBip21 : Bool)
    (amountRaw label message : Option String) :
    Returns (cashaddrPayload tables network noPrefix isBip21 amountRaw label message) := by
  have hDecode := decode_candidate_ne_panic tables network noPrefix
  unfold cashaddrPayload
  dsimp only
  cases hAddress : Address.decode tables
    (network.addressPrefix ++ ":" ++ String.ofList noPrefix) with
  | ok address =>
    apply returns_bind
    · exact orPanic_returns_iff.mpr (encode_isSome address)
    · intro encoded _
      exact returns_ok _
  | error fault =>
    cases fault with
    | error e => exact returns_ok _
    | panic => exact absurd hAddress hDecode

end OptnWallet.Scan
