import OptnWallet.Core.HeaderMmr.Refinement
import OptnWallet.Runtime.HeaderVerifier

/-
  What one accepted header does to a verifier, and what a run of accepted headers leaves behind.

  Main declarations:
    * `ShvMmrHeaderVerifier.extendOne_eq_ok`
    * `ShvMmrHeaderVerifier.extend_eq_ok_iff`
    * `ShvMmrHeaderVerifier.Run`
-/

--- One Accepted Header

namespace OptnWallet

open StagedUpdate

variable {H : Type} [Hash32 H]

namespace ShvMmrHeaderVerifier

variable {self : ShvMmrHeaderVerifier H} {height : UInt32}

omit [Hash32 H] in
theorem tipHeight_eq_ok (hTip : self.tipHeight = .ok height) :
    self.accumulator.leafCount = height.toNat + 1 := by
  unfold tipHeight at hTip
  split at hTip
  · cases hTip
  · rename_i hNonempty
    split at hTip
    · cases hTip
    · rename_i word hWord
      cases hTip
      rw [Word32.tryFrom_eq_some hWord]
      omega

omit [Hash32 H] in
theorem tipHeight_of_leafCount (hCount : self.accumulator.leafCount = height.toNat + 1) :
    self.tipHeight = .ok height := by
  unfold tipHeight
  rw [if_neg (by omega), hCount, Nat.add_sub_cancel, Word32.tryFrom_toNat]

theorem state_eq_ok {state : HeaderAccumulatorState H} (hState : self.state = .ok state) :
    self.tipHeight = .ok state.height ∧
    state.peaks = self.accumulator.peaks ∧
    state.commitment = self.accumulator.root := by
  unfold ShvMmrHeaderVerifier.state at hState
  split at hState
  · cases hState
  · rename_i height hTip
    cases hState
    exact ⟨hTip, rfl, rfl⟩

theorem state_of_tipHeight (hTip : self.tipHeight = .ok height) :
    self.state = .ok
        { height
          peaks := self.accumulator.peaks
          commitment := self.accumulator.root } := by
  unfold ShvMmrHeaderVerifier.state
  rw [hTip]

variable [DecidableEq H] {header : BlockHeaderBytes}

/- A judged header is parsed from its own bytes, and its target holds. -/
theorem judge_eq_ok {candidate : ShvMmrHeaderVerifier H} {parsed : ParsedHeader H}
    (hJudge : candidate.judge header = .ok parsed) :
    verifyDeclaredPow header = .ok parsed ∧
    parsed = parseHeader header ∧
    (candidate.lastHash.isSome → ∃ height, candidate.tipHeight = .ok height) := by
  have hPow :
      verifyDeclaredPow header = .ok parsed ∧
      (candidate.lastHash.isSome → ∃ height, candidate.tipHeight = .ok height) := by
    unfold judge at hJudge
    cases hLast : candidate.lastHash with
    | none =>
      rw [hLast] at hJudge
      cases hOwn : verifyDeclaredPow (H := H) header with
      | error e =>
        rw [hOwn] at hJudge
        cases hJudge
      | ok own =>
        rw [hOwn] at hJudge
        cases hJudge
        exact ⟨rfl, by simp⟩
    | some expectedPrev =>
      rw [hLast] at hJudge
      dsimp only at hJudge
      cases hTip : candidate.tipHeight with
      | error e =>
        rw [hTip] at hJudge
        cases hJudge
      | ok height =>
        rw [hTip] at hJudge
        dsimp only at hJudge
        cases hOwn : verifyHeaderExtension expectedPrev header (candidate.asertCheck height) with
        | error e =>
          rw [hOwn] at hJudge
          cases hJudge
        | ok own =>
          rw [hOwn] at hJudge
          cases hJudge
          exact ⟨(verifyHeaderExtension_eq_ok hOwn).1, fun _ => ⟨height, rfl⟩⟩
  exact ⟨hPow.1, verifyDeclaredPow_eq_ok hPow.1, hPow.2⟩

/- The verifier after one accepted header. -/
structure Appended (candidate : ShvMmrHeaderVerifier H) (header : BlockHeaderBytes)
    (next : ShvMmrHeaderVerifier H) : Prop where
  pow : verifyDeclaredPow (H := H) header = .ok (parseHeader header)
  tip : candidate.lastHash.isSome → ∃ height, candidate.tipHeight = .ok height
  accumulator : candidate.accumulator.extend (headerLeaf header) = some next.accumulator
  rest :
    next =
      { candidate with
        accumulator := next.accumulator
        lastHash := some (headerLeaf header)
        lastTime := some (header.wordAt 68)
        lastHeader := some header
        lastLeafProof := candidate.accumulator.proofForNextLeaf (headerLeaf header) }

theorem extendOne_eq_ok {candidate next : ShvMmrHeaderVerifier H}
    (hStep : candidate.extendOne header = .ok next) : Appended candidate header next := by
  unfold extendOne at hStep
  split at hStep
  · cases hStep
  · rename_i parsed hJudge
    rcases judge_eq_ok hJudge with ⟨hPow, rfl, hTip⟩
    unfold append at hStep
    split at hStep
    · cases hStep
    · rename_i appended hAppend
      split at hAppend
      · cases hAppend
      · rename_i accumulator hExtend
        cases hAppend
        cases hStep
        exact ⟨hPow, hTip, hExtend, rfl⟩

--- Runs Of Accepted Headers

variable {self' : ShvMmrHeaderVerifier H} {headers : List BlockHeaderBytes}

theorem extend_eq_ok_iff :
    self.extend headers = (.ok (), self') ↔ headers.foldlM extendOne self = .ok self' := by
  unfold extend
  exact assign_eq_ok_iff

theorem extend_eq_error {e : Failure (ShvMmrError H)}
    (hError : self.extend headers = (.error e, self')) : self' = self :=
  (assign_eq_error_iff.mp hError).2

/-
  What a verifier that accepted `headers` after `start` looks like: leaves appended in order, the
  context of the last header, everything else as it was.
-/
structure Run (start : ShvMmrHeaderVerifier H) (headers : List BlockHeaderBytes)
    (final : ShvMmrHeaderVerifier H) : Prop where
  accumulator : start.accumulator.extendAll (headers.map headerLeaf) = some final.accumulator
  provenance : final.provenance = start.provenance
  difficulty : final.difficulty = start.difficulty
  pow : ∀ header ∈ headers, verifyDeclaredPow (H := H) header = .ok (parseHeader header)
  empty : headers = [] → final = start
  last :
    ∀ front header,
    headers = front ++ [header] →
      ∃ before,
        start.accumulator.extendAll (front.map headerLeaf) = some before ∧
          before.extend (headerLeaf header) = some final.accumulator ∧
          final.lastHash = some (headerLeaf header) ∧
          final.lastTime = some (header.wordAt 68) ∧
          final.lastHeader = some header ∧
          final.lastLeafProof = before.proofForNextLeaf (headerLeaf header)

omit [DecidableEq H] in
theorem Run.snoc {mid : ShvMmrHeaderVerifier H} (hRun : Run self headers mid)
    (hNext : Appended mid header self') : Run self (headers ++ [header]) self' := by
  have hExtend := hNext.accumulator
  have hRest := hNext.rest
  constructor
  · unfold MmrAccumulator.extendAll
    rw [List.map_append, List.foldlM_append]
    have hFront := hRun.accumulator
    unfold MmrAccumulator.extendAll at hFront
    rw [hFront]
    simp [hExtend]
  · rw [hRest]
    exact hRun.provenance
  · rw [hRest]
    exact hRun.difficulty
  · intro other hMem
    rcases List.mem_append.mp hMem with hOld | hNew
    · exact hRun.pow other hOld
    · rw [List.mem_singleton.mp hNew]
      exact hNext.pow
  · intro hEmpty
    simp at hEmpty
  · intro front last hSplit
    rcases List.append_inj' hSplit rfl with ⟨rfl, hLast⟩
    cases hLast
    refine ⟨mid.accumulator, hRun.accumulator, hExtend, ?_⟩
    rw [hRest]
    exact ⟨rfl, rfl, rfl, rfl⟩

/- By induction over the batch, with `Run` as invariant. -/
theorem run_of_foldlM (hFold : headers.foldlM extendOne self = .ok self') :
    Run self headers self' := by
  have hStart : Run self [] self := by
    refine ⟨rfl, rfl, rfl, by simp, fun _ => rfl, ?_⟩
    intro front header hSplit
    simp at hSplit
  have hRun :=
    foldlM_invariant (fun consumed mid header next hInv hStep => hInv.snoc (extendOne_eq_ok hStep))
      hStart hFold
  simpa using hRun

theorem extend_run (hExtend : self.extend headers = (.ok (), self')) : Run self headers self' :=
  run_of_foldlM (extend_eq_ok_iff.mp hExtend)

omit [DecidableEq H] in
theorem Run.leafCount (hRun : Run self headers self') :
    self'.accumulator.leafCount = self.accumulator.leafCount + headers.length := by
  rw [MmrAccumulator.leafCount_extendAll hRun.accumulator, List.length_map]

omit [DecidableEq H] in
theorem Run.lastHash (hRun : Run self headers self') (hNonempty : headers ≠ []) :
    self'.lastHash.isSome := by
  rcases hRun.last headers.dropLast (headers.getLast hNonempty)
    (List.dropLast_append_getLast hNonempty).symm with ⟨-, -, -, hLast, -⟩
  rw [hLast]
  rfl

end ShvMmrHeaderVerifier

end OptnWallet
