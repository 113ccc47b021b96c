import OptnWallet.Runtime.HeaderVerifier.Extension
import OptnWallet.Runtime.HeaderView

/-
  Extending a view is atomic, and does not see how headers are cut into batches.

  Recording anchors never looks at the verifier, and the verifier never looks at the index, so
  that both halves of a batch split at the same header; the height a later batch starts from is
  the leaf count that the earlier one left.

  Main declarations:
    * `VerifiedHeaderView.extend_eq_ok_iff`
    * `VerifiedHeaderView.extend_append`
    * `VerifiedHeaderView.extend_atomic_and_splits`
-/

--- Recording Anchors

namespace OptnWallet

open StagedUpdate

variable {H : Type}

namespace VerifiedHeaderView

section

variable (self : VerifiedHeaderView H) (verifier : ShvMmrHeaderVerifier H)

def setVerifier :
    VerifiedHeaderView H := { self with verifier }

theorem recordAnchor_setVerifier
    (height : Nat) (blockHash : H) (timestamp : UInt32) :
    (self.setVerifier verifier).recordAnchor height blockHash timestamp =
      ((self.recordAnchor height blockHash timestamp).1,
        (self.recordAnchor height blockHash timestamp).2.setVerifier verifier) := by
  unfold recordAnchor setVerifier
  dsimp only
  split
  · rfl
  · split
    · rfl
    · split
      · rfl
      · split
        · rfl
        · split
          · rfl
          · rfl

end

variable [Hash32 H]

section

variable (self : VerifiedHeaderView H)

theorem recordAnchors_cons (height : Nat) (header : BlockHeaderBytes)
    (headers : List BlockHeaderBytes) :
    self.recordAnchors height (header :: headers) =
      match self.recordAnchor height (headerLeaf header)
          (headerTimestamp header) with
      | (.error e, _) => .error e
      | (.ok (), self) => self.recordAnchors (height + 1) headers := rfl

theorem recordAnchors_setVerifier (verifier : ShvMmrHeaderVerifier H)
    (height : Nat) (headers : List BlockHeaderBytes) :
    (self.setVerifier verifier).recordAnchors height headers =
      (self.recordAnchors height headers).map (fun view => view.setVerifier verifier) := by
  induction headers generalizing self height with
  | nil => rfl
  | cons header headers ih =>
    rw [recordAnchors_cons, recordAnchors_cons, recordAnchor_setVerifier]
    rcases self.recordAnchor height (headerLeaf header) (headerTimestamp header) with ⟨result, next⟩
    cases result with
    | error e => rfl
    | ok done => exact ih next (height + 1)

theorem recordAnchors_append (height : Nat)
    (front back : List BlockHeaderBytes) :
    self.recordAnchors height (front ++ back) = (self.recordAnchors height front).bind
        (fun view => view.recordAnchors (height + front.length) back) := by
  induction front generalizing self height with
  | nil => rfl
  | cons header front ih =>
    rw [List.cons_append, recordAnchors_cons, recordAnchors_cons]
    rcases self.recordAnchor height (headerLeaf header) (headerTimestamp header) with ⟨result, next⟩
    cases result with
    | error e => rfl
    | ok done =>
      dsimp only
      rw [ih, List.length_cons, Nat.add_right_comm, Nat.add_assoc]

end

variable {self : VerifiedHeaderView H} {height : Nat} {headers : List BlockHeaderBytes}

/- Only the time index refuses a block. -/
theorem recordAnchors_eq_error {e : HeaderViewError H}
    (hError : self.recordAnchors height headers = .error e) :
    ∃ indexError, e = .timeIndex indexError := by
  induction headers generalizing self height with
  | nil => cases hError
  | cons header headers ih =>
    rw [recordAnchors_cons] at hError
    rcases hStep : self.recordAnchor height (headerLeaf header) (headerTimestamp header) with
      ⟨result, next⟩
    rw [hStep] at hError
    cases result with
    | ok done => exact ih hError
    | error stepError =>
      cases hError
      unfold recordAnchor at hStep
      dsimp only at hStep
      split at hStep
      · cases hStep
      · split at hStep
        · cases hStep
        · split at hStep
          · cases hStep
          · split at hStep
            · cases hStep
            · split at hStep
              · cases hStep
              · rename_i height median hMedian hRepeated
                rcases hInsert :
                    self.times.insert
                      { height := _
                        blockHash := headerLeaf header
                        medianTimePast := median
                        trust := .authenticated } with
                  ⟨inserted, times⟩
                rw [hInsert] at hStep
                cases inserted with
                | ok done => cases hStep
                | error indexError =>
                  cases hStep
                  exact ⟨indexError, rfl⟩

variable {self' : VerifiedHeaderView H}

/- Recording leaves the verifier alone. -/
theorem verifier_of_recordAnchors (hRecord : self.recordAnchors height headers = .ok self') :
    self'.verifier = self.verifier := by
  have hSelf := recordAnchors_setVerifier self self.verifier height headers
  have hSame : self.setVerifier self.verifier = self := rfl
  rw [hSame, hRecord] at hSelf
  have hEq : self' = self'.setVerifier self.verifier := Except.ok.inj hSelf
  rw [hEq]
  rfl

--- What An Extension Consists Of

theorem firstHeight_eq_ok_iff :
    self.firstHeight = .ok height ↔
    height = self.verifier.accumulator.leafCount ∧ height ≤ 2 ^ 32 := by
  unfold firstHeight ShvMmrHeaderVerifier.state
  cases hTip : self.verifier.tipHeight with
  | ok tip =>
    have hCount := ShvMmrHeaderVerifier.tipHeight_eq_ok hTip
    have hWord := tip.toNat_lt
    simp only [Except.ok.injEq]
    omega
  | error e =>
    unfold ShvMmrHeaderVerifier.tipHeight at hTip
    split at hTip
    · rename_i hEmpty
      cases hTip
      simp only [Except.ok.injEq]
      omega
    · split at hTip
      · rename_i hNone
        cases hTip
        rw [Word32.tryFrom_eq_none_iff] at hNone
        constructor
        · intro hAbsurd
          cases hAbsurd
        · intro hBounds
          omega
      · cases hTip

variable [DecidableEq H]

theorem extend_nil (self : VerifiedHeaderView H) : self.extend [] = (.ok (), self) := rfl

/- The verified batch, and the anchors it leads to. -/
theorem extend_eq_ok_iff (hNonempty : headers ≠ []) :
    self.extend headers = (.ok (), self') ↔
    self.verifier.accumulator.leafCount ≤ 2 ^ 32 ∧
      ∃ verifier,
        headers.foldlM ShvMmrHeaderVerifier.extendOne self.verifier = .ok verifier ∧
          (self.setVerifier verifier).recordAnchors self.verifier.accumulator.leafCount headers =
            .ok self' := by
  unfold extend
  rw [if_neg (by simpa using hNonempty)]
  cases hFirst : self.firstHeight with
  | error e =>
    constructor
    · intro hOk
      cases hOk
    · rintro ⟨hWord, -⟩
      have hOk := firstHeight_eq_ok_iff.mpr ⟨rfl, hWord⟩
      rw [hFirst] at hOk
      cases hOk
  | ok height =>
    rcases firstHeight_eq_ok_iff.mp hFirst with ⟨rfl, hWord⟩
    dsimp only
    rw [assign_eq_ok_iff]
    unfold stagedExtend
    rcases hVerify : self.verifier.extend headers with ⟨result, verifier⟩
    cases result with
    | error e =>
      constructor
      · intro hOk
        cases hOk
      · rintro ⟨-, verifier', hFold, -⟩
        rw [← ShvMmrHeaderVerifier.extend_eq_ok_iff, hVerify] at hFold
        cases hFold
    | ok done =>
      have hFold := ShvMmrHeaderVerifier.extend_eq_ok_iff.mp hVerify
      dsimp only
      rw [mapError_eq_ok_iff]
      constructor
      · intro hRecord
        exact ⟨hWord, verifier, hFold, hRecord⟩
      · rintro ⟨-, verifier', hFold', hRecord⟩
        rw [hFold] at hFold'
        cases hFold'
        exact hRecord

theorem extend_eq_error {e : Failure (HeaderViewError H)}
    (hError : self.extend headers = (.error e, self')) : self' = self := by
  unfold extend at hError
  split at hError
  · cases hError
  · split at hError
    · cases hError
      rfl
    · exact (assign_eq_error_iff.mp hError).2

/- A verified batch fails as its recording does. -/
theorem extend_of_record_error (hNonempty : headers ≠ [])
    (hWord : self.verifier.accumulator.leafCount ≤ 2 ^ 32) {verifier : ShvMmrHeaderVerifier H}
    (hVerify : self.verifier.extend headers = (.ok (), verifier)) {e : HeaderViewError H}
    (hRecord :
        (self.setVerifier verifier).recordAnchors self.verifier.accumulator.leafCount headers =
          .error e) : self.extend headers = (.error (.returned e), self) := by
  have hFirst := firstHeight_eq_ok_iff.mpr ⟨rfl, hWord⟩
  unfold extend
  rw [if_neg (by simpa using hNonempty), hFirst]
  dsimp only
  rw [assign_eq_error_iff]
  refine ⟨?_, rfl⟩
  unfold stagedExtend
  rw [hVerify]
  unfold setVerifier at hRecord
  dsimp only
  rw [hRecord]
  rfl

/- Only a verified batch reaches the time index. -/
theorem extend_eq_timeIndex {e : HeaderIndexError}
    (hError : self.extend headers = (.error (.returned (.timeIndex e)), self')) :
    ∃ verifier,
    headers.foldlM ShvMmrHeaderVerifier.extendOne self.verifier = .ok verifier ∧
      (self.setVerifier verifier).recordAnchors self.verifier.accumulator.leafCount headers =
        .error (.timeIndex e) := by
  unfold extend at hError
  split at hError
  · cases hError
  · split at hError
    · cases hError
    · rename_i height hFirst
      have hHeight := (firstHeight_eq_ok_iff.mp hFirst).1
      have hStaged := (assign_eq_error_iff.mp hError).1
      unfold stagedExtend at hStaged
      split at hStaged
      · rename_i failure verifier hVerify
        cases failure with
        | aborted => cases hStaged
        | returned error => cases hStaged
      · rename_i verifier hVerify
        refine ⟨verifier, ShvMmrHeaderVerifier.extend_eq_ok_iff.mp hVerify, ?_⟩
        rw [← hHeight]
        unfold setVerifier
        cases hRecord :
            recordAnchors { self with verifier }
              height headers with
        | ok view =>
          rw [hRecord] at hStaged
          cases hStaged
        | error error =>
          rw [hRecord] at hStaged
          cases hStaged
          rfl

--- Splitting Batches

/-
  After an accepted header the next one is judged at the tip height, so that height still is a
  word.
-/
theorem leafCount_le_of_foldlM {verifier verifier' : ShvMmrHeaderVerifier H}
    (hNonempty : headers ≠ []) (hLast : verifier.lastHash.isSome)
    (hFold : headers.foldlM ShvMmrHeaderVerifier.extendOne verifier = .ok verifier') :
    verifier.accumulator.leafCount ≤ 2 ^ 32 := by
  cases headers with
  | nil => exact absurd rfl hNonempty
  | cons header headers =>
    rw [List.foldlM_cons] at hFold
    cases hStep : verifier.extendOne header with
    | error e =>
      rw [hStep] at hFold
      cases hFold
    | ok next =>
      rcases (ShvMmrHeaderVerifier.extendOne_eq_ok hStep).tip hLast with ⟨height, hTip⟩
      have hWord := height.toNat_lt
      rw [ShvMmrHeaderVerifier.tipHeight_eq_ok hTip]
      omega

theorem extend_append (self : VerifiedHeaderView H) (front back : List BlockHeaderBytes)
    (self'' : VerifiedHeaderView H) :
    self.extend (front ++ back) = (.ok (), self'') ↔
    ∃ self', self.extend front = (.ok (), self') ∧ self'.extend back = (.ok (), self'') := by
  by_cases hFront : front = []
  · subst hFront
    simp [extend_nil]
  by_cases hBack : back = []
  · subst hBack
    simp [extend_nil]
  rw [extend_eq_ok_iff (by simp [hFront])]
  constructor
  · rintro ⟨hWord, verifier'', hFold, hRecord⟩
    rcases foldlM_append_eq_ok_iff.mp hFold with ⟨verifier', hFoldFront, hFoldBack⟩
    have hRun := ShvMmrHeaderVerifier.run_of_foldlM hFoldFront
    rw [recordAnchors_append] at hRecord
    rw [recordAnchors_setVerifier] at hRecord
    cases hMid : self.recordAnchors self.verifier.accumulator.leafCount front with
    | error e =>
      rw [hMid] at hRecord
      cases hRecord
    | ok view =>
      rw [hMid] at hRecord
      refine ⟨view.setVerifier verifier', ?_, ?_⟩
      · rw [extend_eq_ok_iff hFront]
        refine ⟨hWord, verifier', hFoldFront, ?_⟩
        rw [recordAnchors_setVerifier, hMid]
        rfl
      · rw [extend_eq_ok_iff hBack]
        refine ⟨?_, verifier'', hFoldBack, ?_⟩
        · exact leafCount_le_of_foldlM hBack (hRun.lastHash hFront) hFoldBack
        · have hCount := hRun.leafCount
          simp only [setVerifier] at hCount ⊢
          rw [hCount]
          exact hRecord
  · rintro ⟨self', hExtFront, hExtBack⟩
    rcases (extend_eq_ok_iff hFront).mp hExtFront with ⟨hWord, verifier', hFoldFront, hRecFront⟩
    rcases (extend_eq_ok_iff hBack).mp hExtBack with ⟨-, verifier'', hFoldBack, hRecBack⟩
    have hRun := ShvMmrHeaderVerifier.run_of_foldlM hFoldFront
    have hVerifier : self'.verifier = verifier' := verifier_of_recordAnchors hRecFront
    rw [hVerifier] at hFoldBack hRecBack
    refine ⟨hWord, verifier'', ?_, ?_⟩
    · exact foldlM_append_eq_ok_iff.mpr ⟨verifier', hFoldFront, hFoldBack⟩
    · rw [recordAnchors_append, recordAnchors_setVerifier]
      rw [recordAnchors_setVerifier] at hRecFront
      cases hMid : self.recordAnchors self.verifier.accumulator.leafCount front with
      | error e =>
        rw [hMid] at hRecFront
        cases hRecFront
      | ok view =>
        rw [hMid] at hRecFront
        cases hRecFront
        rw [hRun.leafCount] at hRecBack
        exact hRecBack

/-
  An extension that fails leaves the whole view as it was, and batches that all succeed do exactly
  what their concatenation does as one batch.
-/
theorem extend_atomic_and_splits (self : VerifiedHeaderView H) :
    (∀ headers e self', self.extend headers = (.error e, self') → self' = self) ∧
    ∀ batches self',
      feedAll extend self batches = .ok self' ↔ self.extend batches.flatten = (.ok (), self') := by
  constructor
  · intro headers e self' hError
    exact extend_eq_error hError
  · intro batches self'
    exact feedAll_eq_ok_iff extend_nil extend_append batches self self'

end VerifiedHeaderView

end OptnWallet
