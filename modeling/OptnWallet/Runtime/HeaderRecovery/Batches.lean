import OptnWallet.Runtime.HeaderRecovery.Staging

/-
  How headers are cut into batches does not change what a replay answers, for as long as its batch
  budget lasts; only the reason of a divergence can change.

  A batch that neither reaches the target nor spends the header budget asks for more headers, at
  the height where the next batch then starts.

  Main declarations:
    * `ReplayStep.answer`
    * `HistoricalReplay.replayBatch_append`
    * `HistoricalReplay.feedBatches_answer`
-/

--- Answers

namespace OptnWallet

open StagedUpdate

open MmrAccumulator

variable {H : Type}

/- A step, up to the reason of a divergence. -/
def ReplayStep.answer : ReplayStep H → Option (ReplayStep H)
  | .diverged _ => none
  | step => some step

namespace HistoricalReplay

variable (result : Option (ReplayStep H × HistoricalReplay H))

/- What a call answered; `none` is an abort. -/
def answered : Option (Option (ReplayStep H)) := result.map (fun (step, _) => step.answer)

/- Go on while more headers are asked for. -/
def ifMore (rest : HistoricalReplay H → Option (ReplayStep H × HistoricalReplay H)) :
    Option (ReplayStep H × HistoricalReplay H) :=
  match result with
  | some (.needHeaders _, next) => rest next
  | other => other

def withBatches (self : HistoricalReplay H) (batchesSeen : UInt32) : HistoricalReplay H :=
  { self with batchesSeen }

variable [Hash32 H] [DecidableEq H]

/- Feed batches in turn, up to the first other answer. -/
def feedBatches (self : HistoricalReplay H) (batch : List BlockHeaderBytes) :
    List (List BlockHeaderBytes) → Option (ReplayStep H × HistoricalReplay H)
  | [] => self.feed batch
  | next :: batches => ifMore (self.feed batch) (fun replay => replay.feedBatches next batches)

--- One Batch At A Time

variable {self next : HistoricalReplay H} {fromHeight : UInt32}

theorem judgeTip_eq_needHeaders_iff :
    self.judgeTip = (.needHeaders fromHeight, next) ↔
    (next = self ∧ fromHeight = self.nextHeight) ∧
      self.headersSeen < self.budget.maxHeaders ∧
      ∃ height, self.staged.tipHeight = .ok height ∧ height < self.target.height := by
  unfold judgeTip ShvMmrHeaderVerifier.state
  cases hTip : self.staged.tipHeight with
  | error e => simp
  | ok height =>
    dsimp only
    by_cases hBelow : height < self.target.height
    · rw [if_pos hBelow]
      by_cases hSpent : self.budget.maxHeaders ≤ self.headersSeen
      · rw [if_pos hSpent]
        simp [not_lt.mpr hSpent]
      · rw [if_neg hSpent]
        simp [not_le.mp hSpent, hBelow, eq_comm, and_comm]
    · rw [if_neg hBelow]
      split
      · simp [hBelow]
      · simp [hBelow]

section

variable (self : HistoricalReplay H) (batchesSeen : UInt32)

/- The batch counter is never read while replaying. -/
theorem judgeTip_withBatches :
    (self.withBatches batchesSeen).judgeTip =
      (self.judgeTip.1, self.judgeTip.2.withBatches batchesSeen) := by
  unfold judgeTip withBatches
  dsimp only
  split
  · rfl
  · split
    · split
      · rfl
      · rfl
    · split
      · rfl
      · rfl

theorem replayBatch_withBatches (start : UInt32)
    (batch : List BlockHeaderBytes) :
    (self.withBatches batchesSeen).replayBatch start batch = (self.replayBatch start batch).map
        (fun (step, next) => (step, next.withBatches batchesSeen)) := by
  unfold replayBatch
  simp only [matchAnchors_eq]
  have hStaged : (self.withBatches batchesSeen).staged = self.staged := rfl
  rw [hStaged]
  rcases self.staged.extend batch with ⟨result, staged⟩
  cases result with
  | error failure => cases failure <;> rfl
  | ok done =>
    dsimp only
    have hCompare :
        compareAnchors (self.withBatches batchesSeen).anchors
            (self.withBatches batchesSeen).anchorsMatched start batch =
          compareAnchors self.anchors self.anchorsMatched start batch :=
      rfl
    rw [hCompare]
    rcases compareAnchors self.anchors self.anchorsMatched start batch with ⟨verdict, matched⟩
    cases verdict with
    | error reason => rfl
    | ok done =>
      have hJudge :=
        judgeTip_withBatches
          { self with
            staged
            headersSeen := Word32.saturatingAdd self.headersSeen (UInt32.ofNat batch.length)
            anchorsMatched := matched }
          batchesSeen
      exact congrArg some hJudge

end

variable {headers : List BlockHeaderBytes}

section

variable (hActive : self.finished = false) (hNonempty : headers ≠ [])
include hActive hNonempty

theorem feed_exhausted
    (hSpent : self.budget.maxBatches ≤ self.batchesSeen ∨ self.budget.maxHeaders ≤ self.headersSeen)
      :
    self.feed headers =
      some (.incomplete (.budgetExhausted self.nextHeight self.headersSeen), self.finish) := by
  unfold feed
  rw [if_neg (Bool.eq_false_iff.mp hActive)]
  dsimp only
  rw [if_neg (by simpa using hNonempty), if_pos hSpent]

theorem feed_spent (hSpent : self.budget.maxHeaders ≤ self.headersSeen) :
    self.feed headers =
      some (.incomplete (.budgetExhausted self.nextHeight self.headersSeen), self.finish) :=
  feed_exhausted hActive hNonempty (Or.inr hSpent)

/- A call within the budgets replays the batch it takes. -/
theorem feed_active (hBatches : self.batchesSeen < self.budget.maxBatches)
    (hHeaders : self.headersSeen < self.budget.maxHeaders) :
    self.feed headers = (self.replayBatch self.nextHeight (headers.take (self.take headers))).map
        (fun (step, next) =>
          (step, next.withBatches (Word32.saturatingAdd self.batchesSeen 1))) := by
  have hBudget :
      ¬ (self.budget.maxBatches ≤ self.batchesSeen ∨ self.budget.maxHeaders ≤ self.headersSeen) :=
    not_or.mpr ⟨not_le.mpr hBatches, not_le.mpr hHeaders⟩
  rw [← replayBatch_withBatches]
  unfold feed
  rw [if_neg (Bool.eq_false_iff.mp hActive)]
  dsimp only
  rw [if_neg (by simpa using hNonempty), if_neg hBudget]
  rfl

end

--- Two Batches In A Row

omit [DecidableEq H] in
theorem height_after_front (height : UInt32) (count : Nat) :
    height + 1 + UInt32.ofNat count = height + UInt32.ofNat (count + 1) := by
  rw [UInt32.add_assoc, Nat.add_comm, UInt32.ofNat_add]
  rfl

theorem compareAnchors_append (anchors : BTreeMap UInt32 H) (matched : UInt64) (height : UInt32)
    (front back : List BlockHeaderBytes) :
    compareAnchors anchors matched height (front ++ back) =
      match compareAnchors anchors matched height front with
      | (.error reason, matched) => (.error reason, matched)
      | (.ok (), matched) =>
        compareAnchors anchors matched (height + UInt32.ofNat front.length) back := by
  induction front generalizing matched height with
  | nil =>
    have hSame : height + UInt32.ofNat 0 = height := UInt32.add_zero height
    rw [List.nil_append, List.length_nil, hSame]
    rfl
  | cons header front ih =>
    rw [List.cons_append, List.length_cons, ← height_after_front, compareAnchors_cons,
      compareAnchors_cons]
    cases anchors.get? height with
    | none => exact ih matched (height + 1)
    | some expected =>
      dsimp only
      by_cases hOther : headerLeaf header ≠ expected
      · rw [if_pos hOther, if_pos hOther]
      · rw [if_neg hOther, if_neg hOther]
        exact ih (matched + 1) (height + 1)

omit [Hash32 H] [DecidableEq H] in
/- A replay after a batch that was verified and matched. -/
def replayed (self : HistoricalReplay H) (staged : ShvMmrHeaderVerifier H) (count : Nat)
    (matched : UInt64) : HistoricalReplay H :=
  { self with
    staged
    headersSeen := Word32.saturatingAdd self.headersSeen (UInt32.ofNat count)
    anchorsMatched := matched }

variable {start : UInt32} {batch : List BlockHeaderBytes}

theorem replayBatch_of_refused {e : ShvMmrError H}
    (hFold : batch.foldlM ShvMmrHeaderVerifier.extendOne self.staged = .error (.returned e)) :
    answered (self.replayBatch start batch) = some none := by
  unfold replayBatch ShvMmrHeaderVerifier.extend
  rw [hFold]
  rfl

variable {staged : ShvMmrHeaderVerifier H} {matched : UInt64}

section

variable (hFold : batch.foldlM ShvMmrHeaderVerifier.extendOne self.staged = .ok staged)
include hFold

theorem replayBatch_of_mismatch {reason : DivergenceReason H}
    (hCompare :
        compareAnchors self.anchors self.anchorsMatched start batch = (.error reason, matched)) :
    answered (self.replayBatch start batch) = some none := by
  unfold replayBatch ShvMmrHeaderVerifier.extend
  rw [hFold]
  simp only [assign, matchAnchors_eq]
  rw [hCompare]
  rfl

theorem replayBatch_of_match
    (hCompare : compareAnchors self.anchors self.anchorsMatched start batch = (.ok (), matched)) :
    self.replayBatch start batch = some (self.replayed staged batch.length matched).judgeTip := by
  unfold replayBatch ShvMmrHeaderVerifier.extend
  rw [hFold]
  simp only [assign, matchAnchors_eq]
  rw [hCompare]
  rfl

end

omit [Hash32 H] [DecidableEq H] in
theorem replayed_replayed {staged' : ShvMmrHeaderVerifier H} {count count' : Nat}
    {matched' : UInt64} (hRoom : self.headersSeen.toNat + (count + count') < 2 ^ 32) :
    (self.replayed staged count matched).replayed staged' count' matched' =
      self.replayed staged' (count + count') matched' := by
  have hFirst :
      (Word32.saturatingAdd self.headersSeen (UInt32.ofNat count)).toNat =
        self.headersSeen.toNat + count :=
    Word32.toNat_saturatingAdd_ofNat (by omega)
  have hSeen :
      Word32.saturatingAdd (Word32.saturatingAdd self.headersSeen (UInt32.ofNat count))
          (UInt32.ofNat count') =
        Word32.saturatingAdd self.headersSeen (UInt32.ofNat (count + count')) := by
    apply UInt32.toNat_inj.mp
    rw [Word32.toNat_saturatingAdd_ofNat hRoom, Word32.toNat_saturatingAdd_ofNat (by omega), hFirst,
      Nat.add_assoc]
  unfold replayed
  dsimp only
  rw [hSeen]

/- Short of the target and the budget: more is asked for. -/
theorem judgeTip_of_short (hRun : ShvMmrHeaderVerifier.Run self.staged batch staged)
    (hNonempty : batch ≠ []) (hBelow : self.leafCount + batch.length ≤ self.target.height.toNat)
    (hUnspent : self.headersSeen.toNat + batch.length < self.budget.maxHeaders.toNat)
    (matched : UInt64) :
    (self.replayed staged batch.length matched).judgeTip =
      (.needHeaders (self.replayed staged batch.length matched).nextHeight,
        self.replayed staged batch.length matched) := by
  have hTarget := self.target.height.toNat_lt
  have hMax := self.budget.maxHeaders.toNat_lt
  have hSome := List.length_pos_iff.mpr hNonempty
  have hCount : staged.accumulator.leafCount = self.leafCount + batch.length := hRun.leafCount
  have hLast : self.leafCount + batch.length - 1 < 2 ^ 32 := by omega
  have hHeight :
      (UInt32.ofNat (self.leafCount + batch.length - 1)).toNat =
        self.leafCount + batch.length - 1 :=
    UInt32.toNat_ofNat_of_lt hLast
  rw [judgeTip_eq_needHeaders_iff]
  refine ⟨⟨rfl, rfl⟩, ?_, UInt32.ofNat (self.leafCount + batch.length - 1), ?_, ?_⟩
  · have hSeen :
        (Word32.saturatingAdd self.headersSeen (UInt32.ofNat batch.length)).toNat =
          self.headersSeen.toNat + batch.length :=
      Word32.toNat_saturatingAdd_ofNat (by omega)
    unfold replayed
    rw [UInt32.lt_iff_toNat_lt, hSeen]
    exact hUnspent
  · apply ShvMmrHeaderVerifier.tipHeight_of_leafCount
    unfold replayed
    rw [hHeight, hCount]
    omega
  · unfold replayed
    rw [UInt32.lt_iff_toNat_lt, hHeight]
    dsimp only
    omega

variable {front back : List BlockHeaderBytes}

/-
  A batch that stays short of the target and of the header budget is followed by the next one as
  if both were one.
-/
theorem replayBatch_append (hShaped : self.staged.accumulator.Shaped) (hFront : front ≠ [])
    (hBelow : self.leafCount + front.length ≤ self.target.height.toNat)
    (hUnspent : self.headersSeen.toNat + front.length < self.budget.maxHeaders.toNat)
    (hWithin : self.leafCount + (front ++ back).length < 2 ^ 64)
    (hBudget : self.headersSeen.toNat + (front ++ back).length ≤ self.budget.maxHeaders.toNat) :
    answered (self.replayBatch start (front ++ back)) = answered
        (ifMore (self.replayBatch start front)
          (fun next => next.replayBatch (start + UInt32.ofNat front.length) back)) := by
  have hMax := self.budget.maxHeaders.toNat_lt
  rw [List.length_append] at hBudget
  have hTotal := ShvMmrHeaderVerifier.extend_not_aborted hShaped hWithin
  have hFold :
      (front ++ back).foldlM ShvMmrHeaderVerifier.extendOne self.staged ≠ .error .aborted := by
    intro hAborted
    apply hTotal
    unfold ShvMmrHeaderVerifier.extend
    rw [hAborted]
    rfl
  have hSplit :
      (front ++ back).foldlM ShvMmrHeaderVerifier.extendOne self.staged =
        (front.foldlM ShvMmrHeaderVerifier.extendOne self.staged).bind
          (fun staged => back.foldlM ShvMmrHeaderVerifier.extendOne staged) :=
    List.foldlM_append
  have hAnchors := compareAnchors_append self.anchors self.anchorsMatched start front back
  cases hFoldFront : front.foldlM ShvMmrHeaderVerifier.extendOne self.staged with
  | error failure =>
    rw [hFoldFront] at hSplit
    cases failure with
    | aborted => exact absurd hSplit hFold
    | returned e =>
      rw [replayBatch_of_refused hSplit]
      unfold replayBatch ShvMmrHeaderVerifier.extend
      rw [hFoldFront]
      rfl
  | ok staged =>
    rw [hFoldFront] at hSplit
    have hRun := ShvMmrHeaderVerifier.run_of_foldlM hFoldFront
    rcases hCompare : compareAnchors self.anchors self.anchorsMatched start front with
      ⟨verdict, matched⟩
    rw [hCompare] at hAnchors
    cases verdict with
    | error reason =>
      -- Both diverge: in front, or already while verifying.
      have hRight :
          answered
              (ifMore (self.replayBatch start front)
                  (fun next => next.replayBatch (start + UInt32.ofNat front.length) back)) =
            some none := by
        unfold replayBatch ShvMmrHeaderVerifier.extend
        rw [hFoldFront]
        simp only [assign, matchAnchors_eq]
        rw [hCompare]
        rfl
      rw [hRight]
      cases hFoldBack : (front ++ back).foldlM ShvMmrHeaderVerifier.extendOne self.staged with
      | error failure =>
        cases failure with
        | aborted => exact absurd hFoldBack hFold
        | returned e => exact replayBatch_of_refused hFoldBack
      | ok final => exact replayBatch_of_mismatch hFoldBack hAnchors
    | ok done =>
      have hMid := replayBatch_of_match hFoldFront hCompare
      have hMore := judgeTip_of_short hRun hFront hBelow hUnspent matched
      rw [hMid, hMore]
      unfold ifMore
      dsimp only
      cases hFoldBack : back.foldlM ShvMmrHeaderVerifier.extendOne staged with
      | error failure =>
        have hWhole := hSplit.trans hFoldBack
        cases failure with
        | aborted => exact absurd hWhole hFold
        | returned e =>
          rw [replayBatch_of_refused hWhole]
          exact (replayBatch_of_refused hFoldBack).symm
      | ok final =>
        have hWhole := hSplit.trans hFoldBack
        rcases hCompareBack : compareAnchors self.anchors matched
          (start + UInt32.ofNat front.length) back with ⟨verdict, matched'⟩
        have hAll := hAnchors.trans hCompareBack
        cases verdict with
        | error reason =>
          rw [replayBatch_of_mismatch hWhole hAll]
          exact (replayBatch_of_mismatch hFoldBack hCompareBack).symm
        | ok done =>
          have hNext :
              (self.replayed staged front.length matched).replayBatch
                  (start + UInt32.ofNat front.length) back =
                some ((self.replayed staged front.length matched).replayed final back.length
                    matched').judgeTip :=
            replayBatch_of_match hFoldBack hCompareBack
          rw [replayBatch_of_match hWhole hAll, hNext, replayed_replayed (by omega),
            List.length_append]

--- Replays That Go On

/- A replay that still has headers to go. -/
structure Active (replay : HistoricalReplay H) : Prop where
  shaped : replay.staged.accumulator.Shaped
  unfinished : replay.finished = false
  below : replay.leafCount ≤ replay.target.height.toNat

/- Where a batch leads that asks for more. -/
theorem replayBatch_eq_needHeaders
    (hReplay : self.replayBatch start batch = some (.needHeaders fromHeight, next)) :
    ∃ staged matched,
    ShvMmrHeaderVerifier.Run self.staged batch staged ∧
      next = self.replayed staged batch.length matched ∧
      next.headersSeen < self.budget.maxHeaders ∧
      ∃ height, staged.tipHeight = .ok height ∧ height < self.target.height := by
  rcases hExtend : self.staged.extend batch with ⟨result, staged⟩
  cases result with
  | error failure =>
    unfold replayBatch at hReplay
    rw [hExtend] at hReplay
    cases failure with
    | aborted => cases hReplay
    | returned e => cases hReplay
  | ok done =>
    have hFold := ShvMmrHeaderVerifier.extend_eq_ok_iff.mp hExtend
    rcases hCompare : compareAnchors self.anchors self.anchorsMatched start batch with
      ⟨verdict, matched⟩
    cases verdict with
    | error reason =>
      have hMismatch := replayBatch_of_mismatch hFold hCompare
      rw [hReplay] at hMismatch
      cases hMismatch
    | ok done =>
      rw [replayBatch_of_match hFold hCompare] at hReplay
      rcases judgeTip_eq_needHeaders_iff.mp (Option.some.inj hReplay) with
        ⟨⟨rfl, -⟩, hUnspent, hBelow⟩
      exact ⟨staged, matched, ShvMmrHeaderVerifier.run_of_foldlM hFold, rfl, hUnspent, hBelow⟩

omit [Hash32 H] [DecidableEq H] in
theorem remainingBudget_toNat (hUnspent : self.headersSeen < self.budget.maxHeaders) :
    self.remainingBudget.toNat = self.budget.maxHeaders.toNat - self.headersSeen.toNat :=
  UInt32.toNat_sub_of_le _ _ hUnspent.le

/- A batch at the limits of a replay never asks for more. -/
theorem Active.short_of_needHeaders (hActive : Active self)
    (hUnspent : self.headersSeen < self.budget.maxHeaders)
    (hReplay :
        self.replayBatch start (headers.take (self.take headers)) =
          some (.needHeaders fromHeight, next)) :
    headers.length < min self.wanted.toNat self.remainingBudget.toNat := by
  have hTarget := self.target.height.toNat_lt
  have hMax := self.budget.maxHeaders.toNat_lt
  have hWanted := (wanted_toNat hActive.below).2
  have hRemaining := remainingBudget_toNat hUnspent
  have hTake := (take_le headers hActive.below).1
  rw [UInt32.lt_iff_toNat_lt] at hUnspent
  rcases replayBatch_eq_needHeaders hReplay with
    ⟨staged, matched, hRun, rfl, hNext, height, hTip, hLt⟩
  have hLength : (headers.take (self.take headers)).length = self.take headers := by
    rw [List.length_take, min_eq_left hTake]
  have hCount : height.toNat + 1 = self.leafCount + self.take headers := by
    have hLeaves := hRun.leafCount
    rw [ShvMmrHeaderVerifier.tipHeight_eq_ok hTip, hLength] at hLeaves
    exact hLeaves
  rw [UInt32.lt_iff_toNat_lt] at hLt
  have hTaken : self.take headers ≤ self.remainingBudget.toNat := min_le_right _ _
  have hSeen :
      (Word32.saturatingAdd self.headersSeen (UInt32.ofNat (self.take headers))).toNat =
        self.headersSeen.toNat + self.take headers :=
    Word32.toNat_saturatingAdd_ofNat (by omega)
  rw [UInt32.lt_iff_toNat_lt] at hNext
  unfold replayed at hNext
  dsimp only at hNext
  rw [hLength, hSeen] at hNext
  -- Reaching the target or the budget would contradict this.
  by_contra hLong
  have hLimit : self.take headers = min self.wanted.toNat self.remainingBudget.toNat := by
    unfold take
    omega
  omega

omit [DecidableEq H] in
theorem Active.of_needHeaders (hActive : Active self) {height : UInt32}
    (hRun : ShvMmrHeaderVerifier.Run self.staged batch staged)
    (hTip : staged.tipHeight = .ok height) (hLt : height < self.target.height)
    (batchesSeen : UInt32)
    (hNext : next = (self.replayed staged batch.length matched).withBatches batchesSeen) :
    Active next ∧ next.leafCount = self.leafCount + batch.length := by
  subst hNext
  rw [UInt32.lt_iff_toNat_lt] at hLt
  have hCount := ShvMmrHeaderVerifier.tipHeight_eq_ok hTip
  refine ⟨⟨?_, hActive.unfinished, ?_⟩, hRun.leafCount⟩
  · exact hActive.shaped.of_extendAll hRun.accumulator
  · have hBelow : staged.accumulator.leafCount ≤ self.target.height.toNat := by
      rw [hCount]
      exact hLt
    exact hBelow

omit [DecidableEq H] in
/-
  What the next batch may take is what one batch would have taken behind the first.
-/
theorem Active.take_append (hActive : Active self) (hNext : Active next)
    (hUnspent : self.headersSeen < self.budget.maxHeaders)
    (hUnspent' : next.headersSeen < next.budget.maxHeaders) (hTarget : next.target = self.target)
    (hBudget : next.budget = self.budget) (hCount : next.leafCount = self.leafCount + front.length)
    (hSeen : next.headersSeen.toNat = self.headersSeen.toNat + front.length) (hFront : front ≠ [])
    (hFits : front.length < min self.wanted.toNat self.remainingBudget.toNat)
    (back : List BlockHeaderBytes) : self.take (front ++ back) = front.length + next.take back := by
  have hWord := self.target.height.toNat_lt
  have hSome := List.length_pos_iff.mpr hFront
  have hBelow := hActive.below
  have hBelow' := hNext.below
  have hWanted := (wanted_toNat hActive.below).2
  have hWanted' := (wanted_toNat hNext.below).2
  have hRemaining := remainingBudget_toNat hUnspent
  have hRemaining' := remainingBudget_toNat hUnspent'
  rw [UInt32.lt_iff_toNat_lt] at hUnspent hUnspent'
  rw [hTarget] at hBelow'
  rw [hTarget, hCount] at hWanted'
  rw [hBudget, hSeen] at hRemaining'
  unfold take
  rw [List.length_append]
  omega

omit [Hash32 H] [DecidableEq H] in
theorem answered_withBatches (batchesSeen : UInt32) :
    answered (result.map (fun (step, next) => (step, next.withBatches batchesSeen))) =
      answered result := by
  unfold answered
  rw [Option.map_map]
  rfl

/- Where the next batch starts, and what it takes. -/
theorem Active.feed_next (hActive : Active self) (hFront : front ≠ []) (hBack : back ≠ [])
    (hUnspent : self.headersSeen < self.budget.maxHeaders)
    (hFits : front.length < min self.wanted.toNat self.remainingBudget.toNat) {batchesSeen : UInt32}
    (hReplay : self.replayBatch start front = some (.needHeaders fromHeight, next))
    (hBatches : batchesSeen < self.budget.maxBatches) :
    answered ((next.withBatches batchesSeen).feed back) = answered
        (next.replayBatch (self.nextHeight + UInt32.ofNat front.length)
          (back.take (self.take (front ++ back) - front.length))) := by
  have hWord := self.target.height.toNat_lt
  have hMax := self.budget.maxHeaders.toNat_lt
  have hRemaining := remainingBudget_toNat hUnspent
  rcases replayBatch_eq_needHeaders hReplay with
    ⟨staged, matched, hRun, hReplayed, hUnspent', height, hTip, hLt⟩
  rcases hActive.of_needHeaders hRun hTip hLt batchesSeen
    (congrArg (fun replay => replay.withBatches batchesSeen) hReplayed) with ⟨hNext, hCount⟩
  have hBelow := hNext.below
  have hTarget : (next.withBatches batchesSeen).target = self.target := by
    rw [hReplayed]
    rfl
  have hBudget : (next.withBatches batchesSeen).budget = self.budget := by
    rw [hReplayed]
    rfl
  have hSeen :
      (next.withBatches batchesSeen).headersSeen.toNat = self.headersSeen.toNat + front.length := by
    rw [hReplayed]
    apply Word32.toNat_saturatingAdd_ofNat
    omega
  have hTake :
      self.take (front ++ back) - front.length = (next.withBatches batchesSeen).take back := by
    rw [hActive.take_append hNext hUnspent
      (by rw [hBudget]; exact hUnspent') hTarget hBudget
      hCount hSeen hFront hFits back, Nat.add_sub_cancel_left]
  have hHeight :
      (next.withBatches batchesSeen).nextHeight = self.nextHeight + UInt32.ofNat front.length := by
    rw [hTarget] at hBelow
    have hLength : front.length < 2 ^ 32 := by omega
    have hOffset : (UInt32.ofNat front.length).toNat = front.length :=
      UInt32.toNat_ofNat_of_lt hLength
    apply UInt32.toNat_inj.mp
    rw [UInt32.toNat_add, hOffset, nextHeight_toNat (by omega), nextHeight_toNat (by omega), hCount,
      Nat.mod_eq_of_lt (by omega)]
  rw [feed_active hNext.unfinished hBack
      (by rw [hBudget]; exact hBatches)
      (by rw [hBudget]; exact hUnspent'), answered_withBatches, hHeight, ← hTake,
    replayBatch_withBatches, answered_withBatches]

/-
  Two batches in a row answer what their concatenation does, for as long as two more batches are
  allowed.
-/
theorem Active.feed_append (hActive : Active self) (hFront : front ≠ []) (hBack : back ≠ [])
    (hBatches : self.batchesSeen.toNat + 2 ≤ self.budget.maxBatches.toNat) :
    answered (self.feed (front ++ back)) =
      answered (ifMore (self.feed front) (fun next => next.feed back)) := by
  have hWhole : front ++ back ≠ [] := by simp [hFront]
  have hMaxBatches := self.budget.maxBatches.toNat_lt
  have hOne : (1 : UInt32).toNat = 1 := rfl
  by_cases hSpent : self.budget.maxHeaders ≤ self.headersSeen
  · rw [feed_spent hActive.unfinished hWhole hSpent, feed_spent hActive.unfinished hFront hSpent]
    rfl
  have hUnspent := not_le.mp hSpent
  have hFirst : self.batchesSeen < self.budget.maxBatches := by
    rw [UInt32.lt_iff_toNat_lt]
    omega
  have hSecond : Word32.saturatingAdd self.batchesSeen 1 < self.budget.maxBatches := by
    rw [UInt32.lt_iff_toNat_lt, Word32.toNat_saturatingAdd, hOne]
    omega
  rw [feed_active hActive.unfinished hWhole hFirst hUnspent,
    feed_active hActive.unfinished hFront hFirst hUnspent, answered_withBatches]
  by_cases hFits : front.length < min self.wanted.toNat self.remainingBudget.toNat
  · have hBelow := hActive.below
    have hWanted := (wanted_toNat hActive.below).2
    have hRemaining := remainingBudget_toNat hUnspent
    have hModulus := Nat.mod_le (self.target.height.toNat - self.leafCount + 1) (2 ^ 32)
    have hTakeFront : self.take front = front.length := by
      unfold take
      omega
    have hTakeWhole := take_le (front ++ back) hActive.below
    have hTakeBudget : self.take (front ++ back) ≤ self.remainingBudget.toNat := min_le_right _ _
    have hTakeLong : front.length ≤ self.take (front ++ back) := by
      unfold take
      rw [List.length_append]
      omega
    have hSplit :
        (front ++ back).take (self.take (front ++ back)) =
          front ++ back.take (self.take (front ++ back) - front.length) := by
      rw [List.take_append, List.take_of_length_le hTakeLong]
    have hLength := congrArg List.length hSplit
    rw [List.length_take, min_eq_left hTakeWhole.1] at hLength
    have hTarget := self.target.height.toNat_lt
    rw [UInt32.lt_iff_toNat_lt] at hUnspent
    rw [hTakeFront, List.take_length, hSplit,
      replayBatch_append hActive.shaped hFront (by omega) (by omega) (by omega) (by omega)]
    rw [← UInt32.lt_iff_toNat_lt] at hUnspent
    rcases hReplay : self.replayBatch self.nextHeight front with _ | ⟨step, next⟩
    · rfl
    · cases step with
      | needHeaders fromHeight =>
        exact (hActive.feed_next hFront hBack hUnspent hFits hReplay hSecond).symm
      | authenticated through matched => rfl
      | incomplete reason => rfl
      | diverged reason => rfl
  · -- The first batch reaches a limit and settles the answer.
    have hSame :
        (front ++ back).take (self.take (front ++ back)) = front.take (self.take front) := by
      have hTake : self.take (front ++ back) = self.take front := by
        unfold take
        rw [List.length_append]
        omega
      rw [hTake, List.take_append_of_le_length]
      exact (take_le front hActive.below).1
    rw [hSame]
    rcases hReplay : self.replayBatch self.nextHeight (front.take (self.take front)) with _ |
      ⟨step, next⟩
    · rfl
    · cases step with
      | needHeaders fromHeight => exact absurd (hActive.short_of_needHeaders hUnspent hReplay) hFits
      | authenticated through matched => rfl
      | incomplete reason => rfl
      | diverged reason => rfl

--- Any Number Of Batches

theorem Active.of_feed (hActive : Active self) (hNonempty : batch ≠ [])
    (hBatches : self.batchesSeen < self.budget.maxBatches)
    (hFeed : self.feed batch = some (.needHeaders fromHeight, next)) :
    Active next ∧
    next.batchesSeen = Word32.saturatingAdd self.batchesSeen 1 ∧
    next.budget = self.budget := by
  by_cases hSpent : self.budget.maxHeaders ≤ self.headersSeen
  · rw [feed_spent hActive.unfinished hNonempty hSpent] at hFeed
    cases hFeed
  · rw [feed_active hActive.unfinished hNonempty hBatches (not_le.mp hSpent)] at hFeed
    rcases Option.map_eq_some_iff.mp hFeed with ⟨⟨step, replay⟩, hReplay, hSame⟩
    cases hSame
    rcases replayBatch_eq_needHeaders hReplay with
      ⟨staged, matched, hRun, rfl, -, height, hTip, hLt⟩
    exact ⟨(hActive.of_needHeaders hRun hTip hLt _ rfl).1, rfl, rfl⟩

/- By induction over the batches, cutting off the first. -/
theorem Active.feedBatches_answer (hActive : Active self) {batches : List (List BlockHeaderBytes)}
    (hFirst : batch ≠ []) (hRest : ∀ other ∈ batches, other ≠ [])
    (hBudget : self.batchesSeen.toNat + (batches.length + 1) ≤ self.budget.maxBatches.toNat) :
    answered (self.feedBatches batch batches) =
      answered (self.feed (batch ++ batches.flatten)) := by
  induction batches generalizing self batch with
  | nil =>
    rw [List.flatten_nil, List.append_nil]
    rfl
  | cons second batches ih =>
    have hSecond := hRest second (List.mem_cons_self ..)
    have hMax := self.budget.maxBatches.toNat_lt
    rw [List.length_cons] at hBudget
    have hBack : second ++ batches.flatten ≠ [] := by simp [hSecond]
    rw [List.flatten_cons, hActive.feed_append hFirst hBack (by omega)]
    unfold feedBatches
    rcases hFeed : self.feed batch with _ | ⟨step, next⟩
    · rfl
    · cases step with
      | needHeaders fromHeight =>
        have hAllowed : self.batchesSeen < self.budget.maxBatches := by
          rw [UInt32.lt_iff_toNat_lt]
          omega
        rcases hActive.of_feed hFirst hAllowed hFeed with ⟨hNext, hCounted, hSame⟩
        have hOne : (1 : UInt32).toNat = 1 := rfl
        apply ih hNext hSecond
        · intro other hMem
          exact hRest other (List.mem_cons_of_mem _ hMem)
        · rw [hSame, hCounted, Word32.toNat_saturatingAdd, hOne]
          omega
      | authenticated through matched => rfl
      | incomplete reason => rfl
      | diverged reason => rfl

end HistoricalReplay

end OptnWallet
