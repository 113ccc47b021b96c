import OptnWallet.Core.HeaderMmr.Shape
import OptnWallet.Runtime.HeaderRecovery
import OptnWallet.Runtime.HeaderVerifier.Resume

/-
  The staged accumulator of a replay: what a batch can do to it, and what holds of it in every
  state that a host can reach by feeding, cancelling, encoding and restoring.

  A resume record chooses the accumulator that a replay continues from.  From there on every leaf
  comes from a header that was fed, and none lies past the target.

  Main declarations:
    * `HistoricalReplay.feed_cases`
    * `HistoricalReplay.Staged`
    * `HistoricalReplay.Reaches` and `Reaches.staged`
-/

--- Verifiers That Do Not Abort

namespace OptnWallet

open StagedUpdate

open MmrAccumulator

variable {H : Type} [Hash32 H] [DecidableEq H]

namespace ShvMmrHeaderVerifier

/- By induction over the batch: shapes can be appended to. -/
theorem extend_not_aborted {self : ShvMmrHeaderVerifier H} {headers : List BlockHeaderBytes}
    (hShaped : self.accumulator.Shaped)
    (hWord : self.accumulator.leafCount + headers.length < 2 ^ 64) :
    (self.extend headers).1 ≠ .error .aborted := by
  intro hAborted
  have hFold : headers.foldlM extendOne self = .error .aborted := by
    unfold extend at hAborted
    rcases hRun : headers.foldlM extendOne self with e | final
    · rw [hRun] at hAborted
      cases hAborted
      rfl
    · rw [hRun] at hAborted
      cases hAborted
  clear hAborted
  induction headers generalizing self with
  | nil => cases hFold
  | cons header headers ih =>
    rw [List.length_cons] at hWord
    rw [List.foldlM_cons] at hFold
    rcases hStep : self.extendOne header with e | next
    · rw [hStep] at hFold
      cases hFold
      unfold extendOne at hStep
      split at hStep
      · cases hStep
      · rename_i parsed hJudge
        unfold append at hStep
        rcases hShaped.extend parsed.hash (by omega) with ⟨accumulator, hExtend, -⟩
        rw [hExtend] at hStep
        cases hStep
    · rw [hStep] at hFold
      have hNext := extendOne_eq_ok hStep
      apply ih (hShaped.of_extend hNext.accumulator) _ hFold
      rw [leafCount_extend hNext.accumulator]
      omega

end ShvMmrHeaderVerifier

--- Heights And Counts

namespace HistoricalReplay

omit [Hash32 H] [DecidableEq H] in
/- Leaves of the staged accumulator. -/
def leafCount (self : HistoricalReplay H) : Nat := self.staged.accumulator.leafCount

variable {self : HistoricalReplay H}

omit [DecidableEq H] in
theorem nextHeight_toNat (hWord : self.leafCount < 2 ^ 32) :
    self.nextHeight.toNat = self.leafCount := by
  unfold nextHeight ShvMmrHeaderVerifier.state
  cases hTip : self.staged.tipHeight with
  | ok height =>
    have hCount : self.leafCount = height.toNat + 1 := ShvMmrHeaderVerifier.tipHeight_eq_ok hTip
    have hOne : (1 : UInt32).toNat = 1 := rfl
    dsimp only
    rw [Word32.toNat_saturatingAdd, hOne, hCount, min_eq_left]
    omega
  | error e =>
    unfold ShvMmrHeaderVerifier.tipHeight at hTip
    split at hTip
    · rename_i hEmpty
      exact hEmpty.symm
    · split at hTip
      · rename_i hNone
        rw [Word32.tryFrom_eq_none_iff] at hNone
        unfold leafCount at hWord
        omega
      · cases hTip

omit [DecidableEq H] in
/-
  The replay never starts above its target, so that `wanted` does not underflow; it can wrap to
  zero at the last word.
-/
theorem wanted_toNat (hCount : self.leafCount ≤ self.target.height.toNat) :
    self.nextHeight ≤ self.target.height ∧
    self.wanted.toNat = (self.target.height.toNat - self.leafCount + 1) % 2 ^ 32 := by
  have hWord := self.target.height.toNat_lt
  have hNext : self.nextHeight.toNat = self.leafCount := nextHeight_toNat (by omega)
  have hLe : self.nextHeight ≤ self.target.height := by
    rw [UInt32.le_iff_toNat_le, hNext]
    exact hCount
  refine ⟨hLe, ?_⟩
  unfold wanted
  rw [UInt32.toNat_add, UInt32.toNat_sub_of_le _ _ hLe, hNext]
  rfl

omit [DecidableEq H] in
theorem take_le (headers : List BlockHeaderBytes)
    (hCount : self.leafCount ≤ self.target.height.toNat) :
    self.take headers ≤ headers.length ∧
    self.leafCount + self.take headers ≤ self.target.height.toNat + 1 := by
  have hWanted := (wanted_toNat hCount).2
  have hMod := Nat.mod_le (self.target.height.toNat - self.leafCount + 1) (2 ^ 32)
  unfold take
  omega

--- What A Batch Can Do

/- The comparison of anchors, as a run over its counter. -/
def compareAnchors (anchors : BTreeMap UInt32 H) :
    UInt64 → UInt32 → List BlockHeaderBytes → Outcome (DivergenceReason H) UInt64
  | matched, _, [] => (.ok (), matched)
  | matched, height, header :: headers =>
    match anchors.get? height with
    | none => compareAnchors anchors matched (height + 1) headers
    | some expected =>
      if headerLeaf header ≠ expected then
        (.error (.anchorMismatch height expected (headerLeaf header)), matched)
      else compareAnchors anchors (matched + 1) (height + 1) headers

theorem compareAnchors_cons (anchors : BTreeMap UInt32 H) (matched : UInt64) (height : UInt32)
    (header : BlockHeaderBytes) (headers : List BlockHeaderBytes) :
    compareAnchors anchors matched height (header :: headers) =
      match anchors.get? height with
      | none => compareAnchors anchors matched (height + 1) headers
      | some expected =>
        if headerLeaf header ≠ expected then
          (.error (.anchorMismatch height expected (headerLeaf header)), matched)
        else compareAnchors anchors (matched + 1) (height + 1)
            headers := rfl

/- It reads the anchors and moves nothing but the counter. -/
theorem matchAnchors_eq (self : HistoricalReplay H) (height : UInt32)
    (headers : List BlockHeaderBytes) :
    self.matchAnchors height headers =
      ((compareAnchors self.anchors self.anchorsMatched height headers).1,
        { self with
          anchorsMatched :=
            (compareAnchors self.anchors self.anchorsMatched height headers).2 }) := by
  induction headers generalizing self height with
  | nil => rfl
  | cons header headers ih =>
    rw [compareAnchors_cons]
    unfold matchAnchors
    cases self.anchors.get? height with
    | none => exact ih self (height + 1)
    | some expected =>
      dsimp only
      by_cases hOther : headerLeaf header ≠ expected
      · rw [if_pos hOther, if_pos hOther]
      · rw [if_neg hOther, if_neg hOther]
        exact ih _ (height + 1)

variable {next : HistoricalReplay H} {headers : List BlockHeaderBytes}

theorem matchAnchors_staged {height : UInt32} {result : Except (DivergenceReason H) Unit}
    (hMatch : self.matchAnchors height headers = (result, next)) :
    next.staged = self.staged ∧ next.target = self.target := by
  rw [matchAnchors_eq] at hMatch
  cases hMatch
  exact ⟨rfl, rfl⟩

/- What the final judgement of a batch says. -/
structure JudgedTip (replay : HistoricalReplay H) (step : ReplayStep H)
    (next : HistoricalReplay H) : Prop where
  staged : next.staged = replay.staged
  target : next.target = replay.target
  unfinished :
    next.finished = false →
    ∃ height, replay.staged.tipHeight = .ok height ∧ height < replay.target.height
  authenticated :
    ∀ through matched,
    step = .authenticated through matched → through = replay.target.height ∧
        replay.staged.accumulator.root = replay.target.commitment ∧
        ∃ height, replay.staged.tipHeight = .ok height ∧ replay.target.height ≤ height

theorem judgeTip_spec (self : HistoricalReplay H) :
    JudgedTip self self.judgeTip.1 self.judgeTip.2 := by
  unfold judgeTip
  cases hState : self.staged.state with
  | error e =>
    constructor
    · rfl
    · rfl
    · intro hUnfinished
      cases hUnfinished
    · intro through matched hStep
      cases hStep
  | ok state =>
    rcases ShvMmrHeaderVerifier.state_eq_ok hState with ⟨hTip, -, hRoot⟩
    dsimp only
    by_cases hBelow : state.height < self.target.height
    · rw [if_pos hBelow]
      by_cases hSpent : self.budget.maxHeaders ≤ self.headersSeen
      · rw [if_pos hSpent]
        constructor
        · rfl
        · rfl
        · intro hUnfinished
          cases hUnfinished
        · intro through matched hStep
          cases hStep
      · rw [if_neg hSpent]
        constructor
        · rfl
        · rfl
        · intro hUnfinished
          exact ⟨state.height, hTip, hBelow⟩
        · intro through matched hStep
          cases hStep
    · rw [if_neg hBelow]
      by_cases hOther : state.commitment ≠ self.target.commitment
      · rw [if_pos hOther]
        constructor
        · rfl
        · rfl
        · intro hUnfinished
          cases hUnfinished
        · intro through matched hStep
          cases hStep
      · rw [if_neg hOther]
        constructor
        · rfl
        · rfl
        · intro hUnfinished
          cases hUnfinished
        · intro through matched hStep
          cases hStep
          rw [not_not, hRoot] at hOther
          exact ⟨rfl, hOther, state.height, hTip, not_lt.mp hBelow⟩

/- A call that ends the replay where it stands. -/
structure Stopped (replay : HistoricalReplay H) (step : ReplayStep H) (next : HistoricalReplay H) :
    Prop where
  staged : next.staged = replay.staged
  target : next.target = replay.target
  finished : next.finished = true
  unanswered : ∀ through matched, step ≠ .authenticated through matched

/- A call that moves the staged verifier on. -/
structure Advanced (replay : HistoricalReplay H) (headers : List BlockHeaderBytes)
    (step : ReplayStep H) (next : HistoricalReplay H) : Prop where
  active : replay.finished = false
  extended : replay.staged.extend (headers.take (replay.take headers)) = (.ok (), next.staged)
  target : next.target = replay.target
  unfinished :
    next.finished = false →
    ∃ height, next.staged.tipHeight = .ok height ∧ height < replay.target.height
  authenticated :
    ∀ through matched,
    step = .authenticated through matched → through = replay.target.height ∧
        next.staged.accumulator.root = replay.target.commitment ∧
        ∃ height, next.staged.tipHeight = .ok height ∧ replay.target.height ≤ height

variable {step : ReplayStep H}

/- Every answer to a batch either stops or advances. -/
theorem feed_cases (hFeed : self.feed headers = some (step, next)) :
    Stopped self step next ∨ Advanced self headers step next := by
  unfold feed at hFeed
  by_cases hFinished : self.finished = true
  · rw [if_pos hFinished] at hFeed
    cases hFeed
    left
    refine ⟨rfl, rfl, hFinished, ?_⟩
    intro through matched hStep
    cases hStep
  rw [if_neg hFinished] at hFeed
  dsimp only at hFeed
  split at hFeed
  · cases hFeed
    left
    refine ⟨rfl, rfl, rfl, ?_⟩
    intro through matched hStep
    cases hStep
  split at hFeed
  · cases hFeed
    left
    refine ⟨rfl, rfl, rfl, ?_⟩
    intro through matched hStep
    cases hStep
  unfold replayBatch at hFeed
  split at hFeed
  · cases hFeed
  · rename_i e staged hExtend
    cases hFeed
    left
    refine ⟨ShvMmrHeaderVerifier.extend_eq_error hExtend, rfl, rfl, ?_⟩
    intro through matched hStep
    cases hStep
  · rename_i staged hExtend
    right
    dsimp only at hFeed
    split at hFeed
    · rename_i reason other hMatch
      rcases matchAnchors_staged hMatch with ⟨hVerifier, hOther⟩
      cases hFeed
      refine ⟨Bool.eq_false_iff.mpr hFinished, ?_, hOther, ?_, ?_⟩
      · rw [hExtend]
        exact congrArg (Prod.mk _) hVerifier.symm
      · intro hUnfinished
        cases hUnfinished
      · intro through matched hStep
        cases hStep
    · rename_i other hMatch
      rcases matchAnchors_staged hMatch with ⟨hVerifier, hOther⟩
      have hJudged := judgeTip_spec other
      rw [Option.some.inj hFeed] at hJudged
      have hStaged : next.staged = staged := hJudged.staged.trans hVerifier
      have hTarget : next.target = self.target := hJudged.target.trans hOther
      refine ⟨Bool.eq_false_iff.mpr hFinished, ?_, hTarget, ?_, ?_⟩
      · rw [hStaged]
        exact hExtend
      · intro hUnfinished
        have hBelow := hJudged.unfinished hUnfinished
        rw [hVerifier, hOther] at hBelow
        rw [hStaged]
        exact hBelow
      · intro through matched hStep
        have hAnswer := hJudged.authenticated through matched hStep
        rw [hVerifier, hOther] at hAnswer
        rw [hStaged]
        exact hAnswer

--- The Staged Accumulator

/-
  The headers of a batch that went into the accumulator: as many from its front as it has gained
  leaves.
-/
def fedBy (self next : HistoricalReplay H) (headers : List BlockHeaderBytes) :
    List BlockHeaderBytes := headers.take (next.leafCount - self.leafCount)

/-
  The staged accumulator is `start` with the leaves of `fed` behind it.  It ends at the target,
  and before the target for as long as the replay goes on.
-/
structure Staged (start : MmrAccumulator H) (fed : List BlockHeaderBytes)
    (replay : HistoricalReplay H) : Prop where
  shaped : start.Shaped
  accumulator : start.extendAll (fed.map headerLeaf) = some replay.staged.accumulator
  within : replay.leafCount ≤ replay.target.height.toNat + 1
  unfinished : replay.finished = false → replay.leafCount ≤ replay.target.height.toNat

variable {start : MmrAccumulator H} {fed : List BlockHeaderBytes} {replay : HistoricalReplay H}

omit [DecidableEq H] in
theorem Staged.current (hStaged : Staged start fed replay) : replay.staged.accumulator.Shaped :=
  hStaged.shaped.of_extendAll hStaged.accumulator

/- What an advancing batch adds. -/
theorem Advanced.run (hAdvanced : Advanced self headers step next)
    (hCount : self.leafCount ≤ self.target.height.toNat) :
    ShvMmrHeaderVerifier.Run self.staged (fedBy self next headers) next.staged ∧
    next.leafCount ≤ self.target.height.toNat + 1 := by
  have hRun := ShvMmrHeaderVerifier.extend_run hAdvanced.extended
  have hLeaves := hRun.leafCount
  have hTake := take_le headers hCount
  rw [List.length_take, min_eq_left hTake.1] at hLeaves
  have hGained : next.leafCount = self.leafCount + self.take headers := hLeaves
  constructor
  · unfold fedBy
    rw [hGained, Nat.add_sub_cancel_left]
    exact hRun
  · rw [hGained]
    exact hTake.2

/- Step: a batch keeps the description. -/
theorem Staged.feed (hStaged : Staged start fed self)
    (hFeed : self.feed headers = some (step, next)) :
    Staged start (fed ++ fedBy self next headers) next := by
  rcases feed_cases hFeed with hStopped | hAdvanced
  · have hCount : next.leafCount = self.leafCount := by
      unfold leafCount
      rw [hStopped.staged]
    constructor
    · exact hStaged.shaped
    · unfold fedBy
      rw [hCount, Nat.sub_self, List.take_zero, List.append_nil, hStopped.staged]
      exact hStaged.accumulator
    · rw [hCount, hStopped.target]
      exact hStaged.within
    · intro hUnfinished
      rw [hStopped.finished] at hUnfinished
      cases hUnfinished
  · have hBelow := hStaged.unfinished hAdvanced.active
    rcases hAdvanced.run hBelow with ⟨hRun, hWithin⟩
    constructor
    · exact hStaged.shaped
    · have hFront := hStaged.accumulator
      have hBack := hRun.accumulator
      unfold MmrAccumulator.extendAll at hFront hBack ⊢
      rw [List.map_append, List.foldlM_append, hFront]
      exact hBack
    · rw [hAdvanced.target]
      exact hWithin
    · intro hUnfinished
      rcases hAdvanced.unfinished hUnfinished with ⟨height, hTip, hLt⟩
      have hCount : next.leafCount = height.toNat + 1 := ShvMmrHeaderVerifier.tipHeight_eq_ok hTip
      rw [UInt32.lt_iff_toNat_lt] at hLt
      rw [hAdvanced.target, hCount]
      exact hLt

omit [DecidableEq H] in
theorem Staged.cancel (hStaged : Staged start fed replay) : Staged start fed replay.cancel.2 := by
  refine ⟨hStaged.shaped, hStaged.accumulator, hStaged.within, ?_⟩
  intro hUnfinished
  cases hUnfinished

variable {network : Network} {target : AcceptedCommitment H} {anchors : BTreeMap UInt32 H}
variable {budget : ReplayBudget}

omit [DecidableEq H] in
theorem staged_begin (hBegin : HistoricalReplay.begin network target anchors budget = .ok replay) :
    Staged .new [] replay := by
  unfold HistoricalReplay.begin at hBegin
  split at hBegin
  · cases hBegin
  · split at hBegin
    · cases hBegin
    · dsimp only at hBegin
      split at hBegin
      · cases hBegin
      · cases hBegin
        refine ⟨shaped_new, rfl, Nat.zero_le _, ?_⟩
        intro _
        exact Nat.zero_le _

variable {codec : SerdeJson (ReplayResume H)} {json : String}

/- The parts of a resume record that a replay starts from. -/
theorem restore_eq_ok (hRestore : restore codec json network target anchors budget = .ok replay) :
    ∃ record,
    codec.fromStr json = some record ∧ record.height < target.height ∧
      replay.target = target ∧
      replay.leafCount = record.height.toNat + 1 ∧
      replay.staged.accumulator.Shaped ∧
      replay.staged.accumulator.root = record.commitment := by
  unfold restore at hRestore
  split at hRestore
  · cases hRestore
  · split at hRestore
    · cases hRestore
    · rename_i record hRead
      split at hRestore
      · cases hRestore
      · split at hRestore
        · cases hRestore
        · rename_i hBelow
          split at hRestore
          · cases hRestore
          · split at hRestore
            · cases hRestore
            · rename_i staged hStaged
              cases hRestore
              rcases ShvMmrHeaderVerifier.fromCheckpointProof_eq_ok_iff.mp hStaged with
                ⟨-, accumulator, hBoot, hRoot, rfl⟩
              rcases shape_of_bootstrap hBoot with ⟨hCount, hPeaks⟩
              have hWord := record.height.toNat_lt
              refine ⟨record, hRead, not_le.mp hBelow, rfl, hCount, ⟨?_, ?_⟩, hRoot⟩
              · have hLeaves : accumulator.leafCount < 2 ^ 64 := by
                  rw [hCount]
                  omega
                exact hLeaves
              · have hShape :
                    accumulator.peaks.length = Word64.countOnes accumulator.leafCount := by
                  rw [hPeaks, hCount]
                exact hShape

omit [DecidableEq H] in
theorem encode_eq_ok (hEncode : replay.encode codec = .ok json) :
    ∃ record,
    codec.toString record = some json ∧ replay.staged.tipHeight = .ok record.height ∧
      record.commitment = replay.staged.accumulator.root := by
  unfold encode at hEncode
  split at hEncode
  · cases hEncode
  · rename_i state hState
    rcases ShvMmrHeaderVerifier.state_eq_ok hState with ⟨hTip, -, hRoot⟩
    split at hEncode
    · cases hEncode
    · dsimp only at hEncode
      split at hEncode
      · cases hEncode
      · rename_i written hWritten
        cases hEncode
        exact ⟨_, hWritten, hTip, hRoot⟩

--- Every Interleaving

/-
  The replays that a host can hold, with the accumulator they started from and the headers
  replayed since.  A record from anywhere starts a replay at whatever it restores to; one that the
  replay itself encoded continues it.  Target, anchors and budget are the host's at every restore.
-/
inductive Reaches (codec : SerdeJson (ReplayResume H)) :
    MmrAccumulator H → List BlockHeaderBytes → HistoricalReplay H → Prop where
  | begin {network : Network} {target : AcceptedCommitment H} {anchors : BTreeMap UInt32 H}
      {budget : ReplayBudget}
      {replay : HistoricalReplay H}
      (hBegin : HistoricalReplay.begin network target anchors budget = .ok replay) :
      Reaches codec .new [] replay
  | restore {json : String} {network : Network} {target : AcceptedCommitment H}
      {anchors : BTreeMap UInt32 H}
      {budget : ReplayBudget}
      {replay : HistoricalReplay H}
      (hRestore : restore codec json network target anchors budget = .ok replay) :
      Reaches codec replay.staged.accumulator [] replay
  | resume {start : MmrAccumulator H} {fed : List BlockHeaderBytes}
      {replay replay' : HistoricalReplay H}
      {json : String}
      {network : Network}
      {target : AcceptedCommitment H}
      {anchors : BTreeMap UInt32 H}
      {budget : ReplayBudget}
      (hReaches : Reaches codec start fed replay)
      (hEncode : replay.encode codec = .ok json)
      (hRestore : HistoricalReplay.restore codec json network target anchors budget = .ok replay') :
      Reaches codec start fed replay'
  | feed {start : MmrAccumulator H} {fed : List BlockHeaderBytes}
      {replay replay' : HistoricalReplay H}
      {headers : List BlockHeaderBytes}
      {step : ReplayStep H}
      (hReaches : Reaches codec start fed replay)
      (hFeed : replay.feed headers = some (step, replay')) :
      Reaches codec start (fed ++ fedBy replay replay' headers) replay'
  | cancel {start : MmrAccumulator H} {fed : List BlockHeaderBytes} {replay : HistoricalReplay H}
      (hReaches : Reaches codec start fed replay) :
      Reaches codec start fed replay.cancel.2

/- Step: a record of its own continues the same replay. -/
theorem Staged.resume (hPair : Function.Injective2 (sha256dPair : H → H → H))
    (hRoundTrips : codec.RoundTrips) {replay' : HistoricalReplay H}
    (hStaged : Staged start fed replay) (hEncode : replay.encode codec = .ok json)
    (hRestore : restore codec json network target anchors budget = .ok replay') :
    Staged start fed replay' := by
  rcases encode_eq_ok hEncode with ⟨written, hWritten, hTip, hWrittenRoot⟩
  rcases restore_eq_ok hRestore with ⟨record, hRead, hBelow, hTarget, hCount, hShaped, hRoot⟩
  rw [hRoundTrips _ _ hWritten] at hRead
  cases hRead
  have hWrittenCount := ShvMmrHeaderVerifier.tipHeight_eq_ok hTip
  have hSame : replay'.staged.accumulator = replay.staged.accumulator := by
    apply eq_of_root_eq hPair _ hShaped.peakCount hStaged.current.peakCount
    · rw [hRoot, hWrittenRoot]
    · rw [hWrittenCount]
      exact hCount
  have hWithin : replay'.leafCount ≤ replay'.target.height.toNat := by
    rw [UInt32.lt_iff_toNat_lt] at hBelow
    rw [hCount, hTarget]
    exact hBelow
  refine ⟨hStaged.shaped, ?_, by omega, fun _ => hWithin⟩
  rw [hSame]
  exact hStaged.accumulator

theorem staged_restore (hRestore : restore codec json network target anchors budget = .ok replay) :
    Staged replay.staged.accumulator [] replay := by
  rcases restore_eq_ok hRestore with ⟨record, -, hBelow, hTarget, hCount, hShaped, -⟩
  have hWithin : replay.leafCount ≤ replay.target.height.toNat := by
    rw [UInt32.lt_iff_toNat_lt] at hBelow
    rw [hCount, hTarget]
    exact hBelow
  exact ⟨hShaped, rfl, by omega, fun _ => hWithin⟩

/- Run: by induction over the interleaving. -/
theorem Reaches.staged (hPair : Function.Injective2 (sha256dPair : H → H → H))
    (hRoundTrips : codec.RoundTrips) (hReaches : Reaches codec start fed replay) :
    Staged start fed replay := by
  induction hReaches with
  | begin hBegin => exact staged_begin hBegin
  | restore hRestore => exact staged_restore hRestore
  | resume hReaches hEncode hRestore ih => exact ih.resume hPair hRoundTrips hEncode hRestore
  | feed hReaches hFeed ih => exact ih.feed hFeed
  | cancel hReaches ih => exact ih.cancel

end HistoricalReplay

end OptnWallet
