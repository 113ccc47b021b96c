import OptnWallet.Core.HeaderTime.Lookups
import OptnWallet.Runtime.HeaderView.Batches

/-
  The time index of a running view: what the anchors of a view that has seen a sequence of headers
  record, and that headers which obey the median-time rule are never refused by it.

  Main declarations:
    * `VerifiedHeaderView.recordAnchor_eq`
    * `VerifiedHeaderView.Indexed`
    * `VerifiedHeaderView.timeIndex_accepts`
-/

--- Anchors That Are Due

namespace OptnWallet

open StagedUpdate

variable {H : Type}

/- The anchor that a block would leave, if one falls on it. -/
def dueAnchor (anchorInterval : UInt32) (window : List UInt32) (height : Nat) (blockHash : H) :
    Option (HeaderAnchor H) :=
  if window.length < medianTimeSpan then none
  else
    match Word32.tryFrom height with
    | none => none
    | some height =>
      if height % anchorInterval ≠ 0 then none
      else (medianTimePast window).map
          (fun median => { height, blockHash, medianTimePast := median, trust := .authenticated })

variable {anchorInterval : UInt32} {blockHash : H}

theorem dueAnchor_eq_some {window : List UInt32} {height : Nat} {anchor : HeaderAnchor H}
    (hDue : dueAnchor anchorInterval window height blockHash = some anchor) :
    medianTimeSpan ≤ window.length ∧
    anchor.height.toNat = height ∧
    anchor.height % anchorInterval = 0 ∧
    medianTimePast window = some anchor.medianTimePast ∧
    anchor.trust = .authenticated := by
  unfold dueAnchor at hDue
  split at hDue
  · cases hDue
  · rename_i hFull
    split at hDue
    · cases hDue
    · rename_i word hWord
      split at hDue
      · cases hDue
      · rename_i hMultiple
        rcases Option.map_eq_some_iff.mp hDue with ⟨median, hMedian, rfl⟩
        exact ⟨not_lt.mp hFull, Word32.tryFrom_eq_some hWord, not_not.mp hMultiple, hMedian, rfl⟩

namespace VerifiedHeaderView

/-
  One block slides the window, and inserts the anchor that is due unless its median is the newest
  one already.
-/
theorem recordAnchor_eq (self : VerifiedHeaderView H) (height : Nat) (blockHash : H)
    (timestamp : UInt32) :
    self.recordAnchor height blockHash timestamp =
      let window := slideWindow self.window timestamp
      match dueAnchor self.anchorInterval window height
          blockHash with
      | none => (.ok (), { self with window })
      | some anchor =>
        if ∃ last ∈ self.times.newest,
            anchor.medianTimePast =
              last.medianTimePast then
          (.ok (), { self with window })
        else ((self.times.insert anchor).1.mapError .timeIndex,
            { self with
              window
              times := (self.times.insert anchor).2 }) := by
  unfold recordAnchor dueAnchor
  dsimp only
  by_cases hShort : (slideWindow self.window timestamp).length < medianTimeSpan
  · rw [if_pos hShort, if_pos hShort]
  rw [if_neg hShort, if_neg hShort]
  cases Word32.tryFrom height with
  | none => rfl
  | some word =>
    dsimp only
    by_cases hOff : word % self.anchorInterval ≠ 0
    · rw [if_pos hOff, if_pos hOff]
    rw [if_neg hOff, if_neg hOff]
    cases medianTimePast (slideWindow self.window timestamp) with
    | none => rfl
    | some median =>
      cases self.times.newest with
      | none => simp
      | some last => simp

end VerifiedHeaderView

--- What The Index Records

theorem slideWindow_lastSpan (seen : List UInt32) (timestamp : UInt32) :
    VerifiedHeaderView.slideWindow (lastSpan seen) timestamp = lastSpan (seen ++ [timestamp]) := by
  unfold VerifiedHeaderView.slideWindow
  rw [length_lastSpan]
  split
  · unfold lastSpan
    rw [List.tail_drop, List.length_append, List.length_singleton, List.drop_append_of_le_length]
    · congr 2
      omega
    · unfold medianTimeSpan
      omega
  · unfold lastSpan
    rw [List.length_append, List.length_singleton]
    have hShort : seen.length < medianTimeSpan := by omega
    rw [Nat.sub_eq_zero_of_le hShort.le, Nat.sub_eq_zero_of_le hShort]
    rfl

variable {seen : List UInt32}

/- The median of a full window is that of the whole chain. -/
theorem medianTimePast_lastSpan (hFull : medianTimeSpan ≤ (lastSpan seen).length) :
    medianTimePast (lastSpan seen) = medianTimePast seen := by
  have hSplit := List.take_append_drop (seen.length - medianTimeSpan) seen
  nth_rewrite 2 [← hSplit]
  exact (medianTimePast_append hFull).symm

/-
  An anchor recorded from the timestamps `seen` above `start` blocks: it carries the median of the
  eleven blocks up to its height.
-/
def RecordedFrom (start : Nat) (seen : List UInt32) (anchor : HeaderAnchor H) : Prop :=
  anchor.isAuthenticated = true ∧
  ∃ count,
    medianTimeSpan ≤ count ∧ count ≤ seen.length ∧
      anchor.height.toNat + 1 = start + count ∧
      medianTimePast (seen.take count) = some anchor.medianTimePast

variable {start : Nat}

theorem RecordedFrom.snoc {anchor : HeaderAnchor H} (hRecorded : RecordedFrom start seen anchor)
    (timestamp : UInt32) : RecordedFrom start (seen ++ [timestamp]) anchor := by
  rcases hRecorded with ⟨hTrust, count, hFull, hSeen, hHeight, hMedian⟩
  refine ⟨hTrust, count, hFull, ?_, hHeight, ?_⟩
  · rw [List.length_append]
    omega
  · rw [List.take_append_of_le_length hSeen]
    exact hMedian

theorem recordedFrom_of_due {timestamp : UInt32} {due : HeaderAnchor H}
    (hDue :
        dueAnchor anchorInterval (lastSpan (seen ++ [timestamp])) (start + seen.length) blockHash =
          some due) : RecordedFrom start (seen ++ [timestamp]) due := by
  rcases dueAnchor_eq_some hDue with ⟨hFull, hHeight, -, hMedian, hTrust⟩
  refine
    ⟨by simp [HeaderAnchor.isAuthenticated, hTrust],
      (seen ++ [timestamp]).length, ?_, le_rfl, ?_, ?_⟩
  · rw [length_lastSpan] at hFull
    omega
  · rw [hHeight, List.length_append, List.length_singleton]
    omega
  · rw [List.take_length, ← medianTimePast_lastSpan hFull]
    exact hMedian

/-
  Recorded anchors stay below what a block that obeys the median-time rule leaves.
-/
theorem precedes_of_recordedFrom {before : List UInt32} {timestamp : UInt32}
    {due last : HeaderAnchor H} (hRule : ObeysMedianRule before (seen ++ [timestamp]))
    (hDue :
      dueAnchor anchorInterval (lastSpan (seen ++ [timestamp])) (start + seen.length) blockHash =
        some due) (hLast : RecordedFrom start seen last) : last.Precedes due := by
  rcases dueAnchor_eq_some hDue with ⟨hFull, hHeight, -, hMedian, -⟩
  rcases hLast with ⟨-, count, hCount, hSeen, hLastHeight, hLastMedian⟩
  have hTake : (seen ++ [timestamp]).take count = seen.take count :=
    List.take_append_of_le_length hSeen
  have hLong : medianTimeSpan ≤ (seen.take count).length := by
    rw [List.length_take]
    omega
  constructor
  · rw [UInt32.lt_iff_toNat_lt, hHeight]
    omega
  · rw [medianTimePast_lastSpan hFull] at hMedian
    have hEarlier :
        medianTimePast (before ++ (seen ++ [timestamp]).take count) = some last.medianTimePast := by
      rw [hTake, medianTimePast_append hLong]
      exact hLastMedian
    have hLater :
        medianTimePast (before ++ (seen ++ [timestamp]).take (seen ++ [timestamp]).length) =
          some due.medianTimePast := by
      rw [List.take_length, medianTimePast_append]
      · exact hMedian
      · rw [length_lastSpan] at hFull
        omega
    refine hRule.medianTime_mono ?_ ?_ le_rfl hEarlier hLater
    · rw [List.length_append, hTake]
      omega
    · rw [List.length_append]
      omega

namespace VerifiedHeaderView

/-
  What `base` has become after recording the timestamps `seen` above `start` blocks: it keeps
  anchors it had, adds recorded ones, and its newest median never falls.
-/
structure Indexed (base : VerifiedHeaderView H) (start : Nat) (seen : List UInt32)
    (view : VerifiedHeaderView H) : Prop where
  interval : view.anchorInterval = base.anchorInterval
  window : view.window = lastSpan seen
  ordered : view.times.Ordered
  anchors :
    ∀ anchor ∈ view.times.anchors, anchor ∈ base.times.anchors ∨ RecordedFrom start seen anchor
  newest :
    ∀ last ∈ base.times.newest,
    ∃ anchor ∈ view.times.newest, last.medianTimePast ≤ anchor.medianTimePast

variable {base : VerifiedHeaderView H}

theorem indexed_self (hWindow : base.window = []) (hOrdered : base.times.Ordered) (start : Nat) :
    Indexed base start [] base := by
  constructor
  · rfl
  · exact hWindow
  · exact hOrdered
  · intro anchor hMem
    exact Or.inl hMem
  · intro last hLast
    exact ⟨last, hLast, le_rfl⟩

variable {start : Nat} {seen : List UInt32} {view : VerifiedHeaderView H}

theorem Indexed.setVerifier (hIndexed : Indexed base start seen view)
    (verifier : ShvMmrHeaderVerifier H) : Indexed base start seen (view.setVerifier verifier) :=
  ⟨hIndexed.interval, hIndexed.window, hIndexed.ordered, hIndexed.anchors, hIndexed.newest⟩

/- The anchor that the next block would leave. -/
def nextDue (base : VerifiedHeaderView H) (start : Nat) (seen : List UInt32) (timestamp : UInt32)
    (blockHash : H) : Option (HeaderAnchor H) :=
  dueAnchor base.anchorInterval (lastSpan (seen ++ [timestamp])) (start + seen.length) blockHash

variable {view' : VerifiedHeaderView H} {blockHash : H} {timestamp : UInt32}

section

variable (hIndexed : Indexed base start seen view)
variable (hRecord : view.recordAnchor (start + seen.length) blockHash timestamp = (.ok (), view'))
include hIndexed hRecord

/-
  Step: one block slides the window, and then either no anchor is due, or its median is the newest
  one already, or it is inserted above all others.
-/
theorem Indexed.recordAnchor_cases :
    (view' = { view with window := lastSpan (seen ++ [timestamp]) } ∧
      ∀ due ∈ nextDue base start seen timestamp blockHash,
        ∃ last ∈ view.times.newest, due.medianTimePast = last.medianTimePast) ∨
    ∃ due,
      nextDue base start seen timestamp blockHash = some due ∧
        (∀ last, view.times.newest = some last → last.Precedes due) ∧
        view' =
          { view with
            window := lastSpan (seen ++ [timestamp])
            times := view.times.push due } := by
  rw [recordAnchor_eq, hIndexed.window, slideWindow_lastSpan] at hRecord
  dsimp only at hRecord
  unfold nextDue
  rw [← hIndexed.interval]
  split at hRecord
  · rename_i hNone
    cases hRecord
    left
    refine ⟨rfl, ?_⟩
    intro due hDue
    rw [hNone] at hDue
    cases hDue
  · rename_i due hDue
    split at hRecord
    · rename_i hRepeated
      cases hRecord
      left
      refine ⟨rfl, ?_⟩
      intro other hOther
      rw [hDue] at hOther
      cases hOther
      exact hRepeated
    · rcases hInsert : view.times.insert due with ⟨result, times⟩
      rw [hInsert] at hRecord
      cases result with
      | error e => cases hRecord
      | ok done =>
        cases hRecord
        rcases SparseHeaderIndex.insert_eq_ok_iff.mp hInsert with ⟨rfl, hAbove⟩
        right
        exact ⟨due, hDue, hAbove, rfl⟩

/- Recording the next block keeps the description. -/
theorem Indexed.recordAnchor : Indexed base start (seen ++ [timestamp]) view' := by
  have hKept :
      ∀ anchor ∈ view.times.anchors,
      anchor ∈ base.times.anchors ∨ RecordedFrom start (seen ++ [timestamp]) anchor := by
    intro anchor hMem
    rcases hIndexed.anchors anchor hMem with hBase | hRecorded
    · exact Or.inl hBase
    · exact Or.inr (hRecorded.snoc timestamp)
  rcases hIndexed.recordAnchor_cases hRecord with ⟨rfl, -⟩ | ⟨due, hDue, hAbove, rfl⟩
  · exact ⟨hIndexed.interval, rfl, hIndexed.ordered, hKept, hIndexed.newest⟩
  · refine ⟨hIndexed.interval, rfl, hIndexed.ordered.push hAbove, ?_, ?_⟩
    · intro anchor hMem
      rcases SparseHeaderIndex.mem_push.mp hMem with hOld | rfl
      · exact hKept anchor hOld
      · exact Or.inr (recordedFrom_of_due hDue)
    · intro last hLast
      rcases hIndexed.newest last hLast with ⟨old, hOld, hLe⟩
      refine ⟨due, SparseHeaderIndex.newest_push _ _, ?_⟩
      exact hLe.trans (hAbove old hOld).2

/- The newest median of the base bounds what is recorded. -/
theorem Indexed.base_le_due {last due : HeaderAnchor H} (hLast : base.times.newest = some last)
    (hDue : nextDue base start seen timestamp blockHash = some due) :
    last.medianTimePast ≤ due.medianTimePast := by
  rcases hIndexed.newest last hLast with ⟨newest, hNewest, hLe⟩
  rcases hIndexed.recordAnchor_cases hRecord with ⟨-, hRepeated⟩ | ⟨other, hOther, hAbove, -⟩
  · rcases hRepeated due hDue with ⟨same, hSame, hEq⟩
    rw [hSame] at hNewest
    cases hNewest
    rw [hEq]
    exact hLe
  · rw [hDue] at hOther
    cases hOther
    exact hLe.trans (hAbove newest hNewest).2

end

/-
  Progress: a block that obeys the median-time rule is recorded, when the anchors of the base
  precede the one that is due.
-/
theorem Indexed.recordAnchor_isOk (hIndexed : Indexed base start seen view) {before : List UInt32}
    (hRule : ObeysMedianRule before (seen ++ [timestamp]))
    (hBase : ∀ anchor ∈ base.times.anchors, ∀ due ∈ nextDue base start seen timestamp blockHash,
        anchor.Precedes due) :
    ∃ view', view.recordAnchor (start + seen.length) blockHash timestamp = (.ok (), view') := by
  rw [recordAnchor_eq, hIndexed.window, slideWindow_lastSpan, hIndexed.interval]
  dsimp only
  split
  · exact ⟨_, rfl⟩
  · rename_i due hDue
    split
    · exact ⟨_, rfl⟩
    · have hAbove : ∀ last, view.times.newest = some last → last.Precedes due := by
        intro last hNewest
        rcases hIndexed.anchors last (List.mem_of_getLast? hNewest) with hOld | hRecorded
        · exact hBase last hOld due hDue
        · exact precedes_of_recordedFrom hRule hDue hRecorded
      have hInsert := SparseHeaderIndex.insert_eq_ok_iff.mpr ⟨rfl, hAbove⟩
      rw [hInsert]
      exact ⟨_, rfl⟩

--- Runs

variable [Hash32 H]

/-
  What holds of every header of a batch, the timestamps in front of it and the anchor that it
  would leave.
-/
def ForEachDue (base : VerifiedHeaderView H) (start : Nat) (seen : List UInt32)
    (headers : List BlockHeaderBytes) (Holds : HeaderAnchor H → Prop) : Prop :=
  ∀ front header back,
    headers = front ++ header :: back → ∀ due ∈
          nextDue base start (seen ++ front.map headerTimestamp) (headerTimestamp header)
            (headerLeaf header), Holds due

variable {headers : List BlockHeaderBytes}

theorem forEachDue_cons_iff {header : BlockHeaderBytes} {Holds : HeaderAnchor H → Prop} :
    ForEachDue base start seen (header :: headers) Holds ↔
    (∀ due ∈ nextDue base start seen (headerTimestamp header) (headerLeaf header), Holds due) ∧
      ForEachDue base start (seen ++ [headerTimestamp header]) headers Holds := by
  constructor
  · intro hAll
    constructor
    · have hHead := hAll [] header headers rfl
      rw [List.map_nil, List.append_nil] at hHead
      exact hHead
    · intro front other back hSplit
      have hTail := hAll (header :: front) other back (by rw [hSplit, List.cons_append])
      rw [List.map_cons] at hTail
      rw [List.append_assoc, List.singleton_append]
      exact hTail
  · rintro ⟨hHead, hTail⟩ front other back hSplit
    cases front with
    | nil =>
      cases hSplit
      rw [List.map_nil, List.append_nil]
      exact hHead
    | cons first front =>
      cases hSplit
      have hRest := hTail front other back rfl
      rw [List.append_assoc, List.singleton_append] at hRest
      exact hRest

theorem length_snoc (start : Nat) (seen : List UInt32) (timestamp : UInt32) :
    start + (seen ++ [timestamp]).length = start + seen.length + 1 := by
  rw [List.length_append, List.length_singleton]
  omega

/- Run: by induction over the headers, one step at a time. -/
theorem Indexed.recordAnchors (hIndexed : Indexed base start seen view)
    (hRecord : view.recordAnchors (start + seen.length) headers = .ok view') :
    Indexed base start (seen ++ headers.map headerTimestamp) view' ∧
    ∀ last,
      base.times.newest = some last → ForEachDue base start seen headers
          (fun due => last.medianTimePast ≤ due.medianTimePast) := by
  induction headers generalizing view seen with
  | nil =>
    cases hRecord
    rw [List.map_nil, List.append_nil]
    refine ⟨hIndexed, ?_⟩
    intro last hLast front header back hSplit
    simp at hSplit
  | cons header headers ih =>
    rw [recordAnchors_cons] at hRecord
    rcases hStep : view.recordAnchor (start + seen.length) (headerLeaf header)
      (headerTimestamp header) with ⟨result, next⟩
    rw [hStep] at hRecord
    cases result with
    | error e => cases hRecord
    | ok done =>
      have hNext := hIndexed.recordAnchor hStep
      dsimp only at hRecord
      rw [← length_snoc start seen (headerTimestamp header)] at hRecord
      rcases ih hNext hRecord with ⟨hRest, hAbove⟩
      constructor
      · rw [List.map_cons]
        rw [List.append_assoc, List.singleton_append] at hRest
        exact hRest
      · intro last hLast
        rw [forEachDue_cons_iff]
        refine ⟨?_, hAbove last hLast⟩
        intro due hDue
        exact hIndexed.base_le_due hStep hLast hDue

theorem Indexed.recordAnchors_isOk (hIndexed : Indexed base start seen view) {before : List UInt32}
    (hRule : ObeysMedianRule before (seen ++ headers.map headerTimestamp))
    (hBase : ∀ anchor ∈ base.times.anchors, ForEachDue base start seen headers anchor.Precedes) :
    ∃ view', view.recordAnchors (start + seen.length) headers = .ok view' := by
  induction headers generalizing view seen with
  | nil => exact ⟨view, rfl⟩
  | cons header headers ih =>
    rw [List.map_cons, ← List.singleton_append, ← List.append_assoc] at hRule
    have hHead :
        ∀ anchor ∈ base.times.anchors,
        ∀ due ∈ nextDue base start seen (headerTimestamp header) (headerLeaf header),
          anchor.Precedes due := by
      intro anchor hMem
      exact (forEachDue_cons_iff.mp (hBase anchor hMem)).1
    rcases hIndexed.recordAnchor_isOk hRule.append_left hHead with ⟨next, hStep⟩
    have hTail :
        ∀ anchor ∈ base.times.anchors,
        ForEachDue base start (seen ++ [headerTimestamp header]) headers anchor.Precedes := by
      intro anchor hMem
      exact (forEachDue_cons_iff.mp (hBase anchor hMem)).2
    rcases ih (hIndexed.recordAnchor hStep) hRule hTail with ⟨view', hRest⟩
    refine ⟨view', ?_⟩
    rw [recordAnchors_cons, hStep]
    rw [length_snoc] at hRest
    exact hRest

variable [DecidableEq H]

/-
  The view that a new one has become after batches that all succeeded.
-/
def ReachedBy (network : Network) (verifier : ShvMmrHeaderVerifier H) (anchorInterval : UInt32)
    (batches : List (List BlockHeaderBytes)) (view : VerifiedHeaderView H) : Prop :=
  feedAll extend (withAnchorInterval network verifier anchorInterval) batches = .ok view

theorem ReachedBy.indexed {network : Network} {verifier : ShvMmrHeaderVerifier H}
    {anchorInterval : UInt32} {batches : List (List BlockHeaderBytes)}
    (hReached : ReachedBy network verifier anchorInterval batches view) :
    Indexed (withAnchorInterval network verifier anchorInterval) verifier.accumulator.leafCount
      (batches.flatten.map headerTimestamp) view ∧
    view.verifier.accumulator.leafCount =
      verifier.accumulator.leafCount + batches.flatten.length := by
  have hStart :
      Indexed (withAnchorInterval network verifier anchorInterval) verifier.accumulator.leafCount []
        (withAnchorInterval network verifier anchorInterval) :=
    indexed_self rfl SparseHeaderIndex.ordered_new _
  have hExtend := ((extend_atomic_and_splits _).2 batches view).mp hReached
  by_cases hNonempty : batches.flatten = []
  · rw [hNonempty, extend_nil] at hExtend
    cases hExtend
    rw [hNonempty]
    exact ⟨hStart, rfl⟩
  · rcases (extend_eq_ok_iff hNonempty).mp hExtend with ⟨-, verifier', hFold, hRecord⟩
    have hRun := ShvMmrHeaderVerifier.run_of_foldlM hFold
    have hIndexed := ((hStart.setVerifier verifier').recordAnchors hRecord).1
    constructor
    · rw [List.nil_append] at hIndexed
      exact hIndexed
    · rw [verifier_of_recordAnchors hRecord]
      exact hRun.leafCount

/-
  Medians of full windows never fall along a chain that obeys the median-time rule, and a view
  that has seen such a chain never refuses its next batch for the time index.
-/
theorem timeIndex_accepts :
    (∀ times :
        List UInt32, ObeysMedianRule [] times → ∀ height height' median median',
            medianTimeSpan ≤ height + 1 → height ≤ height' →
              height' < times.length →
              chainMedianTime times height = some median →
              chainMedianTime times height' = some median' →
              median ≤ median') ∧
    ∀ (network : Network) (verifier : ShvMmrHeaderVerifier H) (anchorInterval : UInt32)
        (batches : List (List BlockHeaderBytes)) (view : VerifiedHeaderView H)
        (before : List UInt32) (batch : List BlockHeaderBytes),
      ReachedBy network verifier anchorInterval batches view →
        ObeysMedianRule before (batches.flatten.map headerTimestamp ++ batch.map headerTimestamp) →
        ∀ e view', view.extend batch ≠ (.error (.returned (.timeIndex e)), view') := by
  constructor
  · intro times hRule height height' median median' hFull hLe hBound hEarlier hLater
    exact chainMedianTime_mono hRule hFull hLe hBound hEarlier hLater
  · intro network verifier anchorInterval batches view before batch hReached hRule e view' hError
    rcases hReached.indexed with ⟨hIndexed, hCount⟩
    rcases extend_eq_timeIndex hError with ⟨verifier', -, hRecord⟩
    -- A new view has no anchors to begin with.
    have hBase :
        ∀ anchor ∈ (withAnchorInterval network verifier anchorInterval).times.anchors,
        ForEachDue (withAnchorInterval network verifier anchorInterval)
          verifier.accumulator.leafCount (batches.flatten.map headerTimestamp) batch
          anchor.Precedes := by
      intro anchor hMem
      cases hMem
    rcases (hIndexed.setVerifier verifier').recordAnchors_isOk hRule hBase with ⟨next, hOk⟩
    rw [hCount, ← List.length_map headerTimestamp] at hRecord
    rw [hRecord] at hOk
    cases hOk

--- A History That Breaks The Rule

/-
  Times, nonces and digests of thirteen mined headers.  The first is late and the twelfth early,
  against the rule, so that the last one obeys it below an earlier median.
-/
def fallingHeaders : List (Nat × Nat × Nat) :=
  [(1000, 1, 0x271e6e26a2ea61dcc0bc3ca6af661a38dc831667565071d51a2ef269a92cd440),
    (10, 0, 0x63af1994b47b0ec7bf6f031648b9117e8d87c6bd2efc32496c28bac0282125b3),
    (20, 1, 0x22ea1ad9940adde9147ae34f42644e003cd66f6d17126d585648e681bd73946f),
    (30, 0, 0x00ca82195e75ce9a2f7e12a1149848237a395d93150137a7ad2537368dec5cd0),
    (40, 1, 0x6ddbd7e760a4341e80e1610ffffb6d67199149821184fc7b978251897919e8eb),
    (50, 0, 0x5a5c1e8de5fbf81497973f19769840502c36a3c7b2b15ca7c9407314d83450e0),
    (60, 0, 0x7edeecba0e4c2ea3a0d585e2d08cbcb96a1121a874fb4b21616f8b76bf6f83ce),
    (70, 2, 0x1e63136a90f15c6a57d197e8dac6534170bd2e0e35bd793c0aede630d010b5a7),
    (80, 0, 0x05272e0f82a4bcc34894f3939de49443312fe2446d00ab623a4b213be68c7680),
    (90, 2, 0x0f548626135977898b4c029e4d6bae5d87760862065cc0f36ca67c75be236e00),
    (100, 0, 0x70b2d81d3a3383e60fd7f1237f3682f6e654073cd551742294fefa24bb465802),
    (1, 2, 0x75895a72b852fba3d565fd0f6daaabb13d8ff0eee80a3d03969434ca7c1e160f),
    (51, 1, 0x060f1eb94cae1f31c48e4ef1a012aec8a5714f90cfe25fd322db931847c41e38)
  ]

abbrev FallingHash : Type := RecordedHash (fallingHeaders.map (fun (_, _, digest) => digest))

def fallingChain : List BlockHeaderBytes := regtestChain 0 0 fallingHeaders

/-
  The verifier does not check the rule, so that a history against it can leave an anchor above a
  later median: the next block obeys the rule, is verified and is refused.
-/
theorem timeIndex_refuses_after_broken_rule :
    ∃ view : VerifiedHeaderView FallingHash,
    ReachedBy .regtest (.empty .selfDerived) 2 [fallingChain.take 12] view ∧
      (view.verifier.extend (fallingChain.drop 12)).1 = .ok () ∧
      ObeysMedianRule ((fallingChain.take 12).map headerTimestamp)
        ((fallingChain.drop 12).map headerTimestamp) ∧
      (view.extend (fallingChain.drop 12)).1 =
        .error (.returned (.timeIndex (.medianTimeWentBackwards 60 51))) := by
  have hRun :
      ∃ view : VerifiedHeaderView FallingHash,
      feedAll extend (withAnchorInterval .regtest (.empty .selfDerived) 2) [fallingChain.take 12] =
          .ok view ∧
        (view.verifier.extend (fallingChain.drop 12)).1 = .ok () ∧
        (view.extend (fallingChain.drop 12)).1 =
          .error (.returned (.timeIndex (.medianTimeWentBackwards 60 51))) :=
    exists_ok_of_check (by decide +kernel)
  rcases hRun with ⟨view, hReached, hVerified, hRefused⟩
  exact ⟨view, hReached, hVerified, by decide +kernel, hRefused⟩

--- What Anchors Name

inductive ViewOperation where
  | extend (headers : List BlockHeaderBytes)
  | pruneBelow (height : UInt32)
  | rewindTo (height : UInt32)

/- The view after an operation, and the leaves of the headers that were taken. -/
def after (state : VerifiedHeaderView H × List H) :
    ViewOperation → VerifiedHeaderView H × List H
  | .extend headers =>
    match state.1.extend headers with
    | (.ok (), view) => (view, state.2 ++ headers.map headerLeaf)
    | (.error _, view) => (view, state.2)
  | .pruneBelow height => (state.1.pruneBelow height, state.2)
  | .rewindTo height => (state.1.rewindTo height, state.2)

/- Each anchor names the leaf at its height. -/
structure Named (leaves : List H) (view : VerifiedHeaderView H) : Prop where
  ordered : view.times.Ordered
  anchors : ∀ anchor ∈ view.times.anchors, leaves[anchor.height.toNat]? = some anchor.blockHash

variable {leaves : List H} {height : Nat}

omit [Hash32 H] [DecidableEq H] in
theorem blockHash_of_due {interval : UInt32} {window : List UInt32} {due : HeaderAnchor H}
    (hDue : dueAnchor interval window height blockHash = some due) : due.blockHash = blockHash := by
  unfold dueAnchor at hDue
  split at hDue
  · cases hDue
  split at hDue
  · cases hDue
  split at hDue
  · cases hDue
  · rcases Option.map_eq_some_iff.mp hDue with ⟨median, -, rfl⟩
    rfl

omit [Hash32 H] [DecidableEq H] in
theorem Named.recordAnchor (hNamed : Named leaves view)
    (hRecord : view.recordAnchor height blockHash timestamp = (.ok (), view'))
    (hLeaf : leaves[height]? = some blockHash) : Named leaves view' := by
  rw [recordAnchor_eq] at hRecord
  dsimp only at hRecord
  split at hRecord
  · cases hRecord
    exact ⟨hNamed.ordered, hNamed.anchors⟩
  · rename_i due hDue
    split at hRecord
    · cases hRecord
      exact ⟨hNamed.ordered, hNamed.anchors⟩
    · rcases hInsert : view.times.insert due with ⟨result, times⟩
      rw [hInsert] at hRecord
      cases result with
      | error e => cases hRecord
      | ok done =>
        cases hRecord
        rcases SparseHeaderIndex.insert_eq_ok_iff.mp hInsert with ⟨rfl, hAbove⟩
        refine ⟨hNamed.ordered.push hAbove, ?_⟩
        intro anchor hMem
        rcases SparseHeaderIndex.mem_push.mp hMem with hOld | rfl
        · exact hNamed.anchors anchor hOld
        · rw [(dueAnchor_eq_some hDue).2.1, blockHash_of_due hDue]
          exact hLeaf

/- By induction over the headers, whose leaves follow the height. -/
omit [DecidableEq H] in
theorem Named.recordAnchors (hNamed : Named leaves view)
    (hRecord : view.recordAnchors height headers = .ok view')
    (hLeaves : leaves.drop height = headers.map headerLeaf) : Named leaves view' := by
  induction headers generalizing view height with
  | nil =>
    cases hRecord
    exact hNamed
  | cons header headers ih =>
    rw [recordAnchors_cons] at hRecord
    split at hRecord
    · cases hRecord
    · rename_i next hStep
      have hFirst := congrArg List.head? hLeaves
      rw [List.head?_drop] at hFirst
      have hRest := congrArg List.tail hLeaves
      rw [List.tail_drop] at hRest
      exact ih (hNamed.recordAnchor hStep hFirst) hRecord hRest

/- The accumulator commits to the leaves that the anchors name. -/
structure NamesChain (state : VerifiedHeaderView H × List H) : Prop where
  represents : MmrAccumulator.Represents state.1.verifier.accumulator state.2
  named : Named state.2 state.1

theorem NamesChain.extend (hNames : NamesChain (view, leaves))
    (hExtend : view.extend headers = (.ok (), view')) :
    NamesChain (view', leaves ++ headers.map headerLeaf) := by
  by_cases hEmpty : headers = []
  · subst hEmpty
    cases hExtend
    rw [List.map_nil, List.append_nil]
    exact hNames
  rcases (extend_eq_ok_iff hEmpty).mp hExtend with ⟨-, verifier, hVerified, hRecord⟩
  have hRun :=
    ShvMmrHeaderVerifier.extend_run (ShvMmrHeaderVerifier.extend_eq_ok_iff.mpr hVerified)
  constructor
  · rw [verifier_of_recordAnchors hRecord]
    exact hNames.represents.extendAll hRun.accumulator
  · have hNamed : Named (leaves ++ headers.map headerLeaf) (view.setVerifier verifier) := by
      refine ⟨hNames.named.ordered, ?_⟩
      intro anchor hMem
      have hOld := hNames.named.anchors anchor hMem
      rw [List.getElem?_append_left (List.getElem?_eq_some_iff.mp hOld).1]
      exact hOld
    apply hNamed.recordAnchors hRecord
    rw [hNames.represents.leafCount, List.drop_left]

/- One operation keeps it, whether it is refused or not. -/
theorem NamesChain.after {state : VerifiedHeaderView H × List H} (hNames : NamesChain state)
    (operation : ViewOperation) : NamesChain (after state operation) := by
  cases operation with
  | extend headers =>
    unfold VerifiedHeaderView.after
    dsimp only
    split
    · rename_i hExtend
      exact hNames.extend hExtend
    · rename_i hExtend
      rw [extend_eq_error hExtend]
      exact hNames
  | pruneBelow height =>
    refine ⟨hNames.represents, hNames.named.ordered.filter _, ?_⟩
    exact fun anchor hMem => hNames.named.anchors anchor (List.mem_of_mem_filter hMem)
  | rewindTo height =>
    refine ⟨hNames.represents, hNames.named.ordered.filter _, ?_⟩
    exact fun anchor hMem => hNames.named.anchors anchor (List.mem_of_mem_filter hMem)

/-
  However a view is extended, pruned and rewound, its accumulator commits to the headers that it
  took, and its anchors and locators name blocks of that chain, none above the height asked for.
-/
theorem anchors_name_chain {verifier : ShvMmrHeaderVerifier H} {before : List H}
    (hBefore : MmrAccumulator.Represents verifier.accumulator before) (network : Network)
    (anchorInterval : UInt32) (operations : List ViewOperation) :
    Runs.EachState after
      (fun state => NamesChain state ∧ ∀ height : UInt32,
            ∀ hash ∈ state.1.getheadersLocator height,
              ∃ position ≤ height.toNat, state.2[position]? = some hash)
      (withAnchorInterval network verifier anchorInterval, before) operations := by
  have hNew : NamesChain (withAnchorInterval network verifier anchorInterval, before) :=
    ⟨hBefore, SparseHeaderIndex.ordered_new, fun _ hMem => by cases hMem⟩
  intro done rest hSplit
  have hNames :
      NamesChain
        (done.foldl after (withAnchorInterval network verifier anchorInterval, before)) := by
    clear hSplit
    induction done using List.reverseRecOn with
    | nil => exact hNew
    | append_singleton done operation ih =>
      rw [List.foldl_concat]
      exact ih.after operation
  refine ⟨hNames, ?_⟩
  intro height hash hMem
  rcases SparseHeaderIndex.mem_locator hNames.named.ordered hMem with ⟨anchor, hAnchor, hLe, rfl⟩
  exact ⟨anchor.height.toNat, hLe, hNames.named.anchors anchor hAnchor⟩

theorem anchors_name_chain_regtest :
    NamesChain
      ([.extend fallingChain, .pruneBelow 11, .rewindTo 12].foldl after
        (withAnchorInterval .regtest (.empty .selfDerived : ShvMmrHeaderVerifier FallingHash) 2,
          [])) :=
  (anchors_name_chain MmrAccumulator.represents_new .regtest 2
      [.extend fallingChain, .pruneBelow 11, .rewindTo 12] _ [] (List.append_nil _).symm).1

end VerifiedHeaderView

end OptnWallet
