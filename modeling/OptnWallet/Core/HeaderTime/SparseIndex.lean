import OptnWallet.Core.HeaderPow
import OptnWallet.Library.SortedLists
import OptnWallet.Library.StagedUpdate
import OptnWallet.Library.Words

/-
  Median-time-past along a chain and the sparse index of retained anchors: height-for-time search
  and `getheaders` locators.

  The consensus rule forces every timestamp above the median of its predecessors, so that sliding
  the full window never lowers the median, whatever the timestamps themselves do.

  Main declarations:
    * `medianTimePast` and `ObeysMedianRule.medianTime_mono`
    * `SparseHeaderIndex.insert` and `insert_eq_ok_iff`
    * `SparseHeaderIndex.locator` and `mem_locator`
    * `SparseHeaderIndex.conservativeHeightForTime` and `conservativeHeight_spec`
    * `SparseHeaderIndex.authenticate`
-/

--- Median-Time-Past

namespace OptnWallet

open StagedUpdate

/- Blocks in the median-time-past window. -/
def medianTimeSpan : Nat := 11

/- Dense entries of a locator before its gaps widen. -/
def locatorDenseEntries : Nat := 10

/- The median of the last `medianTimeSpan` samples. -/
def medianTimePast (times : List UInt32) : Option UInt32 :=
  if times.isEmpty then none
  else
    let window := min times.length medianTimeSpan
    let recent := (times.drop (times.length - window)).insertionSort (· ≤ ·)
    recent[recent.length / 2]?

/- The time field of a serialized header. -/
def headerTimestamp (header : BlockHeaderBytes) : UInt32 := header.wordAt 68

--- Anchors

inductive AnchorTrust where
  | authenticated
  | provisional
deriving DecidableEq

structure HeaderAnchor (H : Type) where
  height : UInt32
  blockHash : H
  medianTimePast : UInt32
  trust : AnchorTrust
deriving DecidableEq

variable {H : Type}

def HeaderAnchor.isAuthenticated (anchor : HeaderAnchor H) : Bool :=
  match anchor.trust with
  | .authenticated => true
  | .provisional => false

inductive HeaderIndexError where
  | heightWentBackwards (last offered : UInt32)
  | medianTimeWentBackwards (last offered : UInt32)
  | noAnchorAtHeight (height : UInt32)
  | medianTimeMismatch (height stored recomputed : UInt32)
deriving DecidableEq

inductive TimeLookup where
  | height (height : UInt32)
  | beforeIndex (oldestHeight oldestMedianTimePast : UInt32)
  | unauthenticated (retainedAnchors : Nat)
  | empty
deriving DecidableEq

/- The retained anchors, from the oldest to the newest. -/
structure SparseHeaderIndex (H : Type) where
  anchors : List (HeaderAnchor H)
deriving DecidableEq

namespace SparseHeaderIndex

def new : SparseHeaderIndex H := { anchors := [] }

section

variable (index : SparseHeaderIndex H)

def oldest : Option (HeaderAnchor H) := index.anchors.head?

def newest : Option (HeaderAnchor H) := index.anchors.getLast?

def push (anchor : HeaderAnchor H) : SparseHeaderIndex H :=
  { index with anchors := index.anchors ++ [anchor] }

end

variable (index : SparseHeaderIndex H)

/-
  Append an anchor, unless its height does not grow or its median falls.
-/
def insert (anchor : HeaderAnchor H) : Outcome HeaderIndexError (SparseHeaderIndex H) :=
  match index.newest with
  | none => (.ok (), index.push anchor)
  | some last =>
    if anchor.height ≤ last.height then
      (.error (.heightWentBackwards last.height anchor.height), index)
    else if anchor.medianTimePast < last.medianTimePast then
      (.error (.medianTimeWentBackwards last.medianTimePast anchor.medianTimePast), index)
    else (.ok (), index.push anchor)

/- Drop the anchors below `height`. -/
def pruneBelow (index : SparseHeaderIndex H) (height : UInt32) : SparseHeaderIndex H :=
  { anchors := index.anchors.filter (fun anchor => height ≤ anchor.height) }

/- Drop the anchors at or above `height`. -/
def rewindTo (index : SparseHeaderIndex H) (height : UInt32) : SparseHeaderIndex H :=
  { anchors := index.anchors.filter (fun anchor => anchor.height < height) }

--- Lookups By Height

section

variable (index : SparseHeaderIndex H) (height : UInt32)

/- The anchor recorded exactly at `height`. -/
def anchorAt : Option (HeaderAnchor H) :=
  match Bisection.binarySearch index.anchors
      (fun anchor => compareOfLessAndEq anchor.height height) with
  | .ok position => index.anchors[position]?
  | .error _ => none

/- How many anchors lie at or below `height`. -/
def countAtOrBelow : Nat :=
  Bisection.partitionPoint index.anchors (fun anchor => anchor.height ≤ height)

/- The newest anchor at or below `height`. -/
def anchorAtOrBelow : Option (HeaderAnchor H) :=
  let position := index.countAtOrBelow height
  if 0 < position then index.anchors[position - 1]? else none

end

/-
  Walk down from `position` by `step` anchors at a time; the step doubles once enough entries are
  taken.  Every round but the last lowers the position, so `position + 1` rounds suffice.
-/
def locatorLoop (anchors : List (HeaderAnchor H)) : Nat → Nat → Nat → Nat → List H
  | 0, _, _, _ => []
  | fuel + 1, position, step, taken =>
    match anchors[position]? with
    | none => []
    | some anchor =>
      let taken := taken + 1
      if position = 0 then [anchor.blockHash]
      else
        let step :=
          if locatorDenseEntries < taken then min (step * 2) (2 ^ 64 - 1)
          else step
        anchor.blockHash :: locatorLoop anchors fuel (position - step) step taken

/- Hashes to ask a peer with, newest first. -/
def locator (index : SparseHeaderIndex H) (height : UInt32) : List H :=
  let stop := index.countAtOrBelow height
  if stop = 0 then []
  else locatorLoop index.anchors stop (stop - 1) 1 0

--- Lookups By Time

/- The anchors whose time may be relied on. -/
def authenticatedAnchors (index : SparseHeaderIndex H) : List (HeaderAnchor H) :=
  index.anchors.filter HeaderAnchor.isAuthenticated

/-
  The newest authenticated anchor whose median does not exceed `targetTime`, `lookback` blocks
  earlier but not below the oldest one.
-/
def conservativeHeightForTime (targetTime lookback : UInt32) : TimeLookup :=
  if index.anchors.isEmpty then .empty
  else
    let authenticated := index.authenticatedAnchors
    match authenticated.head? with
    | none => .unauthenticated index.anchors.length
    | some oldest =>
      if targetTime < oldest.medianTimePast then .beforeIndex oldest.height oldest.medianTimePast
      else
        let position :=
          Bisection.partitionPoint authenticated (fun anchor => anchor.medianTimePast ≤ targetTime)
        match authenticated[position - 1]? with
        | none => .empty
        | some chosen => .height (max (Word32.saturatingSub chosen.height lookback) oldest.height)

--- Authentication

/-
  Promote the first anchor at `height`; one whose stored median disagrees is dropped with every
  other at `height`.
-/
def authenticate (height recomputed : UInt32) : Outcome HeaderIndexError (SparseHeaderIndex H) :=
  match index.anchors.findIdx?
      (fun anchor => anchor.height = height) with
  | none => (.error (.noAnchorAtHeight height), index)
  | some position =>
    match index.anchors[position]? with
    | none => (.error (.noAnchorAtHeight height), index)
    | some slot =>
      if slot.medianTimePast ≠ recomputed then
        (.error (.medianTimeMismatch height slot.medianTimePast recomputed),
          { anchors :=
              index.anchors.filter
                (fun anchor => anchor.height ≠ height) })
      else (.ok (), { anchors := index.anchors.set position { slot with trust := .authenticated } })

end SparseHeaderIndex

--- The Last Samples

/- The samples that a median is taken of. -/
def lastSpan (times : List UInt32) : List UInt32 := times.drop (times.length - medianTimeSpan)

theorem length_lastSpan (times : List UInt32) :
    (lastSpan times).length = min times.length medianTimeSpan := by
  unfold lastSpan
  rw [List.length_drop]
  omega

variable {front : List UInt32}

theorem lastSpan_append {recent : List UInt32} (hLong : medianTimeSpan ≤ recent.length) :
    lastSpan (front ++ recent) = lastSpan recent := by
  unfold lastSpan
  rw [List.length_append, List.drop_append, List.drop_eq_nil_of_le (by omega), List.nil_append]
  congr 1
  omega

variable {times : List UInt32}

theorem medianTimePast_eq_kthSmallest (hNonempty : times ≠ []) :
    medianTimePast times =
      OrderStatistics.kthSmallest ((lastSpan times).length / 2) (lastSpan times) := by
  unfold medianTimePast OrderStatistics.kthSmallest lastSpan
  rw [if_neg (by simpa using hNonempty)]
  dsimp only
  have hDrop : times.length - min times.length medianTimeSpan = times.length - medianTimeSpan := by
    omega
  rw [hDrop, List.length_insertionSort]

theorem medianTimePast_isSome (hNonempty : times ≠ []) :
    ∃ median, medianTimePast times = some median := by
  rw [medianTimePast_eq_kthSmallest hNonempty]
  apply OrderStatistics.kthSmallest_isSome
  have hPos : 0 < times.length := List.length_pos_iff.mpr hNonempty
  rw [length_lastSpan]
  unfold medianTimeSpan
  omega

/- Samples before a full window do not count. -/
theorem medianTimePast_append {recent : List UInt32} (hLong : medianTimeSpan ≤ recent.length) :
    medianTimePast (front ++ recent) = medianTimePast recent := by
  have hNonempty : recent ≠ [] := by
    intro hNil
    rw [hNil] at hLong
    exact absurd hLong (by decide)
  rw [medianTimePast_eq_kthSmallest (by simp [hNonempty]), medianTimePast_eq_kthSmallest hNonempty,
    lastSpan_append hLong]

variable {median median' : UInt32}

/-
  A full window that moves on by a sample at or above its median keeps at least that median.
-/
theorem medianTimePast_slide {time : UInt32} (hLong : medianTimeSpan ≤ times.length)
    (hBefore : medianTimePast times = some median)
    (hAfter : medianTimePast (times ++ [time]) = some median') (hTime : median ≤ time) :
    median ≤ median' := by
  have hNonempty : times ≠ [] := by
    intro hNil
    rw [hNil] at hLong
    exact absurd hLong (by decide)
  have hLength : (lastSpan times).length = medianTimeSpan := by
    rw [length_lastSpan]
    omega
  cases hSpan : lastSpan times with
  | nil =>
    rw [hSpan] at hLength
    exact absurd hLength (by decide)
  | cons oldest kept =>
    have hKept : kept.length + 1 = medianTimeSpan := by rw [← hLength, hSpan, List.length_cons]
    have hSplit :
        times ++ [time] =
          (times.take (times.length - medianTimeSpan) ++ [oldest]) ++ (kept ++ [time]) := by
      have hTimes := List.take_append_drop (times.length - medianTimeSpan) times
      have hDrop : times.drop (times.length - medianTimeSpan) = oldest :: kept := hSpan
      rw [hDrop] at hTimes
      nth_rewrite 1 [← hTimes]
      simp
    have hNewSpan : lastSpan (times ++ [time]) = kept ++ [time] := by
      rw [hSplit, lastSpan_append (by simp; omega)]
      unfold lastSpan
      simp [hKept]
    rw [medianTimePast_eq_kthSmallest hNonempty, hSpan] at hBefore
    rw [medianTimePast_eq_kthSmallest (by simp), hNewSpan] at hAfter
    rw [List.length_cons] at hBefore
    rw [List.length_append, List.length_singleton] at hAfter
    exact OrderStatistics.kthSmallest_slide hBefore hAfter hTime

--- The Median-Time Rule

/-
  Every block of `times` is later than the median of the up to eleven blocks below it, `before`
  being the timestamps of the chain that `times` continues.
-/
def ObeysMedianRule (before times : List UInt32) : Prop :=
  ∀ i < times.length,
    ∀ median ∈ medianTimePast (before ++ times.take i), ∀ time ∈ times[i]?, median < time

instance (before times : List UInt32) : Decidable (ObeysMedianRule before times) :=
  @Nat.decidableBallLT _ _
    (fun _ _ => @Option.decidableForallMem _ _
        (fun median => @Option.decidableForallMem _ _ (fun time => UInt32.decLt median time) _) _)

/-
  By induction on the later position: each block in between slides the window up.
-/
theorem ObeysMedianRule.medianTime_mono {before : List UInt32}
    (hRule : ObeysMedianRule before times) {i j : Nat}
    (hFull : medianTimeSpan ≤ (before ++ times.take i).length) (hLe : i ≤ j)
    (hBound : j ≤ times.length) (hEarlier : medianTimePast (before ++ times.take i) = some median)
    (hLater : medianTimePast (before ++ times.take j) = some median') : median ≤ median' := by
  induction j, hLe using Nat.le_induction generalizing median' with
  | base =>
    rw [hEarlier] at hLater
    cases hLater
    exact le_rfl
  | succ j hIJ ih =>
    have hGrown : medianTimeSpan ≤ (before ++ times.take j).length := by
      simp only [List.length_append, List.length_take] at hFull ⊢
      omega
    have hNonempty : before ++ times.take j ≠ [] := by
      intro hNil
      rw [hNil] at hGrown
      exact absurd hGrown (by decide)
    rcases medianTimePast_isSome hNonempty with ⟨between, hBetween⟩
    have hLt : j < times.length := hBound
    have hGet := List.getElem?_eq_getElem hLt
    have hAbove := hRule j hLt between hBetween times[j] hGet
    rw [List.take_add_one, hGet, Option.toList_some, ← List.append_assoc] at hLater
    calc
      median ≤ between := ih (by omega) hBetween
      _ ≤ median' := medianTimePast_slide hGrown hBetween hLater hAbove.le

theorem ObeysMedianRule.append_left {before back : List UInt32}
    (hRule : ObeysMedianRule before (front ++ back)) : ObeysMedianRule before front := by
  intro i hLt median hMedian time hTime
  apply hRule i
  · rw [List.length_append]
    omega
  · rw [List.take_append_of_le_length hLt.le]
    exact hMedian
  · rw [List.getElem?_append_left hLt]
    exact hTime

--- Medians Of A Chain

/- The median-time-past of the block at `height`. -/
def chainMedianTime (times : List UInt32) (height : Nat) : Option UInt32 :=
  medianTimePast (times.take (height + 1))

theorem chainMedianTime_mono (hRule : ObeysMedianRule [] times) {height height' : Nat}
    (hFull : medianTimeSpan ≤ height + 1) (hLe : height ≤ height') (hBound : height' < times.length)
    (hEarlier : chainMedianTime times height = some median)
    (hLater : chainMedianTime times height' = some median') : median ≤ median' := by
  refine hRule.medianTime_mono ?_ (Nat.succ_le_succ hLe) hBound hEarlier hLater
  rw [List.nil_append, List.length_take]
  omega

--- Ordered Anchors

/- The order that an index keeps its anchors in. -/
def HeaderAnchor.Precedes (earlier later : HeaderAnchor H) : Prop :=
  earlier.height < later.height ∧ earlier.medianTimePast ≤ later.medianTimePast

namespace SparseHeaderIndex

def Ordered (index : SparseHeaderIndex H) : Prop := index.anchors.Pairwise HeaderAnchor.Precedes

theorem ordered_new : (new : SparseHeaderIndex H).Ordered := List.Pairwise.nil

variable {index : SparseHeaderIndex H} {anchor : HeaderAnchor H}

theorem insert_eq_ok_iff {index' : SparseHeaderIndex H} :
    index.insert anchor = (.ok (), index') ↔
    index' = index.push anchor ∧ ∀ last, index.newest = some last → last.Precedes anchor := by
  unfold insert HeaderAnchor.Precedes
  cases hNewest : index.newest with
  | none => simp [eq_comm]
  | some last =>
    dsimp only
    split
    · rename_i hHeight
      have hNot : ¬ last.height < anchor.height := not_lt.mpr hHeight
      simp [hNot]
    · rename_i hHeight
      have hLt := not_le.mp hHeight
      split
      · rename_i hMedian
        have hNot : ¬ last.medianTimePast ≤ anchor.medianTimePast := not_le.mpr hMedian
        simp [hNot]
      · rename_i hMedian
        simp [hLt, not_lt.mp hMedian, eq_comm]

theorem insert_eq_error {index' : SparseHeaderIndex H} {e : HeaderIndexError}
    (hError : index.insert anchor = (.error e, index')) : index' = index := by
  unfold insert at hError
  split at hError
  · cases hError
  · split at hError
    · cases hError
      rfl
    · split at hError
      · cases hError
        rfl
      · cases hError

theorem mem_push {other : HeaderAnchor H} :
    other ∈ (index.push anchor).anchors ↔ other ∈ index.anchors ∨ other = anchor := by
  simp [push]

theorem newest_push (index : SparseHeaderIndex H) (anchor : HeaderAnchor H) :
    (index.push anchor).newest = some anchor := by
  simp [push, newest]

theorem precedes_of_newest (hOrdered : index.Ordered) {last : HeaderAnchor H}
    (hNewest : index.newest = some last) (hMem : anchor ∈ index.anchors) :
    anchor = last ∨ anchor.Precedes last := by
  rcases List.getLast?_eq_some_iff.mp hNewest with ⟨front, hSplit⟩
  unfold Ordered at hOrdered
  rw [hSplit] at hOrdered hMem
  rcases List.mem_append.mp hMem with hFront | hLast
  · right
    have hPair := (List.pairwise_append.mp hOrdered).2.2
    exact hPair anchor hFront last (List.mem_singleton_self _)
  · left
    exact List.mem_singleton.mp hLast

/- An insertion that succeeds keeps the order. -/
theorem Ordered.push (hOrdered : index.Ordered)
    (hAbove : ∀ last, index.newest = some last → last.Precedes anchor) :
    (index.push anchor).Ordered := by
  unfold Ordered SparseHeaderIndex.push
  rw [List.pairwise_append]
  refine ⟨hOrdered, List.pairwise_singleton _ _, ?_⟩
  intro earlier hMem later hLater
  rw [List.mem_singleton.mp hLater]
  cases hNewest : index.newest with
  | none =>
    rw [newest, List.getLast?_eq_none_iff] at hNewest
    rw [hNewest] at hMem
    cases hMem
  | some last =>
    have hLast := hAbove last hNewest
    rcases precedes_of_newest hOrdered hNewest hMem with rfl | hBefore
    · exact hLast
    · exact ⟨hBefore.1.trans hLast.1, hBefore.2.trans hLast.2⟩

--- Conservative Heights

/-
  On ordered anchors the lookup answers with the newest authenticated anchor at or before the
  target, moved back by `lookback` blocks but not below the oldest one.
-/
theorem conservativeHeight_spec (hOrdered : index.Ordered) {targetTime lookback height : UInt32}
    (hLookup : index.conservativeHeightForTime targetTime lookback = .height height) :
    ∃ oldest chosen,
    index.authenticatedAnchors.head? = some oldest ∧ chosen ∈ index.authenticatedAnchors ∧
      chosen.medianTimePast ≤ targetTime ∧
      (∀ anchor ∈ index.authenticatedAnchors,
          anchor.medianTimePast ≤ targetTime → anchor.height ≤ chosen.height) ∧
      height.toNat = max (chosen.height.toNat - lookback.toNat) oldest.height.toNat := by
  have hSorted : index.authenticatedAnchors.Pairwise HeaderAnchor.Precedes :=
    hOrdered.sublist List.filter_sublist
  unfold conservativeHeightForTime at hLookup
  split at hLookup
  · cases hLookup
  · dsimp only at hLookup
    split at hLookup
    · cases hLookup
    · rename_i oldest hOldest
      split at hLookup
      · cases hLookup
      · rename_i hReached
        split at hLookup
        · cases hLookup
        · rename_i chosen hChosen
          have hPartitioned :
              index.authenticatedAnchors.Pairwise
                (fun earlier later =>
                  decide (later.medianTimePast ≤ targetTime) →
                    decide (earlier.medianTimePast ≤ targetTime)) := by
            apply hSorted.imp
            intro earlier later hBefore hLater
            rw [decide_eq_true_eq] at hLater ⊢
            exact hBefore.2.trans hLater
          rcases Bisection.partitionPoint_spec hPartitioned with ⟨-, hBelow, hAbove⟩
          -- The oldest anchor is at or before the target.
          have hHead : index.authenticatedAnchors[0]? = some oldest := by
            rw [← List.head?_eq_getElem?]
            exact hOldest
          have hPosition :
              0 < Bisection.partitionPoint index.authenticatedAnchors
                  (fun anchor => anchor.medianTimePast ≤ targetTime) := by
            by_contra hZero
            have hFalse := hAbove 0 oldest (by omega) hHead
            rw [decide_eq_false_iff_not] at hFalse
            exact hFalse (not_lt.mp hReached)
          have hChosenBelow := hBelow _ chosen (by omega) hChosen
          rw [decide_eq_true_eq] at hChosenBelow
          refine ⟨oldest, chosen, hOldest, List.mem_of_getElem? hChosen, hChosenBelow, ?_, ?_⟩
          · intro anchor hMem hLe
            rcases List.getElem?_of_mem hMem with ⟨i, hGet⟩
            by_contra hNot
            have hInside :
                i < Bisection.partitionPoint index.authenticatedAnchors
                    (fun anchor => anchor.medianTimePast ≤ targetTime) := by
              by_contra hOutside
              have hFalse := hAbove i anchor (not_lt.mp hOutside) hGet
              rw [decide_eq_false_iff_not] at hFalse
              exact hFalse hLe
            rcases List.getElem?_eq_some_iff.mp hGet with ⟨hIdx, rfl⟩
            rcases List.getElem?_eq_some_iff.mp hChosen with ⟨hLast, rfl⟩
            rcases Nat.lt_or_eq_of_le (Nat.le_sub_one_of_lt hInside) with hLess | hSame
            · have hPair := List.pairwise_iff_getElem.mp hSorted i _ hIdx hLast hLess
              exact hNot hPair.1.le
            · apply hNot
              simp only [hSame, le_refl]
          · cases hLookup
            rw [Word32.toNat_max, Word32.toNat_saturatingSub]

--- Locators

theorem mem_locatorLoop {anchors : List (HeaderAnchor H)} {fuel position step taken : Nat}
    {hash : H} (hMem : hash ∈ locatorLoop anchors fuel position step taken) :
    ∃ i anchor, i ≤ position ∧ anchors[i]? = some anchor ∧ anchor.blockHash = hash := by
  induction fuel generalizing position step taken with
  | zero => cases hMem
  | succ fuel ih =>
    unfold locatorLoop at hMem
    split at hMem
    · cases hMem
    · rename_i anchor hGet
      dsimp only at hMem
      split at hMem
      · rw [List.mem_singleton] at hMem
        exact ⟨position, anchor, le_rfl, hGet, hMem.symm⟩
      · rcases List.mem_cons.mp hMem with hHere | hRest
        · exact ⟨position, anchor, le_rfl, hGet, hHere.symm⟩
        · rcases ih hRest with ⟨i, other, hLe, hOther⟩
          exact ⟨i, other, by omega, hOther⟩

/-
  A locator names retained anchors at or below the height it was asked for.
-/
theorem mem_locator (hOrdered : index.Ordered) {height : UInt32} {hash : H}
    (hMem : hash ∈ index.locator height) :
    ∃ anchor ∈ index.anchors, anchor.height ≤ height ∧ anchor.blockHash = hash := by
  have hPartitioned :
      index.anchors.Pairwise
        (fun earlier later =>
          decide (later.height ≤ height) →
            decide (earlier.height ≤ height)) := by
    apply List.Pairwise.imp _ hOrdered
    intro earlier later hBefore hLater
    rw [decide_eq_true_eq] at hLater ⊢
    exact hBefore.1.le.trans hLater
  rcases Bisection.partitionPoint_spec hPartitioned with ⟨-, hBelow, -⟩
  unfold locator at hMem
  dsimp only at hMem
  split at hMem
  · cases hMem
  · rename_i hStop
    rcases mem_locatorLoop hMem with ⟨i, anchor, hLe, hGet, hHash⟩
    refine ⟨anchor, List.mem_of_getElem? hGet, ?_, hHash⟩
    have hHolds := hBelow i anchor (by unfold countAtOrBelow at hStop hLe; omega) hGet
    rw [decide_eq_true_eq] at hHolds
    exact hHolds

end SparseHeaderIndex

end OptnWallet
