import Mathlib.Data.Nat.Log
import OptnWallet.Core.HeaderTime.SparseIndex
import OptnWallet.Library.Runs

/-
  The sparse index over whole runs: its anchors stay ordered whatever is done to it, so its
  searches find what is there, and the locators it builds are short and reach from the newest
  anchor below a height down to the oldest one.

  Main declarations:
    * `SparseHeaderIndex.Operation` and `SparseHeaderIndex.after`
    * `SparseHeaderIndex.index_stays_ordered`
    * `SparseHeaderIndex.locator_law`
-/

--- Operations

namespace OptnWallet.SparseHeaderIndex

variable {H : Type}

inductive Operation (H : Type) where
  | insert (anchor : HeaderAnchor H)
  | pruneBelow (height : UInt32)
  | rewindTo (height : UInt32)
  | authenticate (height recomputed : UInt32)

/- What an operation leaves, failed or not. -/
def after (index : SparseHeaderIndex H) : Operation H → SparseHeaderIndex H
  | .insert anchor => (index.insert anchor).2
  | .pruneBelow height => index.pruneBelow height
  | .rewindTo height => index.rewindTo height
  | .authenticate height recomputed => (index.authenticate height recomputed).2

--- Order

variable {index : SparseHeaderIndex H}

theorem Ordered.filter (hOrdered : index.Ordered)
    (keep : HeaderAnchor H → Bool) :
    Ordered { anchors := index.anchors.filter keep } :=
  List.Pairwise.sublist List.filter_sublist hOrdered

theorem ordered_insert (hOrdered : index.Ordered) (anchor : HeaderAnchor H) :
    (index.insert anchor).2.Ordered := by
  cases hInsert : index.insert anchor with
  | mk answer index' =>
    cases answer with
    | error e =>
      rw [insert_eq_error hInsert]
      exact hOrdered
    | ok value =>
      rcases insert_eq_ok_iff.mp hInsert with ⟨rfl, hAbove⟩
      exact hOrdered.push hAbove

variable {position : Nat}

/- Trust is not what anchors are ordered by. -/
theorem ordered_set (hOrdered : index.Ordered)
    {slot : HeaderAnchor H} (hSlot : index.anchors[position]? = some slot) (trust : AnchorTrust) :
    Ordered { anchors := index.anchors.set position { slot with trust } } := by
  have hKeys :
      (index.anchors.set position
          { slot with trust }).map
          (fun anchor => (anchor.height, anchor.medianTimePast)) =
        index.anchors.map
          (fun anchor => (anchor.height, anchor.medianTimePast)) := by
    rcases List.getElem?_eq_some_iff.mp hSlot with ⟨hLt, rfl⟩
    rw [List.map_set]
    apply List.ext_getElem
    · simp
    · intro i hi hi'
      rw [List.getElem_set]
      split
      · rename_i hHere
        subst hHere
        simp
      · rfl
  have hPairs :
      (index.anchors.map
        (fun anchor => (anchor.height, anchor.medianTimePast))).Pairwise
        (fun earlier later => earlier.1 < later.1 ∧ earlier.2 ≤ later.2) :=
    List.pairwise_map.mpr hOrdered
  rw [← hKeys] at hPairs
  unfold Ordered
  rw [List.pairwise_map] at hPairs
  exact hPairs

theorem ordered_authenticate (hOrdered : index.Ordered) (height recomputed : UInt32) :
    (index.authenticate height recomputed).2.Ordered := by
  unfold authenticate
  split
  · exact hOrdered
  · split
    · exact hOrdered
    · rename_i position _ slot hSlot
      split
      · exact hOrdered.filter _
      · exact ordered_set hOrdered hSlot .authenticated

/- One step keeps the order. -/
theorem ordered_after (hOrdered : index.Ordered) (operation : Operation H) :
    (index.after operation).Ordered := by
  cases operation with
  | insert anchor => exact ordered_insert hOrdered anchor
  | pruneBelow height => exact hOrdered.filter _
  | rewindTo height => exact hOrdered.filter _
  | authenticate height recomputed => exact ordered_authenticate hOrdered height recomputed

theorem ordered_run (operations : List (Operation H)) : (operations.foldl after new).Ordered := by
  induction operations using List.reverseRecOn with
  | nil => exact ordered_new
  | append_singleton operations operation ih =>
    rw [List.foldl_concat]
    exact ordered_after ih operation

--- Searches

section Searches

variable {index : SparseHeaderIndex H} {anchor : HeaderAnchor H}

/- Anchors of one height are one anchor. -/
theorem Ordered.eq_of_height (hOrdered : index.Ordered) {other : HeaderAnchor H}
    (hAnchor : anchor ∈ index.anchors) (hOther : other ∈ index.anchors)
    (hSame : anchor.height = other.height) : anchor = other := by
  rcases List.getElem?_of_mem hAnchor with ⟨i, hI⟩
  rcases List.getElem?_of_mem hOther with ⟨j, hJ⟩
  rcases List.getElem?_eq_some_iff.mp hI with ⟨hILt, rfl⟩
  rcases List.getElem?_eq_some_iff.mp hJ with ⟨hJLt, rfl⟩
  have hPairs := List.pairwise_iff_getElem.mp hOrdered
  rcases Nat.lt_trichotomy i j with hBefore | rfl | hAfter
  · have hLess := (hPairs i j hILt hJLt hBefore).1
    exact absurd hSame (ne_of_lt hLess)
  · rfl
  · have hLess := (hPairs j i hJLt hILt hAfter).1
    exact absurd hSame.symm (ne_of_lt hLess)

variable {height : UInt32}

theorem compare_height_eq_gt_iff {target : UInt32} :
    compareOfLessAndEq height target = .gt ↔ target < height := by
  unfold compareOfLessAndEq
  split
  · rename_i hLess
    simp [hLess.le]
  · rename_i hNot
    split
    · rename_i hSame
      simp [hSame]
    · rename_i hNe
      have hLess : target < height := lt_of_le_of_ne (not_lt.mp hNot) (Ne.symm hNe)
      simp [hLess]

theorem compare_height_eq_eq_iff {target : UInt32} :
    compareOfLessAndEq height target = .eq ↔ height = target := by
  unfold compareOfLessAndEq
  split
  · rename_i hLess
    simp [ne_of_lt hLess]
  · split
    · rename_i hSame
      simp [hSame]
    · rename_i hNe
      simp [hNe]

/- The search by height answers with the anchor there. -/
theorem anchorAt_eq_some_iff (hOrdered : index.Ordered) :
    index.anchorAt height = some anchor ↔ anchor ∈ index.anchors ∧ anchor.height = height := by
  have hProbe :
      Bisection.Ordered index.anchors
        (fun anchor => compareOfLessAndEq anchor.height height) := by
    apply List.Pairwise.imp _ hOrdered
    intro earlier later hBefore
    constructor
    · intro hLater
      rw [compareOfLessAndEq_eq_lt] at hLater ⊢
      exact hBefore.1.trans hLater
    · intro hEarlier
      rw [compare_height_eq_gt_iff] at hEarlier ⊢
      exact hEarlier.trans hBefore.1
  have hFound := Bisection.binarySearch_spec hProbe
  unfold anchorAt
  split
  · rename_i position hSearch
    rw [hSearch] at hFound
    rcases hFound with ⟨entry, hEntry, hEq⟩
    rw [compare_height_eq_eq_iff] at hEq
    have hMem := List.mem_of_getElem? hEntry
    rw [hEntry, Option.some.injEq]
    constructor
    · rintro rfl
      exact ⟨hMem, hEq⟩
    · rintro ⟨hAnchor, hHeight⟩
      exact hOrdered.eq_of_height hMem hAnchor (hEq.trans hHeight.symm)
  · rename_i position hSearch
    rw [hSearch] at hFound
    rcases hFound with ⟨-, hBefore, hFrom⟩
    constructor
    · intro hNone
      cases hNone
    · rintro ⟨hAnchor, hHeight⟩
      exfalso
      rcases List.getElem?_of_mem hAnchor with ⟨i, hGet⟩
      rcases Nat.lt_or_ge i position with hLt | hGe
      · have hLess := hBefore i anchor hLt hGet
        rw [compareOfLessAndEq_eq_lt, hHeight] at hLess
        exact lt_irrefl _ hLess
      · have hGreater := hFrom i anchor hGe hGet
        rw [compare_height_eq_gt_iff, hHeight] at hGreater
        exact lt_irrefl _ hGreater

/- The anchors at or below a height come first. -/
theorem countAtOrBelow_spec (hOrdered : index.Ordered) (height : UInt32) :
    index.countAtOrBelow height ≤ index.anchors.length ∧
    ∀ i anchor,
      index.anchors[i]? = some anchor →
        (i < index.countAtOrBelow height ↔ anchor.height ≤ height) := by
  have hPartitioned :
      index.anchors.Pairwise
        (fun earlier later =>
          decide (later.height ≤ height) →
            decide (earlier.height ≤ height)) := by
    apply List.Pairwise.imp _ hOrdered
    intro earlier later hBefore hLater
    rw [decide_eq_true_eq] at hLater ⊢
    exact hBefore.1.le.trans hLater
  rcases Bisection.partitionPoint_spec hPartitioned with ⟨hLe, hBelow, hAbove⟩
  refine ⟨hLe, ?_⟩
  intro i anchor hGet
  constructor
  · intro hLt
    exact of_decide_eq_true (hBelow i anchor hLt hGet)
  · intro hHeight
    by_contra hNot
    have hFalse := hAbove i anchor (not_lt.mp hNot) hGet
    exact of_decide_eq_false hFalse hHeight

/- The newest anchor at or below a height is found. -/
theorem anchorAtOrBelow_eq_some_iff (hOrdered : index.Ordered) :
    index.anchorAtOrBelow height = some anchor ↔
    anchor ∈ index.anchors ∧ anchor.height ≤ height ∧
      ∀ other ∈ index.anchors, other.height ≤ height → other.height ≤ anchor.height := by
  rcases countAtOrBelow_spec hOrdered height with ⟨hLe, hCount⟩
  have hPairs := List.pairwise_iff_getElem.mp hOrdered
  have hNewest :
      ∀ found,
      index.anchorAtOrBelow height = some found → found ∈ index.anchors ∧
          found.height ≤ height ∧
          ∀ other ∈ index.anchors, other.height ≤ height → other.height ≤ found.height := by
    intro found hFound
    unfold anchorAtOrBelow at hFound
    dsimp only at hFound
    split at hFound
    · rename_i hPositive
      have hLast : index.countAtOrBelow height - 1 < index.countAtOrBelow height := by omega
      refine ⟨List.mem_of_getElem? hFound, (hCount _ found hFound).mp hLast, ?_⟩
      intro other hOther hHeight
      rcases List.getElem?_of_mem hOther with ⟨i, hGet⟩
      have hInside := (hCount i other hGet).mpr hHeight
      rcases List.getElem?_eq_some_iff.mp hGet with ⟨hI, rfl⟩
      rcases List.getElem?_eq_some_iff.mp hFound with ⟨hLastLt, rfl⟩
      rcases Nat.lt_or_eq_of_le (Nat.le_sub_one_of_lt hInside) with hLess | hSame
      · exact (hPairs i _ hI hLastLt hLess).1.le
      · simp only [hSame, le_refl]
    · cases hFound
  constructor
  · exact hNewest anchor
  · rintro ⟨hAnchor, hHeight, hGreatest⟩
    rcases List.getElem?_of_mem hAnchor with ⟨i, hGet⟩
    have hInside := (hCount i anchor hGet).mpr hHeight
    have hLast : index.countAtOrBelow height - 1 < index.anchors.length := by omega
    have hFound :
        index.anchorAtOrBelow height = some index.anchors[index.countAtOrBelow height - 1] := by
      unfold anchorAtOrBelow
      dsimp only
      rw [if_pos (by omega), List.getElem?_eq_getElem hLast]
    rcases hNewest _ hFound with ⟨hMem, hBelow, hNewer⟩
    rw [hFound, Option.some.injEq]
    exact hOrdered.eq_of_height hMem hAnchor
      (le_antisymm (hGreatest _ hMem hBelow) (hNewer anchor hAnchor hHeight))

end Searches

/-
  In every state of every run the anchors have increasing heights and medians that do not fall, an
  insertion that fails changes nothing, and both searches answer with exactly the anchor that is
  asked for.
-/
theorem index_stays_ordered (operations : List (Operation H)) :
    Runs.EachState after
      (fun index :
        SparseHeaderIndex H => index.anchors.Pairwise
            (fun earlier later =>
              earlier.height < later.height ∧ earlier.medianTimePast ≤ later.medianTimePast) ∧
          (∀ anchor e, (index.insert anchor).1 = .error e → (index.insert anchor).2 = index) ∧
          (∀ height anchor,
              index.anchorAt height = some anchor ↔ anchor ∈ index.anchors ∧ anchor.height = height)
            ∧
          ∀ height anchor,
            index.anchorAtOrBelow height = some anchor ↔ anchor ∈ index.anchors ∧
                anchor.height ≤ height ∧
                ∀ other ∈ index.anchors, other.height ≤ height → other.height ≤ anchor.height) new
      operations := by
  intro done rest _
  have hOrdered := ordered_run done
  refine ⟨hOrdered, ?_, ?_, ?_⟩
  · intro anchor e hError
    exact insert_eq_error (Prod.ext hError rfl)
  · intro height anchor
    exact anchorAt_eq_some_iff hOrdered
  · intro height anchor
    exact anchorAtOrBelow_eq_some_iff hOrdered

--- Locators

/- Anchors that a locator names, from some position down. -/
structure Descends (anchors named : List (HeaderAnchor H)) (position : Nat) : Prop where
  starts : named.head? = anchors[position]?
  ends : named.getLast? = anchors[0]?
  within : ∀ anchor ∈ named, ∃ i ≤ position, anchors[i]? = some anchor
  descending : named.Pairwise (fun newer older => older.height < newer.height)

/- The loop names anchors further and further down, until the oldest one.  By induction over the
   rounds that are left. -/
theorem locatorLoop_descends {anchors : List (HeaderAnchor H)}
    (hOrdered : anchors.Pairwise HeaderAnchor.Precedes) {fuel position step taken : Nat}
    (hFuel : position < fuel) (hPosition : position < anchors.length) (hStep : 0 < step) :
    ∃ named,
    locatorLoop anchors fuel position step taken = named.map HeaderAnchor.blockHash ∧
      Descends anchors named position := by
  induction fuel generalizing position step taken with
  | zero => exact absurd hFuel (Nat.not_lt_zero _)
  | succ fuel ih =>
    have hGet := List.getElem?_eq_getElem hPosition
    unfold locatorLoop
    rw [hGet]
    dsimp only
    split
    · rename_i hZero
      subst hZero
      refine ⟨[anchors[0]], rfl, ?_, ?_, ?_, ?_⟩
      · rw [hGet]
        rfl
      · rw [hGet]
        rfl
      · intro anchor hMem
        rw [List.mem_singleton.mp hMem]
        exact ⟨0, le_rfl, hGet⟩
      · exact List.pairwise_singleton _ _
    · rename_i hPositive
      -- Each step leads down, and the doubled one too.
      have hNext : ∀ step', 0 < step' → position - step' < fuel ∧ position - step' < position := by
        intro step' hStep'
        omega
      generalize hChosen :
        (if locatorDenseEntries < taken + 1 then min (step * 2) (2 ^ 64 - 1) else step) = step'
      have hStep' : 0 < step' := by
        rw [← hChosen]
        split
        · exact lt_min (by omega) (by decide)
        · exact hStep
      rcases hNext step' hStep' with ⟨hLeft, hLower⟩
      rcases @ih (position - step') step' (taken + 1) hLeft (hLower.trans hPosition) hStep' with
        ⟨named, hNamed, hDescends⟩
      refine ⟨anchors[position] :: named, ?_, ?_, ?_, ?_, ?_⟩
      · rw [hNamed]
        rfl
      · rw [hGet]
        rfl
      · rw [← hDescends.ends]
        have hSome := hDescends.starts
        cases named with
        | nil =>
          rw [List.getElem?_eq_getElem (hLower.trans hPosition)] at hSome
          cases hSome
        | cons first named => rw [List.getLast?_cons_cons]
      · intro anchor hMem
        rcases List.mem_cons.mp hMem with rfl | hMem
        · exact ⟨position, le_rfl, hGet⟩
        · rcases hDescends.within anchor hMem with ⟨i, hI, hFound⟩
          exact ⟨i, by omega, hFound⟩
      · rw [List.pairwise_cons]
        refine ⟨?_, hDescends.descending⟩
        intro older hMem
        rcases hDescends.within older hMem with ⟨i, hI, hFound⟩
        rcases List.getElem?_eq_some_iff.mp hFound with ⟨hLt, rfl⟩
        have hBelow : i < position := by omega
        exact (List.pairwise_iff_getElem.mp hOrdered i position hLt hPosition hBelow).1

/- Once the gaps widen, they double: each round more covers twice as many anchors. -/
theorem length_locatorLoop_wide {anchors : List (HeaderAnchor H)} {fuel step taken rounds : Nat}
    (hTaken : locatorDenseEntries ≤ taken) (hSmall : position < 2 ^ 64)
    (hCovered : position ≤ step * (2 ^ (rounds + 1) - 2)) :
    (locatorLoop anchors fuel position step taken).length ≤ rounds + 1 := by
  induction rounds generalizing fuel position step taken with
  | zero =>
    have hZero : position = 0 := by simpa using hCovered
    subst hZero
    cases fuel with
    | zero => exact Nat.zero_le _
    | succ fuel =>
      unfold locatorLoop
      split
      · exact Nat.zero_le _
      · dsimp only
        rw [if_pos rfl]
        exact le_rfl
  | succ rounds ih =>
    cases fuel with
    | zero => exact Nat.zero_le _
    | succ fuel =>
      unfold locatorLoop
      split
      · exact Nat.zero_le _
      · dsimp only
        split
        · rw [List.length_singleton]
          exact Nat.le_add_left 1 _
        · rw [if_pos (by omega), List.length_cons]
          apply Nat.succ_le_succ
          apply ih (by omega) (by omega)
          rcases Nat.le_total (step * 2) (2 ^ 64 - 1) with hFits | hOver
          · rw [Nat.min_eq_left hFits]
            have hSplit :
                step * (2 ^ (rounds + 1 + 1) - 2) =
                  step * 2 + step * 2 * (2 ^ (rounds + 1) - 2) := by
              have hTwo : 2 ≤ 2 ^ (rounds + 1) := by
                rw [Nat.pow_succ]
                have hOne := Nat.one_le_two_pow (n := rounds)
                omega
              rw [Nat.pow_succ, Nat.mul_assoc, ← Nat.mul_add]
              congr 1
              omega
            omega
          · -- A saturated step reaches the oldest anchor.
            rw [Nat.min_eq_right hOver]
            have hReached : position - (2 ^ 64 - 1) = 0 := by omega
            rw [hReached]
            exact Nat.zero_le _

/- Before that a locator has a fixed number of entries. -/
theorem length_locatorLoop {anchors : List (HeaderAnchor H)} {fuel taken rounds : Nat}
    (hSmall : position < 2 ^ 64) (hCovered : position ≤ 2 ^ (rounds + 1) - 2) :
    (locatorLoop anchors fuel position 1 taken).length ≤
      locatorDenseEntries - taken + (rounds + 1) := by
  rcases Nat.lt_or_ge taken locatorDenseEntries with hDense | hWide
  · induction fuel generalizing position taken with
    | zero => exact Nat.zero_le _
    | succ fuel ih =>
      unfold locatorLoop
      split
      · exact Nat.zero_le _
      · dsimp only
        split
        · rw [List.length_singleton]
          omega
        · rw [if_neg (by omega), List.length_cons]
          rcases Nat.lt_or_ge (taken + 1) locatorDenseEntries with hStill | hLast
          · have hRest := @ih (position - 1) (taken + 1) (by omega) (by omega) hStill
            omega
          · have hRest :
                (locatorLoop anchors fuel (position - 1) 1 (taken + 1)).length ≤ rounds + 1 := by
              apply length_locatorLoop_wide hLast (by omega)
              omega
            omega
  · have hRest : (locatorLoop anchors fuel position 1 taken).length ≤ rounds + 1 := by
      apply length_locatorLoop_wide hWide hSmall
      omega
    omega

/- Heights are words of 32 bits, and no two anchors share one. -/
theorem Ordered.length_le (hOrdered : index.Ordered) : index.anchors.length ≤ 2 ^ 32 := by
  have hNodup : (index.anchors.map (fun anchor => anchor.height.toNat)).Nodup := by
    rw [List.Nodup, List.pairwise_map]
    apply List.Pairwise.imp _ hOrdered
    intro earlier later hBefore
    exact ne_of_lt (UInt32.lt_iff_toNat_lt.mp hBefore.1)
  have hSubset : index.anchors.map (fun anchor => anchor.height.toNat) ⊆ List.range (2 ^ 32) := by
    intro height hMem
    rcases List.mem_map.mp hMem with ⟨anchor, -, rfl⟩
    exact List.mem_range.mpr anchor.height.toNat_lt
  have hLength := (List.subperm_of_subset hNodup hSubset).length_le
  rw [List.length_map, List.length_range] at hLength
  exact hLength

/-
  In every state of every run a locator names retained anchors at or below its height, from the
  newest of them down to the oldest anchor, and of these only some ten more than the logarithm of
  their number.  It is empty exactly when there are none.
-/
theorem locator_law (operations : List (Operation H)) (height : UInt32) :
    let index : SparseHeaderIndex H := operations.foldl after new
    ∃ named : List (HeaderAnchor H),
      index.locator height = named.map HeaderAnchor.blockHash ∧
        (∀ anchor ∈ named, anchor ∈ index.anchors ∧ anchor.height ≤ height) ∧
        named.Pairwise (fun newer older => older.height < newer.height) ∧
        named.head? = index.anchorAtOrBelow height ∧
        (named ≠ [] → named.getLast? = index.oldest) ∧
        (named = [] ↔ ∀ anchor ∈ index.anchors, height < anchor.height) ∧
        named.length ≤ 11 + Nat.log 2 index.anchors.length := by
  intro index
  have hOrdered : index.Ordered := ordered_run operations
  rcases countAtOrBelow_spec hOrdered height with ⟨hLe, hCount⟩
  rcases Nat.eq_zero_or_pos (index.countAtOrBelow height) with hNone | hPositive
  · have hAbove : ∀ anchor ∈ index.anchors, height < anchor.height := by
      intro anchor hMem
      rcases List.getElem?_of_mem hMem with ⟨i, hGet⟩
      by_contra hNot
      have hInside := (hCount i anchor hGet).mpr (not_lt.mp hNot)
      omega
    refine ⟨[], ?_, ?_, List.Pairwise.nil, ?_, ?_, ?_, ?_⟩
    · unfold locator
      rw [if_pos hNone]
      rfl
    · intro anchor hMem
      cases hMem
    · unfold anchorAtOrBelow
      rw [hNone]
      rfl
    · intro hNonempty
      exact absurd rfl hNonempty
    · exact ⟨fun _ => hAbove, fun _ => rfl⟩
    · exact Nat.zero_le _
  · have hLast : index.countAtOrBelow height - 1 < index.anchors.length := by omega
    rcases
      @locatorLoop_descends H index.anchors hOrdered (index.countAtOrBelow height)
        (index.countAtOrBelow height - 1) 1 0 (by omega) hLast
        Nat.one_pos with
      ⟨named, hNamed, hDescends⟩
    have hLocator : index.locator height = named.map HeaderAnchor.blockHash := by
      unfold locator
      dsimp only
      rw [if_neg (by omega), hNamed]
    have hNonempty : named ≠ [] := by
      intro hEmpty
      have hStarts := hDescends.starts
      rw [hEmpty, List.getElem?_eq_getElem hLast] at hStarts
      cases hStarts
    refine ⟨named, hLocator, ?_, hDescends.descending, ?_, ?_, ?_, ?_⟩
    · intro anchor hMem
      rcases hDescends.within anchor hMem with ⟨i, hI, hGet⟩
      exact ⟨List.mem_of_getElem? hGet, (hCount i anchor hGet).mp (by omega)⟩
    · unfold anchorAtOrBelow
      dsimp only
      rw [if_pos hPositive]
      exact hDescends.starts
    · intro _
      unfold oldest
      rw [hDescends.ends, List.head?_eq_getElem?]
    · constructor
      · intro hEmpty
        exact absurd hEmpty hNonempty
      · intro hAbove
        exfalso
        have hGet := List.getElem?_eq_getElem hLast
        have hBelow := (hCount _ _ hGet).mp (by omega)
        have hOver := hAbove _ (List.mem_of_getElem? hGet)
        exact absurd hBelow (not_le.mpr hOver)
    · have hMany := hOrdered.length_le
      have hPower := Nat.lt_pow_succ_log_self Nat.one_lt_two index.anchors.length
      have hLength :
          (locatorLoop index.anchors (index.countAtOrBelow height) (index.countAtOrBelow height - 1)
                1 0).length ≤ locatorDenseEntries - 0 + (Nat.log 2 index.anchors.length + 1) := by
        apply length_locatorLoop
        · omega
        · omega
      rw [hNamed, List.length_map] at hLength
      unfold locatorDenseEntries at hLength
      omega

end OptnWallet.SparseHeaderIndex
