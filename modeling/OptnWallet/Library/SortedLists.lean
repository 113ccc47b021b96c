import Mathlib.Algebra.BigOperators.Group.List.Basic
import Mathlib.Algebra.Order.Ring.Nat
import Mathlib.Data.List.Basic
import Mathlib.Data.List.Destutter
import Mathlib.Data.List.Perm.Subperm
import Mathlib.Data.List.Sort

/-
  Lists in order, and binary search in them by a probe that orders an entry against what is
  searched for.

  Where a key tells the elements apart, the order they come in does not matter, and repeated
  elements are neighbours.  No choice of as many items is heavier than the first ones of a
  descending list.

  The `k`-th smallest entry is characterized by counting: a value is at most it exactly when at
  most `k` entries lie strictly below that value.  Counts follow a sliding window directly, the
  sorted list does not.

  Main declarations:
    * `Bisection.binarySearch_spec` and `Bisection.partitionPoint_spec`
    * `KeySort.mergeSort_eq_of_perm`
    * `KeySort.length_destutter_mergeSort_iff`
    * `LargestFirst.weight_le_take`
    * `OrderStatistics.le_kthSmallest_iff`
    * `OrderStatistics.kthSmallest_slide`
-/

--- The Search

namespace Bisection

variable {α : Type}

/-
  `ok` is the index of a matching entry, `error` the index where one would have to be inserted.
-/
def searchLoop (entries : List α) (probe : α → Ordering) : Nat → Nat → Nat → Except Nat Nat
  | 0, left, _ => .error left
  | fuel + 1, left, right =>
    if left < right then
      let mid := left + (right - left) / 2
      match (entries[mid]?).map probe with
      | some .lt => searchLoop entries probe fuel (mid + 1) right
      | some .gt => searchLoop entries probe fuel left mid
      | some .eq => .ok mid
      | none => .error left
    else .error left

def binarySearch (entries : List α) (probe : α → Ordering) : Except Nat Nat :=
  searchLoop entries probe entries.length 0 entries.length

/- The number of leading entries that satisfy `holds`. -/
def partitionPoint (entries : List α) (holds : α → Bool) : Nat :=
  match binarySearch entries
      (fun entry => if holds entry then .lt else .gt) with
  | .ok index => index
  | .error index => index

--- What The Search Finds

section

variable (entries : List α) (probe : α → Ordering)

/- Every entry before `index` lies below the target. -/
def AllBefore (index : Nat) : Prop :=
  ∀ i entry, i < index → entries[i]? = some entry → probe entry = .lt

/- Every entry from `index` on lies above the target. -/
def AllFrom (index : Nat) : Prop :=
  ∀ i entry, index ≤ i → entries[i]? = some entry → probe entry = .gt

/- The probe grows along the list. -/
def Ordered : Prop :=
  entries.Pairwise
    (fun earlier later =>
      (probe later = .lt → probe earlier = .lt) ∧ (probe earlier = .gt → probe later = .gt))

end

variable {entries : List α} {probe : α → Ordering}

theorem AllBefore.of_lt (hOrdered : Ordered entries probe) {mid : Nat} {entry : α}
    (hGet : entries[mid]? = some entry) (hProbe : probe entry = .lt) :
    AllBefore entries probe (mid + 1) := by
  intro i earlier hLt hEarlier
  rcases List.getElem?_eq_some_iff.mp hGet with ⟨hMid, rfl⟩
  rcases List.getElem?_eq_some_iff.mp hEarlier with ⟨hIdx, rfl⟩
  rcases Nat.lt_or_eq_of_le (Nat.le_of_lt_succ hLt) with hBefore | rfl
  · have hPair := List.pairwise_iff_getElem.mp hOrdered i mid hIdx hMid hBefore
    exact hPair.1 hProbe
  · exact hProbe

theorem AllFrom.of_gt (hOrdered : Ordered entries probe) {mid : Nat} {entry : α}
    (hGet : entries[mid]? = some entry) (hProbe : probe entry = .gt) :
    AllFrom entries probe mid := by
  intro i later hLe hLater
  rcases List.getElem?_eq_some_iff.mp hGet with ⟨hMid, rfl⟩
  rcases List.getElem?_eq_some_iff.mp hLater with ⟨hIdx, rfl⟩
  rcases Nat.lt_or_eq_of_le hLe with hAfter | rfl
  · have hPair := List.pairwise_iff_getElem.mp hOrdered mid i hMid hIdx hAfter
    exact hPair.2 hProbe
  · exact hProbe

/- What a search may answer, whatever window it ran on. -/
def Found (entries : List α) (probe : α → Ordering) : Except Nat Nat → Prop
  | .ok index => ∃ entry, entries[index]? = some entry ∧ probe entry = .eq
  | .error index =>
    index ≤ entries.length ∧ AllBefore entries probe index ∧ AllFrom entries probe index

theorem found_error {left right : Nat} (hEmpty : left = right) (hRight : right ≤ entries.length)
    (hBefore : AllBefore entries probe left) (hFrom : AllFrom entries probe right) :
    Found entries probe (.error left) := by
  subst hEmpty
  exact ⟨hRight, hBefore, hFrom⟩

/-
  By induction on the fuel: the window stays between the entries known to lie below and those
  known to lie above.
-/
theorem searchLoop_spec (hOrdered : Ordered entries probe) {fuel left right : Nat}
    (hWindow : left ≤ right) (hRight : right ≤ entries.length) (hFuel : right - left ≤ fuel)
    (hBefore : AllBefore entries probe left) (hFrom : AllFrom entries probe right) :
    Found entries probe (searchLoop entries probe fuel left right) := by
  induction fuel generalizing left right with
  | zero => exact found_error (by omega) hRight hBefore hFrom
  | succ fuel ih =>
    unfold searchLoop
    split
    · rename_i hLt
      have hMid : left + (right - left) / 2 < entries.length := by omega
      have hGet := List.getElem?_eq_getElem hMid
      dsimp only
      rw [hGet, Option.map_some]
      cases hProbe : probe entries[left + (right - left) / 2] with
      | lt =>
        have hBefore' := AllBefore.of_lt hOrdered hGet hProbe
        exact ih (by omega) hRight (by omega) hBefore' hFrom
      | gt =>
        have hFrom' := AllFrom.of_gt hOrdered hGet hProbe
        exact ih (by omega) (by omega) (by omega) hBefore hFrom'
      | eq => exact ⟨_, hGet, hProbe⟩
    · exact found_error (by omega) hRight hBefore hFrom

theorem binarySearch_spec (hOrdered : Ordered entries probe) :
    Found entries probe (binarySearch entries probe) := by
  unfold binarySearch
  apply searchLoop_spec hOrdered (Nat.zero_le _) (Nat.le_refl _)
  · omega
  · intro i entry hLt
    omega
  · intro i entry hLe hGet
    rcases List.getElem?_eq_some_iff.mp hGet with ⟨hLt, -⟩
    omega

/-
  On a list whose satisfying entries come first, the partition point separates them from the
  others.
-/
theorem partitionPoint_spec {holds : α → Bool}
    (hOrdered : entries.Pairwise (fun earlier later => holds later → holds earlier)) :
    partitionPoint entries holds ≤ entries.length ∧
    (∀ i entry, i < partitionPoint entries holds → entries[i]? = some entry → holds entry = true) ∧
    ∀ i entry,
      partitionPoint entries holds ≤ i → entries[i]? = some entry → holds entry = false := by
  have hProbe : Ordered entries (fun entry => if holds entry then .lt else .gt) := by
    apply List.Pairwise.imp _ hOrdered
    intro earlier later hImp
    cases hLater : holds later <;>
      cases hEarlier : holds earlier <;> simp_all
  have hFound := binarySearch_spec hProbe
  unfold partitionPoint
  split
  · rename_i index hSearch
    rw [hSearch] at hFound
    rcases hFound with ⟨entry, -, hEq⟩
    cases hHolds : holds entry <;> simp [hHolds] at hEq
  · rename_i index hSearch
    rw [hSearch] at hFound
    rcases hFound with ⟨hLe, hBefore, hFrom⟩
    refine ⟨hLe, ?_, ?_⟩
    · intro i entry hLt hGet
      have hLess := hBefore i entry hLt hGet
      cases hHolds : holds entry <;> simp_all
    · intro i entry hGe hGet
      have hGreater := hFrom i entry hGe hGet
      cases hHolds : holds entry <;> simp_all

end Bisection

namespace KeySort

variable {α β : Type} [LinearOrder β]

theorem pairwise_mergeSort (key : α → β) (xs : List α) :
    (xs.mergeSort (fun left right => decide (key left ≤ key right))).Pairwise
      (fun left right => key left ≤ key right) := by
  have hSorted :=
    @List.pairwise_mergeSort α
      (fun left right => decide (key left ≤ key right))
      (fun a b c hLeft hRight =>
        decide_eq_true ((of_decide_eq_true hLeft).trans (of_decide_eq_true hRight)))
      (fun a b => by
        rcases le_total (key a) (key b) with hLe | hLe
        · rw [decide_eq_true hLe, Bool.true_or]
        · rw [decide_eq_true hLe, Bool.or_true])
      xs
  exact hSorted.imp (fun hLe => of_decide_eq_true hLe)

theorem mergeSort_eq_of_perm {key : α → β} {xs ys : List α} (hPerm : xs.Perm ys)
    (hKey : ∀ a ∈ xs, ∀ b ∈ xs, key a = key b → a = b) :
    xs.mergeSort (fun left right => decide (key left ≤ key right)) =
      ys.mergeSort (fun left right => decide (key left ≤ key right)) := by
  apply @List.Perm.eq_of_pairwise α (fun left right => key left ≤ key right)
  · intro a b hLeft hRight hLe hGe
    rw [List.mem_mergeSort] at hLeft hRight
    exact hKey a hLeft b (hPerm.mem_iff.mpr hRight) (le_antisymm hLe hGe)
  · exact pairwise_mergeSort key xs
  · exact pairwise_mergeSort key ys
  · exact (List.mergeSort_perm xs _).trans (hPerm.trans (List.mergeSort_perm ys _).symm)

/- By induction over the list: what repeats the first element cannot come after an element that
   differs from it. -/
theorem nodup_of_isChain_ne {key : α → β} {xs : List α} (hKey : Function.Injective key)
    (hSorted : xs.Pairwise (fun left right => key left ≤ key right))
    (hChain : xs.IsChain (fun left right => left ≠ right)) : xs.Nodup := by
  induction xs with
  | nil => exact List.nodup_nil
  | cons a rest ih =>
    rw [List.pairwise_cons] at hSorted
    rw [List.nodup_cons]
    refine ⟨?_, ih hSorted.2 hChain.tail⟩
    cases rest with
    | nil => exact List.not_mem_nil
    | cons b rest =>
      intro hMem
      rw [List.isChain_cons_cons] at hChain
      have hLe := hSorted.1 b List.mem_cons_self
      have hGe : key b ≤ key a := by
        rcases List.mem_cons.mp hMem with rfl | hMem
        · exact le_refl _
        · exact (List.pairwise_cons.mp hSorted.2).1 a hMem
      exact hChain.1 (hKey (le_antisymm hLe hGe))

/- Removing what repeats its neighbour shortens a sorted list exactly when something is repeated. -/
theorem length_destutter_mergeSort_iff [DecidableEq α] {key : α → β} (hKey : Function.Injective key)
    (xs : List α) :
    ((xs.mergeSort (fun left right => decide (key left ≤ key right))).destutter
          (fun left right => left ≠ right)).length =
      (xs.mergeSort (fun left right => decide (key left ≤ key right))).length ↔
    xs.Nodup := by
  have hPerm := List.mergeSort_perm xs (fun left right => decide (key left ≤ key right))
  have hSorted := pairwise_mergeSort key xs
  rw [← hPerm.nodup_iff]
  constructor
  · intro hLength
    have hSame := (List.destutter_sublist _ _).eq_of_length hLength
    rw [List.destutter_eq_self_iff] at hSame
    exact nodup_of_isChain_ne hKey hSorted hSame
  · intro hNodup
    rw [List.destutter_of_isChain _ _ hNodup.isChain]

end KeySort

--- Weights

namespace LargestFirst

variable {α : Type} (weigh : α → Nat)

def weight (items : List α) : Nat := (items.map weigh).sum

@[simp]
theorem weight_nil : weight weigh [] = 0 := rfl

@[simp]
theorem weight_cons (item : α) (items : List α) :
    weight weigh (item :: items) = weigh item + weight weigh items := by
  unfold weight
  rw [List.map_cons, List.sum_cons]

theorem weight_append (first second : List α) :
    weight weigh (first ++ second) = weight weigh first + weight weigh second := by
  unfold weight
  rw [List.map_append, List.sum_append]

theorem weight_perm {items items' : List α} (hPerm : items.Perm items') :
    weight weigh items = weight weigh items' := by
  unfold weight
  exact (hPerm.map weigh).sum_eq

variable (items : List α)

theorem weight_take_mono {j k : Nat} (hLe : j ≤ k) :
    weight weigh (items.take j) ≤ weight weigh (items.take k) := by
  rw [← Nat.add_sub_of_le hLe, List.take_add, weight_append]
  exact Nat.le_add_right _ _

--- Descending Lists

/- Heaviest first.  Items of one weight keep their order. -/
def descending (items : List α) : List α := items.insertionSort (fun a b => weigh b ≤ weigh a)

theorem perm_descending : (descending weigh items).Perm items := List.perm_insertionSort _ _

theorem pairwise_descending : (descending weigh items).Pairwise (fun a b => weigh b ≤ weigh a) := by
  have hTotal : Std.Total (fun a b : α => weigh b ≤ weigh a) :=
    ⟨fun a b => Nat.le_total (weigh b) (weigh a)⟩
  have hTrans : IsTrans α (fun a b : α => weigh b ≤ weigh a) :=
    ⟨fun a b c hAB hBC => Nat.le_trans hBC hAB⟩
  exact List.pairwise_insertionSort _ _

/- By induction over the descending list: its head is at least as heavy as any item that a choice
   takes instead. -/
theorem weight_le_take_of_sublist {sorted chosen : List α}
    (hSorted : sorted.Pairwise (fun a b => weigh b ≤ weigh a)) (hSublist : chosen.Sublist sorted) :
    weight weigh chosen ≤ weight weigh (sorted.take chosen.length) := by
  induction hSublist with
  | slnil => exact le_rfl
  | @cons chosen sorted head hSublist ih =>
    rw [List.pairwise_cons] at hSorted
    have hTail := ih hSorted.2
    cases chosen with
    | nil => exact Nat.zero_le _
    | cons item chosen =>
      rw [List.length_cons, List.take_succ_cons, weight_cons weigh head]
      rw [List.length_cons] at hTail
      have hLast :
          weight weigh (sorted.take (chosen.length + 1)) ≤
            weigh head + weight weigh (sorted.take chosen.length) := by
        rw [List.take_add, weight_append, Nat.add_comm]
        apply Nat.add_le_add_right
        cases hRest : sorted.drop chosen.length with
        | nil => exact Nat.zero_le _
        | cons next rest =>
          have hNext : next ∈ sorted := by
            apply List.mem_of_mem_drop
            rw [hRest]
            exact List.mem_cons_self
          simpa using hSorted.1 next hNext
      exact hTail.trans hLast
  | @cons_cons chosen sorted head hSublist ih =>
    rw [List.pairwise_cons] at hSorted
    rw [List.length_cons, List.take_succ_cons, weight_cons, weight_cons]
    exact Nat.add_le_add_left (ih hSorted.2) _

/- Whatever is chosen weighs no more than as many of the heaviest. -/
theorem weight_le_take {items chosen : List α} (hChosen : chosen.Subperm items) :
    weight weigh chosen ≤ weight weigh ((descending weigh items).take chosen.length) := by
  have hSorted : chosen.Subperm (descending weigh items) :=
    hChosen.trans (perm_descending weigh items).symm.subperm
  rcases hSorted with ⟨same, hPerm, hSublist⟩
  rw [← weight_perm weigh hPerm, ← hPerm.length_eq]
  exact weight_le_take_of_sublist weigh (pairwise_descending weigh items) hSublist

theorem take_subperm (count : Nat) : ((descending weigh items).take count).Subperm items :=
  (List.take_sublist _ _).subperm.trans (perm_descending weigh items).subperm

end LargestFirst

--- The k-th Smallest Entry

namespace OrderStatistics

variable {α : Type} [LinearOrder α]

/- The entry at index `k` of the list in increasing order. -/
def kthSmallest (k : Nat) (samples : List α) : Option α := (samples.insertionSort (· ≤ ·))[k]?

variable {k : Nat}

theorem kthSmallest_isSome {samples : List α} (hLt : k < samples.length) :
    ∃ m, kthSmallest k samples = some m := by
  have hSorted : k < (samples.insertionSort (· ≤ ·)).length := by
    rw [List.length_insertionSort]
    exact hLt
  exact ⟨_, List.getElem?_eq_getElem hSorted⟩

variable {m : α}

/-
  In a sorted list the entries below `x` come first, so that entry `k` is at least `x` when at
  most `k` are below it.
-/
theorem le_getElem_iff_of_sorted {sorted : List α} (hSorted : sorted.Pairwise (· ≤ ·))
    (hGet : sorted[k]? = some m) (x : α) : x ≤ m ↔ sorted.countP (· < x) ≤ k := by
  induction sorted generalizing k with
  | nil => simp at hGet
  | cons least sorted ih =>
    rw [List.pairwise_cons] at hSorted
    rcases hSorted with ⟨hLeast, hRest⟩
    rw [List.countP_cons]
    cases k with
    | zero =>
      have hHead : least = m := by simpa using hGet
      subst hHead
      constructor
      · intro hLe
        have hNone : sorted.countP (· < x) = 0 := by
          rw [List.countP_eq_zero]
          intro y hMem
          have hAbove := hLe.trans (hLeast y hMem)
          simpa using hAbove
        simpa [hNone] using hLe
      · intro hCount
        by_contra hBelow
        simp [not_le.mp hBelow] at hCount
    | succ k =>
      have hTail : sorted[k]? = some m := by simpa using hGet
      have hBetween : least ≤ m := hLeast m (List.mem_of_getElem? hTail)
      rw [ih hRest hTail]
      by_cases hBelow : least < x
      · simp [hBelow]
      · have hLe : x ≤ m := (not_lt.mp hBelow).trans hBetween
        have hCount := (ih hRest hTail).mp hLe
        have hNone : sorted.countP (· < x) = 0 := by
          rw [List.countP_eq_zero]
          intro y hMem
          have hAbove := (not_lt.mp hBelow).trans (hLeast y hMem)
          simpa using hAbove
        simp [hBelow, hNone]

theorem le_kthSmallest_iff {samples : List α} (hKth : kthSmallest k samples = some m) (x : α) :
    x ≤ m ↔ samples.countP (· < x) ≤ k := by
  have hPerm := List.perm_insertionSort (· ≤ ·) samples
  rw [← hPerm.countP_eq]
  exact le_getElem_iff_of_sorted (List.pairwise_insertionSort (· ≤ ·) samples) hKth x

--- Sliding Windows

/-
  Dropping the oldest sample can only lower the number of samples below a value, and a new one at
  or above the value does not raise it.
-/
theorem kthSmallest_slide {oldest newest m' : α} {kept : List α}
    (hBefore : kthSmallest k (oldest :: kept) = some m)
    (hAfter : kthSmallest k (kept ++ [newest]) = some m') (hNewest : m ≤ newest) : m ≤ m' := by
  rw [le_kthSmallest_iff hAfter]
  have hNotBelow : ¬ newest < m := not_lt.mpr hNewest
  have hCount := (le_kthSmallest_iff hBefore m).mp le_rfl
  rw [List.countP_cons] at hCount
  calc
    (kept ++ [newest]).countP (· < m)
        = kept.countP (· < m) := by
          simp [List.countP_append, hNotBelow]
    _ ≤ k := by omega

end OrderStatistics
