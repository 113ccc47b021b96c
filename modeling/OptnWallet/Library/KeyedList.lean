import Mathlib.Algebra.Order.Ring.Nat
import Mathlib.Data.List.Nodup

/-
  Lists whose items have keys: the first item with a key, and a method run on it where it stands.

  Main declarations:
    * `KeyedList.find` and `KeyedList.modify`
    * `KeyedList.modify_map`
    * `KeyedList.find_modify` and `find_modify_of_ne`
-/

namespace KeyedList

variable {κ α ρ : Type} [DecidableEq κ]

--- The First Item With A Key

def find (keyOf : α → κ) (key : κ) (items : List α) : Option α :=
  items.find? (fun item => decide (keyOf item = key))

variable {keyOf : α → κ} {key : κ} {item : α} {items : List α}

theorem find_cons_of_eq (hKey : keyOf item = key) : find keyOf key (item :: items) = some item := by
  unfold find
  rw [List.find?_cons_of_pos]
  exact decide_eq_true hKey

theorem find_cons_of_ne (hKey : keyOf item ≠ key) :
    find keyOf key (item :: items) = find keyOf key items := by
  unfold find
  rw [List.find?_cons_of_neg]
  simpa using hKey

theorem mem_of_find (hFind : find keyOf key items = some item) : item ∈ items := by
  unfold find at hFind
  exact List.mem_of_find?_eq_some hFind

theorem key_of_find (hFind : find keyOf key items = some item) : keyOf item = key := by
  unfold find at hFind
  have hHere := List.find?_some hFind
  exact of_decide_eq_true hHere

theorem find_eq_none_iff : find keyOf key items = none ↔ ∀ item ∈ items, keyOf item ≠ key := by
  unfold find
  rw [List.find?_eq_none]
  simp only [decide_eq_true_eq, ne_eq]

theorem find_ne_none_of_mem (hMem : item ∈ items) : find keyOf (keyOf item) items ≠ none := by
  intro hNone
  exact find_eq_none_iff.mp hNone item hMem rfl

/- By induction over the list. -/
theorem find_of_mem (hNodup : (items.map keyOf).Nodup) (hMem : item ∈ items) :
    find keyOf (keyOf item) items = some item := by
  induction items with
  | nil => cases hMem
  | cons first items ih =>
    rw [List.map_cons, List.nodup_cons] at hNodup
    rcases List.mem_cons.mp hMem with rfl | hMem
    · exact find_cons_of_eq rfl
    · have hNe : keyOf first ≠ keyOf item := by
        intro hEq
        apply hNodup.1
        rw [hEq]
        exact List.mem_map_of_mem hMem
      rw [find_cons_of_ne hNe]
      exact ih hNodup.2 hMem

--- A Method Run On One Item

/- What the method answered, if there is such an item, and the list with what it left of that item.
   -/
def modify (keyOf : α → κ) (key : κ) (method : α → ρ × α) : List α → Option ρ × List α
  | [] => (none, [])
  | item :: items =>
    if keyOf item = key then (some (method item).1, (method item).2 :: items)
    else ((modify keyOf key method items).1, item :: (modify keyOf key method items).2)

variable {method : α → ρ × α}

theorem modify_cons_of_eq (hKey : keyOf item = key) :
    modify keyOf key method (item :: items) = (some (method item).1, (method item).2 :: items) := by
  unfold modify
  rw [if_pos hKey]

theorem modify_cons_of_ne (hKey : keyOf item ≠ key) :
    modify keyOf key method (item :: items) =
      ((modify keyOf key method items).1, item :: (modify keyOf key method items).2) := by
  rw [modify, if_neg hKey]

/- The answer is that of the first item with the key. -/
theorem modify_fst (items : List α) :
    (modify keyOf key method items).1 =
      (find keyOf key items).map (fun item => (method item).1) := by
  induction items with
  | nil => rfl
  | cons item items ih =>
    by_cases hKey : keyOf item = key
    · rw [modify_cons_of_eq hKey, find_cons_of_eq hKey]
      rfl
    · rw [modify_cons_of_ne hKey, find_cons_of_ne hKey, ih]

/- What the method leaves alone is left alone in the list. -/
theorem modify_map {β : Type} {g : α → β} (hKeep : ∀ item, g (method item).2 = g item)
    (items : List α) : (modify keyOf key method items).2.map g = items.map g := by
  induction items with
  | nil => rfl
  | cons item items ih =>
    by_cases hKey : keyOf item = key
    · rw [modify_cons_of_eq hKey, List.map_cons, List.map_cons, hKeep]
    · rw [modify_cons_of_ne hKey, List.map_cons, List.map_cons, ih]

/- Nothing changes where the method leaves its item as it was. -/
theorem modify_of_fixed
    (hFixed : ∀ item, find keyOf key items = some item → (method item).2 = item) :
    (modify keyOf key method items).2 = items := by
  induction items with
  | nil => rfl
  | cons item items ih =>
    by_cases hKey : keyOf item = key
    · have hHere := hFixed item (find_cons_of_eq hKey)
      rw [modify_cons_of_eq hKey, hHere]
    · rw [find_cons_of_ne hKey] at hFixed
      rw [modify_cons_of_ne hKey, ih hFixed]

theorem find_modify (hKeep : ∀ item, keyOf (method item).2 = keyOf item) (items : List α) :
    find keyOf key (modify keyOf key method items).2 =
      (find keyOf key items).map (fun item => (method item).2) := by
  induction items with
  | nil => rfl
  | cons item items ih =>
    by_cases hKey : keyOf item = key
    · rw [modify_cons_of_eq hKey, find_cons_of_eq hKey]
      exact find_cons_of_eq ((hKeep item).trans hKey)
    · rw [modify_cons_of_ne hKey, find_cons_of_ne hKey, find_cons_of_ne hKey, ih]

theorem find_modify_of_ne (hKeep : ∀ item, keyOf (method item).2 = keyOf item) {other : κ}
    (hOther : other ≠ key) (items : List α) :
    find keyOf other (modify keyOf key method items).2 = find keyOf other items := by
  induction items with
  | nil => rfl
  | cons item items ih =>
    by_cases hKey : keyOf item = key
    · have hHere : keyOf item ≠ other := by
        rw [hKey]
        exact hOther.symm
      rw [modify_cons_of_eq hKey, find_cons_of_ne hHere]
      exact find_cons_of_ne (hKeep item ▸ hHere)
    · rw [modify_cons_of_ne hKey]
      by_cases hHere : keyOf item = other
      · exact (find_cons_of_eq hHere).trans (find_cons_of_eq hHere).symm
      · exact (find_cons_of_ne hHere).trans (ih.trans (find_cons_of_ne hHere).symm)

/- An item of the new list is what the method left of the first item with the key, or an item of the
   old list. -/
theorem mem_modify (hMem : item ∈ (modify keyOf key method items).2) :
    item ∈ items ∨ ∃ first, find keyOf key items = some first ∧ item = (method first).2 := by
  induction items with
  | nil => cases hMem
  | cons first items ih =>
    by_cases hKey : keyOf first = key
    · rw [modify_cons_of_eq hKey] at hMem
      rcases List.mem_cons.mp hMem with hHere | hMem
      · right
        exact ⟨first, find_cons_of_eq hKey, hHere⟩
      · left
        exact List.mem_cons_of_mem _ hMem
    · rw [modify_cons_of_ne hKey] at hMem
      rcases List.mem_cons.mp hMem with rfl | hMem
      · left
        exact List.mem_cons_self
      · rw [find_cons_of_ne hKey]
        rcases ih hMem with hOld | hNew
        · left
          exact List.mem_cons_of_mem _ hOld
        · exact Or.inr hNew

end KeyedList
