import Mathlib.Algebra.BigOperators.Group.List.Basic
import Mathlib.Algebra.Order.Ring.Nat

/-
  Finite maps that keep their entries in the order of their keys, each key once.

  Main declarations:
    * `BTreeMap.get?`
    * `BTreeMap.insert`, `BTreeMap.insertAll`, `BTreeMap.retain` and `BTreeMap.mapValues`
    * `BTreeMap.get?_eq_some_iff`
    * `BTreeMap.ext_get?`
    * `BTreeMap.getLast?_eq_some_iff`
    * `BTreeMap.total_insert`
-/

structure BTreeMap (κ ν : Type) [LinearOrder κ] where
  entries : List (κ × ν)
  sorted : entries.Pairwise (fun earlier later => earlier.1 < later.1)

namespace BTreeMap

variable {κ ν : Type} [LinearOrder κ]

def new : BTreeMap κ ν := { entries := [], sorted := List.Pairwise.nil }

def singleton (key : κ) (value : ν) : BTreeMap κ ν :=
  { entries := [(key, value)], sorted := List.pairwise_singleton _ _ }

section

variable (map : BTreeMap κ ν)

def get? (key : κ) : Option ν := map.entries.lookup key

/- The keys, the least first. -/
def keys : List κ := map.entries.map Prod.fst

/- The values, in the order of their keys. -/
def values : List ν := map.entries.map Prod.snd

/- The greatest key. -/
def lastKey? : Option κ := map.entries.getLast?.map Prod.fst

/- The entries whose key has a property. -/
def retain (keep : κ → Bool) : BTreeMap κ ν :=
  { entries := map.entries.filter (fun entry => keep entry.1)
    sorted := map.sorted.filter _ }

/- Each value becomes one that may depend on its key. -/
def mapValues {ν' : Type} (f : κ → ν → ν') : BTreeMap κ ν' :=
  { entries := map.entries.map (fun entry => (entry.1, f entry.1 entry.2))
    sorted := map.sorted.map _ (fun _ _ hLt => hLt) }

/-
  The map with `value` at `key`, in place of the value that was there.
-/
def insert (key : κ) (value : ν) : BTreeMap κ ν :=
  { entries :=
      (map.retain (fun other => decide (other < key))).entries ++
        (key, value) :: (map.retain (fun other => decide (key < other))).entries
    sorted := by
      rw [List.pairwise_append, List.pairwise_cons]
      refine ⟨(map.retain _).sorted, ⟨?_, (map.retain _).sorted⟩, ?_⟩
      · intro later hLater
        exact of_decide_eq_true (List.mem_filter.mp hLater).2
      · intro earlier hEarlier later hLater
        have hBefore : earlier.1 < key := of_decide_eq_true (List.mem_filter.mp hEarlier).2
        rcases List.mem_cons.mp hLater with rfl | hAfter
        · exact hBefore
        · apply lt_trans hBefore
          exact of_decide_eq_true (List.mem_filter.mp hAfter).2 }

/- The map after insertions, one after the other. -/
def insertAll (inserted : List (κ × ν)) : BTreeMap κ ν :=
  inserted.foldl (fun map entry => map.insert entry.1 entry.2) map

/- The map without `key`. -/
def remove (key : κ) : BTreeMap κ ν :=
  map.retain (fun other => decide (other ≠ key))

end

--- Lookup And Membership

variable {map : BTreeMap κ ν} {key : κ} {value : ν}

/- By induction over the entries. -/
theorem get?_eq_some_iff : map.get? key = some value ↔ (key, value) ∈ map.entries := by
  rcases map with ⟨entries, hSorted⟩
  unfold get?
  dsimp only
  induction entries with
  | nil => simp
  | cons entry entries ih =>
    rcases entry with ⟨first, firstValue⟩
    rw [List.pairwise_cons] at hSorted
    rw [List.mem_cons]
    by_cases hKey : key = first
    · subst hKey
      rw [List.lookup_cons_self, Option.some_inj, Prod.mk.injEq]
      constructor
      · intro hValue
        exact Or.inl ⟨rfl, hValue.symm⟩
      · rintro (⟨-, hValue⟩ | hMem)
        · exact hValue.symm
        · exact absurd (hSorted.1 _ hMem) (lt_irrefl key)
    · have hNe : (key == first) = false := beq_eq_false_iff_ne.mpr hKey
      rw [List.lookup_cons, hNe]
      dsimp only
      rw [ih hSorted.2, Prod.mk.injEq]
      constructor
      · exact Or.inr
      · rintro (⟨hEq, -⟩ | hMem)
        · exact absurd hEq hKey
        · exact hMem

theorem mem_keys_iff : key ∈ map.keys ↔ ∃ value, map.get? key = some value := by
  unfold keys
  rw [List.mem_map]
  constructor
  · rintro ⟨⟨_, value⟩, hMem, rfl⟩
    exact ⟨value, get?_eq_some_iff.mpr hMem⟩
  · rintro ⟨value, hValue⟩
    exact ⟨(key, value), get?_eq_some_iff.mp hValue, rfl⟩

@[simp]
theorem get?_new (key : κ) : (new : BTreeMap κ ν).get? key = none := rfl

@[simp]
theorem get?_retain (map : BTreeMap κ ν) (keep : κ → Bool) (key : κ) :
    (map.retain keep).get? key =
      if keep key then map.get? key else none := by
  apply Option.ext
  intro value
  rw [get?_eq_some_iff]
  unfold retain
  rw [List.mem_filter]
  split
  · rename_i hKeep
    rw [get?_eq_some_iff]
    exact and_iff_left hKeep
  · rename_i hDrop
    simp [hDrop]

@[simp]
theorem get?_remove (map : BTreeMap κ ν) (key other : κ) :
    (map.remove key).get? other =
      if other = key then none else map.get? other := by
  unfold remove
  rw [get?_retain]
  by_cases hSame : other = key
  · simp [hSame]
  · simp [hSame]

@[simp]
theorem get?_mapValues {ν' : Type} (map : BTreeMap κ ν) (f : κ → ν → ν') (key : κ) :
    (map.mapValues f).get? key = (map.get? key).map (f key) := by
  apply Option.ext
  intro value
  rw [get?_eq_some_iff, Option.map_eq_some_iff]
  unfold mapValues
  dsimp only
  rw [List.mem_map]
  constructor
  · rintro ⟨⟨_, old⟩, hMem, hEq⟩
    cases hEq
    exact ⟨old, get?_eq_some_iff.mpr hMem, rfl⟩
  · rintro ⟨old, hOld, rfl⟩
    exact ⟨(key, old), get?_eq_some_iff.mp hOld, rfl⟩

theorem mem_insert_entries {entry : κ × ν} :
    entry ∈ (map.insert key value).entries ↔
    entry = (key, value) ∨ entry.1 ≠ key ∧ entry ∈ map.entries := by
  unfold insert retain
  dsimp only
  rw [List.mem_append, List.mem_cons, List.mem_filter, List.mem_filter, decide_eq_true_eq,
    decide_eq_true_eq, ne_iff_lt_or_gt]
  constructor
  · rintro (⟨hMem, hLt⟩ | rfl | ⟨hMem, hGt⟩)
    · exact Or.inr ⟨Or.inl hLt, hMem⟩
    · exact Or.inl rfl
    · exact Or.inr ⟨Or.inr hGt, hMem⟩
  · rintro (rfl | ⟨hLt | hGt, hMem⟩)
    · exact Or.inr (Or.inl rfl)
    · exact Or.inl ⟨hMem, hLt⟩
    · exact Or.inr (Or.inr ⟨hMem, hGt⟩)

@[simp]
theorem get?_insert (map : BTreeMap κ ν) (key other : κ) (value : ν) :
    (map.insert key value).get? other =
      if other = key then some value else map.get? other := by
  apply Option.ext
  intro found
  rw [get?_eq_some_iff, mem_insert_entries]
  split
  · rename_i hSame
    subst hSame
    simp [eq_comm]
  · rename_i hOther
    rw [get?_eq_some_iff]
    simp [hOther]

/- By induction over the insertions: the last one of a key counts. -/
theorem get?_insertAll (map : BTreeMap κ ν) (inserted : List (κ × ν)) (key : κ) :
    (map.insertAll inserted).get? key = (inserted.reverse.lookup key).or (map.get? key) := by
  induction inserted generalizing map with
  | nil => rfl
  | cons entry inserted ih =>
    unfold insertAll at ih ⊢
    rw [List.foldl_cons, ih, List.reverse_cons, List.lookup_append, Option.or_assoc, get?_insert]
    congr 1
    by_cases hKey : key = entry.1
    · subst hKey
      rw [List.lookup_cons_self, if_pos rfl, Option.some_or]
    · rw [if_neg hKey, List.lookup_cons, beq_eq_false_iff_ne.mpr hKey]
      rfl

theorem nodup (map : BTreeMap κ ν) : map.entries.Nodup := by
  apply map.sorted.imp
  intro earlier later hLt hEq
  rw [hEq] at hLt
  exact lt_irrefl _ hLt

/-
  Maps with the same lookups are equal: both lists of entries are sorted, and they hold the same
  entries.
-/
theorem ext_get? {map' : BTreeMap κ ν} (hLookup : ∀ key, map.get? key = map'.get? key) :
    map = map' := by
  have hSame : ∀ entry, entry ∈ map.entries ↔ entry ∈ map'.entries := by
    rintro ⟨key, value⟩
    rw [← get?_eq_some_iff, ← get?_eq_some_iff, hLookup]
  have hPerm : map.entries.Perm map'.entries := by
    rw [List.perm_ext_iff_of_nodup map.nodup map'.nodup]
    exact hSame
  have hEntries : map.entries = map'.entries := by
    apply hPerm.eq_of_pairwise _ map.sorted map'.sorted
    intro a b _ _ hLt hGt
    exact absurd hGt (lt_asymm hLt)
  cases map
  cases map'
  cases hEntries
  rfl

--- Totals

/- The sum of an amount over the values. -/
def total (map : BTreeMap κ ν) (amount : ν → Nat) : Nat := (map.values.map amount).sum

/- A new value comes before all the others, in some order. -/
theorem insert_entries_perm (map : BTreeMap κ ν) (key : κ) (value : ν) :
    (map.insert key value).entries.Perm ((key, value) :: (map.remove key).entries) := by
  have hFresh : (key, value) ∉ (map.remove key).entries := by
    rw [← get?_eq_some_iff, get?_remove, if_pos rfl]
    simp
  rw [List.perm_ext_iff_of_nodup (nodup _) (List.nodup_cons.mpr ⟨hFresh, nodup _⟩)]
  rintro ⟨other, found⟩
  rw
    [List.mem_cons, ← get?_eq_some_iff, ← get?_eq_some_iff, get?_insert, get?_remove, Prod.mk.injEq]
  by_cases hSame : other = key
  · simp [hSame, eq_comm]
  · simp [hSame]

theorem entries_perm_of_get? (hValue : map.get? key = some value) :
    map.entries.Perm ((key, value) :: (map.remove key).entries) := by
  have hSame : map.insert key value = map := by
    apply ext_get?
    intro other
    rw [get?_insert]
    split
    · rename_i hOther
      rw [hOther, hValue]
    · rfl
  have hPerm := map.insert_entries_perm key value
  rw [hSame] at hPerm
  exact hPerm

theorem remove_of_get? (hNone : map.get? key = none) : map.remove key = map := by
  apply ext_get?
  intro other
  rw [get?_remove]
  split
  · rename_i hOther
    rw [hOther, hNone]
  · rfl

/- The last entry is the one at the greatest key. -/
theorem getLast?_eq_some_iff :
    map.entries.getLast? = some (key, value) ↔
    map.get? key = some value ∧ ∀ other found, map.get? other = some found → other ≤ key := by
  simp only [get?_eq_some_iff]
  constructor
  · intro hLast
    rcases List.getLast?_eq_some_iff.mp hLast with ⟨front, hEntries⟩
    have hSorted := map.sorted
    rw [hEntries, List.pairwise_append] at hSorted
    rw [hEntries]
    constructor
    · simp
    · intro other found hMem
      rcases List.mem_append.mp hMem with hFront | hHere
      · have hLt := hSorted.2.2 _ hFront _ (List.mem_singleton_self _)
        exact hLt.le
      · have hSame := List.mem_singleton.mp hHere
        rw [(Prod.mk.inj hSame).1]
  · rintro ⟨hMem, hGreatest⟩
    cases hLast : map.entries.getLast? with
    | none =>
      rw [List.getLast?_eq_none_iff.mp hLast] at hMem
      cases hMem
    | some last =>
      rcases List.getLast?_eq_some_iff.mp hLast with ⟨front, hEntries⟩
      have hSorted := map.sorted
      rw [hEntries, List.pairwise_append] at hSorted
      rw [hEntries] at hMem
      rcases List.mem_append.mp hMem with hFront | hHere
      · have hLt := hSorted.2.2 _ hFront _ (List.mem_singleton_self _)
        have hLe := hGreatest last.1 last.2 (by simp [hEntries])
        exact absurd hLt (not_lt_of_ge hLe)
      · rw [List.mem_singleton.mp hHere]

theorem total_eq (map : BTreeMap κ ν) (amount : ν → Nat) :
    map.total amount = (map.entries.map (fun entry => amount entry.2)).sum := by
  unfold total values
  rw [List.map_map]
  rfl

/- The value that was at the key leaves the total. -/
theorem total_insert (map : BTreeMap κ ν) (key : κ) (value : ν) (amount : ν → Nat) :
    (map.insert key value).total amount + ((map.get? key).map amount).getD 0 =
      map.total amount + amount value := by
  have hNew :
      (map.insert key value).total amount = amount value + (map.remove key).total amount := by
    rw [total_eq, total_eq]
    exact ((map.insert_entries_perm key value).map _).sum_eq
  rw [hNew]
  cases hOld : map.get? key with
  | none =>
    rw [remove_of_get? hOld, Option.map_none, Option.getD_none]
    omega
  | some old =>
    have hTotal : map.total amount = amount old + (map.remove key).total amount := by
      rw [total_eq, total_eq]
      exact ((entries_perm_of_get? hOld).map _).sum_eq
    rw [hTotal, Option.map_some, Option.getD_some]
    omega

--- Many Insertions

theorem insertAll_append (map : BTreeMap κ ν) (first second : List (κ × ν)) :
    map.insertAll (first ++ second) = (map.insertAll first).insertAll second := List.foldl_append

/- What a map with insertions holds was inserted or there. -/
theorem mem_of_get?_insertAll {inserted : List (κ × ν)}
    (hGet : (map.insertAll inserted).get? key = some value) :
    (key, value) ∈ inserted ∨ map.get? key = some value := by
  rw [get?_insertAll, Option.or_eq_some_iff] at hGet
  rcases hGet with hInserted | ⟨-, hOld⟩
  · left
    rcases List.lookup_eq_some_iff.mp hInserted with ⟨front, back, hSplit, -⟩
    rw [← List.mem_reverse, hSplit]
    exact List.mem_append_right _ List.mem_cons_self
  · exact Or.inr hOld

theorem isSome_get?_insertAll (map : BTreeMap κ ν) {inserted : List (κ × ν)} {entry : κ × ν}
    (hMem : entry ∈ inserted) : ((map.insertAll inserted).get? entry.1).isSome = true := by
  have hFound : (inserted.reverse.lookup entry.1).isSome = true := by
    rw [List.lookup_isSome_iff]
    exact ⟨entry, List.mem_reverse.mpr hMem, beq_self_eq_true _⟩
  rw [get?_insertAll, Option.isSome_or, hFound, Bool.true_or]

/- Insertions take nothing away. -/
theorem length_le_insertAll (map : BTreeMap κ ν) (inserted : List (κ × ν)) :
    map.entries.length ≤ (map.insertAll inserted).entries.length := by
  have hCount (map : BTreeMap κ ν) : map.entries.length = map.total (fun _ => 1) := by
    rw [total_eq]
    simp
  induction inserted generalizing map with
  | nil => exact le_refl _
  | cons entry inserted ih =>
    have hRest := ih (map.insert entry.1 entry.2)
    have hTotal := map.total_insert entry.1 entry.2 (fun _ => 1)
    rw [← hCount, ← hCount] at hTotal
    have hOne : ((map.get? entry.1).map (fun _ => 1)).getD 0 ≤ 1 := by
      cases map.get? entry.1 <;> simp
    change _ ≤ ((map.insert entry.1 entry.2).insertAll inserted).entries.length
    omega

/- Where no key comes twice, the order is all the same. -/
theorem get?_insertAll_entries (map other : BTreeMap κ ν) (key : κ) :
    (map.insertAll other.entries).get? key = (other.get? key).or (map.get? key) := by
  rcases other with ⟨entries, hSorted⟩
  unfold get? insertAll
  dsimp only
  induction entries generalizing map with
  | nil => rfl
  | cons entry entries ih =>
    rw [List.pairwise_cons] at hSorted
    have hRest := ih (map.insert entry.1 entry.2) hSorted.2
    have hInsert := map.get?_insert entry.1 key entry.2
    unfold get? at hInsert
    rw [List.foldl_cons, hRest, hInsert]
    by_cases hKey : key = entry.1
    · subst hKey
      have hOther : entries.lookup entry.1 = none := by
        rw [List.lookup_eq_none_iff]
        intro later hLater
        exact bne_iff_ne.mpr (ne_of_lt (hSorted.1 later hLater))
      rw [hOther, List.lookup_cons_self, if_pos rfl]
      rfl
    · rw [if_neg hKey, List.lookup_cons, beq_eq_false_iff_ne.mpr hKey]

/- Insertions that can fail, collected before they are made. -/
theorem foldlM_insert {ε α : Type} (f : α → Except ε (κ × ν)) (inputs : List α)
    (map : BTreeMap κ ν) :
    inputs.foldlM
        (fun map a => do
          let entry ← f a
          .ok (map.insert entry.1 entry.2))
        map =
      (inputs.mapM f).map (fun entries => map.insertAll entries) := by
  induction inputs generalizing map with
  | nil => rfl
  | cons a inputs ih =>
    rw [List.foldlM_cons, List.mapM_cons]
    cases f a with
    | error e => rfl
    | ok entry =>
      have hRest := ih (map.insert entry.1 entry.2)
      change List.foldlM _ _ inputs = _
      rw [hRest]
      cases inputs.mapM f with
      | error e => rfl
      | ok entries => rfl

theorem foldlM_insertAll {ε α : Type} (f : α → Except ε (List (κ × ν))) (inputs : List α)
    (map : BTreeMap κ ν) :
    inputs.foldlM (fun map a => (f a).map (fun entries => map.insertAll entries)) map =
      (inputs.mapM f).map (fun entries => map.insertAll entries.flatten) := by
  induction inputs generalizing map with
  | nil => rfl
  | cons a inputs ih =>
    rw [List.foldlM_cons, List.mapM_cons]
    cases f a with
    | error e => rfl
    | ok here =>
      have hRest := ih (map.insertAll here)
      change List.foldlM _ _ inputs = _
      rw [hRest]
      cases inputs.mapM f with
      | error e => rfl
      | ok entries =>
        change Except.ok _ = Except.ok (map.insertAll (here ++ entries.flatten))
        rw [insertAll_append]

end BTreeMap
