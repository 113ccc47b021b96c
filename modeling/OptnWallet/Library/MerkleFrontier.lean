import Mathlib.Data.List.ReduceOption
import OptnWallet.Library.MerkleTree

/-
  The binary-counter frontier of an append-only Merkle tree: slot `k`, lowest first, holds the
  root of the complete subtree over `2 ^ k` leaves that bit `k` of the leaf count calls for.

  Main declarations:
    * `MerkleTree.carry` and `MerkleTree.leafFrontier`
    * `MerkleTree.bag_frontier`: bagging computes the Merkle root
    * `MerkleTree.bag_carry`: appending and then bagging is bagging with the new leaf in flight
    * `MerkleTree.exists_mountains`: the live slots are the roots of consecutive perfect trees
-/

--- Carrying A Leaf Into A Frontier

namespace MerkleTree

variable {α : Type}

abbrev Frontier (α : Type) := List (Option α)

/- Add a subtree root, merging with equal-sized subtrees. -/
def carry (pair : α → α → α) : Frontier α → α → Frontier α
  | [], node => [some node]
  | none :: rest, node => some node :: rest
  | some left :: rest, node => none :: carry pair rest (pair left node)

/- The frontier of a list of leaves. -/
def leafFrontier (pair : α → α → α) (leaves : List α) : Frontier α := leaves.foldl (carry pair) []

theorem frontier_append_singleton (pair : α → α → α) (leaves : List α) (leaf : α) :
    leafFrontier pair (leaves ++ [leaf]) = carry pair (leafFrontier pair leaves) leaf := by
  simp [leafFrontier]

/- The number of leaves a pattern of live slots stands for. -/
def frontierValue : Frontier α → Nat
  | [] => 0
  | none :: rest => 2 * frontierValue rest
  | some _ :: rest => 2 * frontierValue rest + 1

theorem frontierValue_carry (pair : α → α → α) (slots : Frontier α) (node : α) :
    frontierValue (carry pair slots node) = frontierValue slots + 1 := by
  induction slots generalizing node with
  | nil => rfl
  | cons slot rest ih =>
    cases slot with
    | none => rfl
    | some left =>
      simp only [carry, frontierValue, ih]
      ring

@[simp] theorem frontierValue_frontier (pair : α → α → α) (leaves : List α) :
    frontierValue (leafFrontier pair leaves) = leaves.length := by
  induction leaves using List.reverseRecOn with
  | nil => rfl
  | append_singleton leaves leaf ih =>
    rw [frontier_append_singleton, frontierValue_carry, ih, List.length_append,
      List.length_singleton]

/- The highest slot of a frontier is live. -/
def TopLive : Frontier α → Prop
  | [] => True
  | none :: rest => rest ≠ [] ∧ TopLive rest
  | some _ :: rest => TopLive rest

theorem carry_ne_nil (pair : α → α → α) (slots : Frontier α) (node : α) :
    carry pair slots node ≠ [] := by
  cases slots with
  | nil => exact List.cons_ne_nil _ _
  | cons slot rest => cases slot <;> exact List.cons_ne_nil _ _

variable {slots : Frontier α}

theorem topLive_carry (pair : α → α → α) (node : α) (hTop : TopLive slots) :
    TopLive (carry pair slots node) := by
  induction slots generalizing node with
  | nil => trivial
  | cons slot rest ih =>
    cases slot with
    | none => exact hTop.2
    | some left => exact ⟨carry_ne_nil pair rest _, ih _ hTop⟩

theorem topLive_frontier (pair : α → α → α) (leaves : List α) :
    TopLive (leafFrontier pair leaves) := by
  induction leaves using List.reverseRecOn with
  | nil => trivial
  | append_singleton leaves leaf ih =>
    rw [frontier_append_singleton]
    exact topLive_carry pair leaf ih

theorem frontierValue_pos (hTop : TopLive slots) (hNe : slots ≠ []) : 0 < frontierValue slots := by
  induction slots with
  | nil => exact absurd rfl hNe
  | cons slot rest ih =>
    cases slot with
    | none =>
      have hRest := ih hTop.2 hTop.1
      simp only [frontierValue]
      omega
    | some left => exact Nat.succ_pos _

variable {leaves : List α}

theorem frontier_ne_nil (pair : α → α → α) (hNe : leaves ≠ []) : leafFrontier pair leaves ≠ [] := by
  intro hEmpty
  have hLength := frontierValue_frontier pair leaves
  rw [hEmpty] at hLength
  exact hNe (List.length_eq_zero_iff.mp hLength.symm)

--- One Level At A Time

/- The parents of the complete pairs of a level. -/
def completePairs (pair : α → α → α) : List α → List α
  | a :: b :: rest => pair a b :: completePairs pair rest
  | _ => []

/- The unpaired last node of an odd level. -/
def oddLast : List α → Option α
  | [] => none
  | [a] => some a
  | _ :: _ :: rest => oddLast rest

theorem mem_of_oddLast {nodes : List α} {node : α} (hLast : oddLast nodes = some node) :
    node ∈ nodes := by
  induction nodes using oddLast.induct with
  | case1 => simp [oddLast] at hLast
  | case2 a => simp_all [oddLast]
  | case3 a b rest ih => simp_all [oddLast]

section

variable (pair : α → α → α)

/- Appending a node either completes a pair or stays odd. -/
theorem append_singleton_cases (nodes : List α) (node : α) :
    (oddLast nodes = none ∧
        oddLast (nodes ++ [node]) = some node ∧
        completePairs pair (nodes ++ [node]) = completePairs pair nodes) ∨
    ∃ left,
      oddLast nodes = some left ∧
        oddLast (nodes ++ [node]) = none ∧
        completePairs pair (nodes ++ [node]) = completePairs pair nodes ++ [pair left node] := by
  induction nodes using oddLast.induct with
  | case1 => exact Or.inl ⟨rfl, rfl, rfl⟩
  | case2 a => exact Or.inr ⟨a, rfl, rfl, rfl⟩
  | case3 a b rest ih => simpa [oddLast, completePairs] using ih

/- A frontier holds the odd node of each level in turn. -/
theorem frontier_eq_cons (hNe : leaves ≠ []) :
    leafFrontier pair leaves = oddLast leaves :: leafFrontier pair (completePairs pair leaves) := by
  induction leaves using List.reverseRecOn with
  | nil => exact absurd rfl hNe
  | append_singleton leaves leaf ih =>
    rw [frontier_append_singleton]
    by_cases hEmpty : leaves = []
    · subst hEmpty
      rfl
    · rw [ih hEmpty]
      rcases append_singleton_cases pair leaves leaf with ⟨hEven, hOdd, hPairs⟩ |
        ⟨left, hOdd, hEven, hPairs⟩
      · rw [hEven, hOdd, hPairs]
        rfl
      · rw [hOdd, hEven, hPairs, frontier_append_singleton]
        rfl

/- What a slot and a node in flight send to the next level. -/
def combine : Option α → Option α → Option α
  | none, none => none
  | none, some node => some (pair node node)
  | some left, none => some (pair left left)
  | some left, some node => some (pair left node)

theorem levelUp_append_toList (nodes : List α) (inFlight : Option α) :
    levelUp pair (nodes ++ inFlight.toList) =
      completePairs pair nodes ++ (combine pair (oddLast nodes) inFlight).toList := by
  induction nodes using oddLast.induct with
  | case1 => cases inFlight <;> rfl
  | case2 a => cases inFlight <;> rfl
  | case3 a b rest ih => simp [levelUp, completePairs, oddLast, ih]

theorem completePairs_length (nodes : List α) :
    (completePairs pair nodes).length = nodes.length / 2 := by
  induction nodes using oddLast.induct with
  | case1 => simp [completePairs]
  | case2 a => simp [completePairs]
  | case3 a b rest ih =>
    simp only [completePairs, List.length_cons, ih]
    omega

end

--- Bagging

/-
  Bag a frontier upward with a node in flight.  A lone top slot is the root itself and is not
  paired again.
-/
def bag (pair : α → α → α) : Frontier α → Option α → Option α
  | [], inFlight => inFlight
  | [some top], none => some top
  | slot :: rest, inFlight => bag pair rest (combine pair slot inFlight)

theorem bag_cons_cons (pair : α → α → α) (slot next : Option α) (rest : Frontier α)
    (inFlight : Option α) :
    bag pair (slot :: next :: rest) inFlight =
      bag pair (next :: rest) (combine pair slot inFlight) := by
  cases slot <;> cases inFlight <;> rfl

theorem bag_cons_some (pair : α → α → α) (slot : Option α) (rest : Frontier α) (node : α) :
    bag pair (slot :: rest) (some node) = bag pair rest (combine pair slot (some node)) := by
  cases rest with
  | nil => cases slot <;> rfl
  | cons next rest => exact bag_cons_cons pair slot next _ _

theorem bag_none_cons (pair : α → α → α) (rest : Frontier α) :
    bag pair (none :: rest) none = bag pair rest none := by
  cases rest <;> rfl

theorem bag_some_cons (pair : α → α → α) (left : α) {rest : Frontier α} (hNe : rest ≠ []) :
    bag pair (some left :: rest) none = bag pair rest (some (pair left left)) := by
  cases rest with
  | nil => exact absurd rfl hNe
  | cons next rest => exact bag_cons_cons pair _ next _ _

/-
  Bagging the frontier of `leaves` with a node in flight is the Merkle root of the leaves followed
  by that node.
-/
theorem bag_frontier (pair : α → α → α) (leaves : List α) (inFlight : Option α) :
    bag pair (leafFrontier pair leaves) inFlight = merkleRoot pair (leaves ++ inFlight.toList) := by
  match leaves with
  | [] =>
    cases inFlight with
    | none => simp [leafFrontier, bag, merkleRoot]
    | some node => simp [leafFrontier, bag]
  | [a] =>
    cases inFlight with
    | none => simp [leafFrontier, carry, bag]
    | some node => simp [leafFrontier, carry, bag, combine, merkleRoot, levelUp]
  | a :: b :: rest =>
    have hLonger : 2 ≤ (a :: b :: rest ++ inFlight.toList).length := by
      simp only [List.cons_append, List.length_cons]
      omega
    have hNext : leafFrontier pair (completePairs pair (a :: b :: rest)) ≠ [] :=
      frontier_ne_nil pair (List.cons_ne_nil _ _)
    obtain ⟨slot, slots, hSlots⟩ := List.exists_cons_of_ne_nil hNext
    rw [frontier_eq_cons pair (List.cons_ne_nil _ _), merkleRoot_levelUp pair hLonger,
      levelUp_append_toList, hSlots, bag_cons_cons, ← hSlots]
    exact bag_frontier pair (completePairs pair (a :: b :: rest)) _
  termination_by leaves.length
  decreasing_by
    simp only [completePairs_length, List.length_cons]
    omega

/-
  Appending a node and bagging is bagging with the node in flight.
-/
theorem bag_carry (pair : α → α → α) (node : α) (hTop : TopLive slots) :
    bag pair (carry pair slots node) none = bag pair slots (some node) := by
  induction slots generalizing node with
  | nil => rfl
  | cons slot rest ih =>
    cases slot with
    | none =>
      rw [carry, bag_some_cons pair node hTop.1, bag_cons_some]
      rfl
    | some left =>
      rw [carry, bag_none_cons, ih _ hTop, bag_cons_some]
      rfl

--- The Path Of The Newest Leaf

/- The siblings met by a node carried into a frontier. -/
def lastPath (pair : α → α → α) : Frontier α → α → List α
  | [], _ => []
  | none :: rest, node => node :: lastPath pair rest (pair node node)
  | some left :: rest, node => left :: lastPath pair rest (pair left node)

section

variable (pair : α → α → α) (slots : Frontier α) (node : α)

@[simp] theorem lastPath_length :
    (lastPath pair slots node).length = slots.length := by
  induction slots generalizing node with
  | nil => rfl
  | cons slot rest ih => cases slot <;> simp [lastPath, ih]

/- The newest leaf's path climbs to the bagged root. -/
theorem climb_lastPath :
    bag pair slots (some node) =
      some (climb pair (lastPath pair slots node) (frontierValue slots) node) := by
  induction slots generalizing node with
  | nil => rfl
  | cons slot rest ih =>
    rw [bag_cons_some]
    cases slot with
    | none =>
      have hHalf : 2 * frontierValue rest / 2 = frontierValue rest := by omega
      simp only [combine, lastPath, frontierValue, climb, parent, Nat.mul_mod_right, hHalf]
      exact ih _
    | some left =>
      have hHalf : (2 * frontierValue rest + 1) / 2 = frontierValue rest := by omega
      have hOdd : (2 * frontierValue rest + 1) % 2 = 1 := by omega
      simp only [combine, lastPath, frontierValue, climb, parent, hOdd, hHalf, if_true]
      exact ih _

end

/- A top-live frontier spans the bits of its leaf count. -/
theorem two_pow_length_le (hTop : TopLive slots) (hNe : slots ≠ []) :
    2 ^ slots.length ≤ 2 * frontierValue slots := by
  induction slots with
  | nil => exact absurd rfl hNe
  | cons slot rest ih =>
    rw [List.length_cons, pow_succ]
    cases slot with
    | none =>
      have hRest := ih hTop.2 hTop.1
      simp only [frontierValue]
      omega
    | some left =>
      by_cases hRestNe : rest = []
      · subst hRestNe
        simp [frontierValue]
      · have hRest := ih hTop hRestNe
        simp only [frontierValue]
        omega

theorem frontierValue_lt (slots : Frontier α) : frontierValue slots < 2 ^ slots.length := by
  induction slots with
  | nil => exact Nat.one_pos
  | cons slot rest ih =>
    rw [List.length_cons, pow_succ]
    cases slot <;> simp only [frontierValue] <;> omega

/-
  In a tree without repeated nodes the newest leaf's path has no left duplicates.
-/
theorem noLeftDuplicate_lastPath (pair : α → α → α) (leaves : List α) (leaf : α)
    (hNodup : DistinctNodes pair (leaves ++ [leaf])) :
    NoLeftDuplicate pair (lastPath pair (leafFrontier pair leaves) leaf)
      (frontierValue (leafFrontier pair leaves)) leaf := by
  by_cases hEmpty : leaves = []
  · subst hEmpty
    trivial
  · have hSmaller : (completePairs pair leaves).length < leaves.length := by
      have hPos := List.length_pos_iff.mpr hEmpty
      rw [completePairs_length]
      omega
    have hUp := levelUp_append_toList pair leaves (some leaf)
    have hUpNodup :
        DistinctNodes pair
          (completePairs pair leaves ++ (combine pair (oddLast leaves) (some leaf)).toList) := by
      intro k
      rw [← hUp]
      exact hNodup (k + 1)
    rw [frontier_eq_cons pair hEmpty]
    cases hLast : oddLast leaves with
    | none =>
      rw [hLast] at hUpNodup
      have hHalf :
          2 * frontierValue (leafFrontier pair (completePairs pair leaves)) / 2 =
            frontierValue (leafFrontier pair (completePairs pair leaves)) := by
        omega
      simp only [lastPath, frontierValue, NoLeftDuplicate, parent, Nat.mul_mod_right, hHalf]
      refine ⟨fun hOdd => absurd hOdd (by decide), ?_⟩
      exact noLeftDuplicate_lastPath pair (completePairs pair leaves) _ hUpNodup
    | some left =>
      rw [hLast] at hUpNodup
      have hHalf :
          (2 * frontierValue (leafFrontier pair (completePairs pair leaves)) + 1) / 2 =
            frontierValue (leafFrontier pair (completePairs pair leaves)) := by
        omega
      have hOdd :
          (2 * frontierValue (leafFrontier pair (completePairs pair leaves)) + 1) % 2 = 1 := by
        omega
      simp only [lastPath, frontierValue, NoLeftDuplicate, parent, hOdd, hHalf, if_true]
      refine ⟨fun _ => ?_, ?_⟩
      · -- The unpaired last leaf is one of the leaves.
        have hMem := mem_of_oddLast hLast
        have hFresh := (List.nodup_append.mp (hNodup 0)).2.2
        exact hFresh left hMem leaf (List.mem_singleton_self _)
      · exact noLeftDuplicate_lastPath pair (completePairs pair leaves) _ hUpNodup
  termination_by leaves.length

--- Mountains

/- A perfect subtree together with its leaves and its root. -/
structure Mountain (α : Type) where
  height : Nat
  leaves : List α
  peak : α

/-
  Slots from level `k` up hold the peaks of a list of mountains that runs from the tallest to the
  shortest.
-/
inductive Covers (pair : α → α → α) : Nat → Frontier α → List (Mountain α) → Prop
  | nil (k : Nat) : Covers pair k [] []
  | skip {k : Nat} {rest : Frontier α} {mountains : List (Mountain α)} :
      Covers pair (k + 1) rest mountains →
      Covers pair k (none :: rest) mountains
  | live {k : Nat} {rest : Frontier α} {mountains : List (Mountain α)}
      {leaves : List α} {peak : α} :
      Covers pair (k + 1) rest mountains →
      PerfectTree pair k leaves peak →
      Covers pair k (some peak :: rest) (mountains ++ [⟨k, leaves, peak⟩])

variable {pair : α → α → α} {k : Nat} {mountains : List (Mountain α)}

section

variable (hCovers : Covers pair k slots mountains)
include hCovers

/- Carrying a perfect tree in appends its leaves. -/
theorem Covers.carry {node : α} (hTree : PerfectTree pair k leaves node) :
    ∃ mountains',
    Covers pair k (MerkleTree.carry pair slots node) mountains' ∧
      mountains'.flatMap Mountain.leaves = mountains.flatMap Mountain.leaves ++ leaves := by
  induction hCovers generalizing leaves node with
  | nil k => exact ⟨_, .live (.nil (k + 1)) hTree, by simp⟩
  | skip hRest _ => exact ⟨_, .live hRest hTree, by simp⟩
  | live _ hLeft ih =>
    obtain ⟨mountains', hCovers', hLeaves⟩ := ih (hLeft.node hTree)
    refine ⟨mountains', .skip hCovers', ?_⟩
    simp [hLeaves]

theorem Covers.peaks : mountains.map Mountain.peak = slots.reduceOption.reverse := by
  induction hCovers with
  | nil k => rfl
  | skip _ ih => simpa using ih
  | live _ _ ih => simpa using ih

/- Mountains are perfect and strictly decrease in height. -/
theorem Covers.perfect :
    (∀ m ∈ mountains, k ≤ m.height ∧ PerfectTree pair m.height m.leaves m.peak) ∧
    mountains.Pairwise (fun taller shorter => shorter.height < taller.height) := by
  induction hCovers with
  | nil k => simp
  | skip _ ih =>
    refine ⟨fun m hMem => ?_, ih.2⟩
    exact ⟨by have := (ih.1 m hMem).1; omega, (ih.1 m hMem).2⟩
  | live _ hTree ih =>
    constructor
    · intro m hMem
      rcases List.mem_append.mp hMem with hOld | hNew
      · exact ⟨by have := (ih.1 m hOld).1; omega, (ih.1 m hOld).2⟩
      · rw [List.mem_singleton.mp hNew]
        exact ⟨Nat.le_refl _, hTree⟩
    · rw [List.pairwise_append]
      refine ⟨ih.2, List.pairwise_singleton _ _, ?_⟩
      intro taller hTaller shorter hShorter
      rw [List.mem_singleton.mp hShorter]
      exact (ih.1 taller hTaller).1

end

/- The frontier of a list covers it by mountains. -/
theorem exists_covers (pair : α → α → α) (leaves : List α) :
    ∃ mountains,
    Covers pair 0 (leafFrontier pair leaves) mountains ∧
      mountains.flatMap Mountain.leaves = leaves := by
  induction leaves using List.reverseRecOn with
  | nil => exact ⟨[], .nil 0, rfl⟩
  | append_singleton leaves leaf ih =>
    obtain ⟨mountains, hCovers, hLeaves⟩ := ih
    obtain ⟨mountains', hCovers', hLeaves'⟩ := hCovers.carry (.leaf leaf)
    refine ⟨mountains', ?_, ?_⟩
    · rw [frontier_append_singleton]
      exact hCovers'
    · rw [hLeaves', hLeaves]

/-
  Main structure theorem: the live slots, from the highest down, are the roots of perfect trees
  over consecutive blocks of the leaves.
-/
theorem exists_mountains (pair : α → α → α) (leaves : List α) :
    ∃ mountains : List (Mountain α),
    mountains.flatMap Mountain.leaves = leaves ∧
      mountains.map Mountain.peak = (leafFrontier pair leaves).reduceOption.reverse ∧
      (∀ m ∈ mountains, PerfectTree pair m.height m.leaves m.peak) ∧
      mountains.Pairwise (fun taller shorter => shorter.height < taller.height) := by
  obtain ⟨mountains, hCovers, hLeaves⟩ := exists_covers pair leaves
  exact ⟨mountains, hLeaves, hCovers.peaks, fun m hMem => (hCovers.perfect.1 m hMem).2,
    hCovers.perfect.2⟩

end MerkleTree
