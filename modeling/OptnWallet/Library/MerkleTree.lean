import Mathlib.Tactic.Positivity
import Mathlib.Tactic.Ring

/-
  Bitcoin-shaped Merkle trees over an abstract pair hash: the level-by-level construction in which
  the last node of an odd level is paired with itself, sibling paths, and the climb that a path
  verifier performs.  Roots with duplicated last nodes are met by more than one list of leaves, and
  by one only once two equal siblings are refused at every level.

  Main declarations:
    * `MerkleTree.levelUp`, `MerkleTree.level` and `MerkleTree.merkleRoot`
    * `MerkleTree.path` and `MerkleTree.climb`
    * `MerkleTree.getElem?_eq_of_climb` and `MerkleTree.climb_path`
    * `MerkleTree.PerfectTree`: trees without duplication
    * `MerkleTree.Commits` and `MerkleTree.Commits.unique`
-/

--- Levels

namespace MerkleTree

variable {α : Type}

/- Pair the nodes of a level; an odd last node meets itself. -/
def levelUp (pair : α → α → α) : List α → List α
  | [] => []
  | [a] => [pair a a]
  | a :: b :: rest => pair a b :: levelUp pair rest

section

variable (pair : α → α → α)

/- The level `k` steps above the given nodes. -/
def level (k : Nat) (nodes : List α) : List α := (levelUp pair)^[k] nodes

@[simp] theorem level_zero (nodes : List α) :
    level pair 0 nodes = nodes := rfl

theorem level_succ (k : Nat) (nodes : List α) :
    level pair (k + 1) nodes =
      level pair k (levelUp pair nodes) := rfl

theorem level_succ' (k : Nat) (nodes : List α) :
    level pair (k + 1) nodes = levelUp pair (level pair k nodes) :=
  Function.iterate_succ_apply' _ _ _

@[simp] theorem levelUp_length (nodes : List α) :
    (levelUp pair nodes).length = (nodes.length + 1) / 2 := by
  induction nodes using levelUp.induct with
  | case1 => simp [levelUp]
  | case2 a => simp [levelUp]
  | case3 a b rest ih =>
    simp only [levelUp, List.length_cons, ih]
    omega

/- A parent pairs its left child with its right child, or
with the left child itself at the end of an odd level. -/
theorem levelUp_getElem? (nodes : List α) (i : Nat) :
    (levelUp pair nodes)[i]? = nodes[2 * i]?.map (fun a => pair a (nodes[2 * i + 1]?.getD a)) := by
  induction nodes using levelUp.induct generalizing i with
  | case1 => simp [levelUp]
  | case2 a =>
    cases i with
    | zero => simp [levelUp]
    | succ i => simp [levelUp, Nat.mul_add]
  | case3 a b rest ih =>
    cases i with
    | zero => simp [levelUp]
    | succ i => simp [levelUp, Nat.mul_add, ih]

end

variable {pair : α → α → α} {nodes : List α}

/- Distinct nodes have distinct parents. -/
theorem nodup_levelUp (hPair : Function.Injective2 pair) (hNodup : nodes.Nodup) :
    (levelUp pair nodes).Nodup := by
  rw [List.nodup_iff_getElem?_ne_getElem?]
  intro i j hij hj hEq
  rw [levelUp_length] at hj
  have hiLt : 2 * i < nodes.length := by omega
  have hjLt : 2 * j < nodes.length := by omega
  rw [levelUp_getElem?, levelUp_getElem?, List.getElem?_eq_getElem hiLt,
    List.getElem?_eq_getElem hjLt] at hEq
  have hChild : nodes[2 * i] = nodes[2 * j] := (hPair (Option.some.inj hEq)).1
  have hIndex := (hNodup.getElem_inj_iff).mp hChild
  omega

theorem nodup_level (hPair : Function.Injective2 pair) (hNodup : nodes.Nodup) (k : Nat) :
    (level pair k nodes).Nodup := by
  induction k with
  | zero => exact hNodup
  | succ k ih =>
    rw [level_succ']
    exact nodup_levelUp hPair ih

/- No two nodes on one level of the tree share a hash. -/
def DistinctNodes (pair : α → α → α) (leaves : List α) : Prop := ∀ k, (level pair k leaves).Nodup

variable {leaves : List α}

/- Distinct leaves suffice when pairs do not collide. -/
theorem distinctNodes_of_nodup (hPair : Function.Injective2 pair) (hNodup : leaves.Nodup) :
    DistinctNodes pair leaves := nodup_level hPair hNodup

/-
  The Bitcoin Merkle root: levels are built until one node remains.
-/
def merkleRoot (pair : α → α → α) : List α → Option α
  | [] => none
  | [a] => some a
  | a :: b :: rest => merkleRoot pair (levelUp pair (a :: b :: rest))
  termination_by nodes => nodes.length
  decreasing_by
    simp only [levelUp_length, List.length_cons]
    omega

@[simp] theorem merkleRoot_singleton (pair : α → α → α) (a : α) : merkleRoot pair [a] = some a := by
  rw [merkleRoot]

theorem merkleRoot_levelUp (pair : α → α → α) (hLength : 2 ≤ nodes.length) :
    merkleRoot pair nodes = merkleRoot pair (levelUp pair nodes) := by
  match nodes, hLength with
  | a :: b :: rest, _ => rw [merkleRoot]

/- At its depth a tree has one node, the root. -/
theorem level_eq_singleton (pair : α → α → α) {depth : Nat} (hUpper : nodes.length ≤ 2 ^ depth)
    (hLower : 2 ^ depth < 2 * nodes.length) :
    ∃ root, level pair depth nodes = [root] ∧ merkleRoot pair nodes = some root := by
  induction depth generalizing nodes with
  | zero =>
    have hOne : nodes.length = 1 := by omega
    obtain ⟨a, rfl⟩ := List.length_eq_one_iff.mp hOne
    exact ⟨a, rfl, merkleRoot_singleton pair a⟩
  | succ depth ih =>
    rw [pow_succ] at hUpper hLower
    have hTwo : 2 ≤ nodes.length := by
      have hPos : 0 < 2 ^ depth := by positivity
      omega
    rw [merkleRoot_levelUp pair hTwo, level_succ]
    apply ih
    · rw [levelUp_length]
      omega
    · rw [levelUp_length]
      omega

--- Climbs

/- One step of a path verifier at a node's index. -/
def parent (pair : α → α → α) (index : Nat) (sibling node : α) : α :=
  if index % 2 = 1 then pair sibling node
  else pair node sibling

/- The node a list of siblings leads to. -/
def climb (pair : α → α → α) : List α → Nat → α → α
  | [], _, node => node
  | sibling :: siblings, index, node =>
    climb pair siblings (index / 2) (parent pair index sibling node)

/- Only the low bits of an index steer a climb. -/
theorem climb_add_mul (pair : α → α → α) (siblings : List α) (index start : Nat) (node : α) :
    climb pair siblings (2 ^ siblings.length * start + index) node =
      climb pair siblings index node := by
  induction siblings generalizing index node with
  | nil => rfl
  | cons sibling siblings ih =>
    have hShift :
        2 ^ (siblings.length + 1) * start + index = 2 * (2 ^ siblings.length * start) + index := by
      ring
    have hHalf :
        (2 * (2 ^ siblings.length * start) + index) / 2 =
          2 ^ siblings.length * start + index / 2 := by
      omega
    have hBit : (2 * (2 ^ siblings.length * start) + index) % 2 = index % 2 := by omega
    simp only [climb, List.length_cons, hShift, hHalf, parent, hBit, ih]

variable {index : Nat} {node : α}

/-
  A climb with arbitrary siblings that meets the tree's own node above `index` started from the
  tree's own node at `index`.
-/
theorem getElem?_eq_of_climb (hPair : Function.Injective2 pair) (siblings : List α)
    (hIndex : index < nodes.length)
    (hClimb :
        (level pair siblings.length nodes)[index / 2 ^ siblings.length]? =
          some (climb pair siblings index node)) : nodes[index]? = some node := by
  induction siblings generalizing nodes index node with
  | nil => simpa [climb] using hClimb
  | cons sibling siblings ih =>
    have hParentIndex : index / 2 < (levelUp pair nodes).length := by
      rw [levelUp_length]
      omega
    have hParent : (levelUp pair nodes)[index / 2]? = some (parent pair index sibling node) := by
      apply ih hParentIndex
      rw [← level_succ, Nat.div_div_eq_div_mul, ← Nat.pow_succ']
      exact hClimb
    have hLeft : 2 * (index / 2) < nodes.length := by omega
    rw
      [levelUp_getElem?, List.getElem?_eq_getElem hLeft, Option.map_some, Option.some.injEq, parent]
      at hParent
    rcases Nat.mod_two_eq_zero_or_one index with hEven | hOdd
    · -- The climbing node is the left child.
      rw [if_neg (by omega)] at hParent
      have hSelf : 2 * (index / 2) = index := by omega
      rw [List.getElem?_eq_getElem hIndex, ← (hPair hParent).1]
      simp only [hSelf]
    · -- The climbing node is the right child.
      rw [if_pos hOdd] at hParent
      have hSelf : 2 * (index / 2) + 1 = index := by omega
      have hRight := (hPair hParent).2
      rw [hSelf, List.getElem?_eq_getElem hIndex, Option.getD_some] at hRight
      rw [List.getElem?_eq_getElem hIndex, hRight]

--- Honest Paths

/-
  The sibling of a node within its level; the last node of an odd level is its own sibling.
-/
def siblingAt (nodes : List α) (index : Nat) : Option α :=
  if index % 2 = 1 then nodes[index - 1]?
  else nodes[index + 1]?.or nodes[index]?

/- The siblings met on the way up from an index. -/
def path (pair : α → α → α) : Nat → Nat → List α → List α
  | 0, _, _ => []
  | depth + 1, index, nodes =>
    (siblingAt nodes index).toList ++ path pair depth (index / 2) (levelUp pair nodes)

/- An index within its level has a sibling and a parent. -/
theorem exists_siblingAt (pair : α → α → α) (hNode : nodes[index]? = some node) :
    ∃ sibling,
    siblingAt nodes index = some sibling ∧
      (levelUp pair nodes)[index / 2]? = some (parent pair index sibling node) := by
  have hIndex := (List.getElem?_eq_some_iff.mp hNode).1
  rw [levelUp_getElem?]
  rcases Nat.mod_two_eq_zero_or_one index with hEven | hOdd
  · have hSelf : 2 * (index / 2) = index := by omega
    refine ⟨nodes[index + 1]?.getD node, ?_, ?_⟩
    · rw [siblingAt, if_neg (by omega), hNode]
      cases nodes[index + 1]? <;> rfl
    · rw [hSelf, hNode, parent, if_neg (by omega)]
      rfl
  · have hSelf : 2 * (index / 2) + 1 = index := by omega
    have hLeftIndex : 2 * (index / 2) = index - 1 := by omega
    have hLeft : index - 1 < nodes.length := by omega
    refine ⟨nodes[index - 1], ?_, ?_⟩
    · rw [siblingAt, if_pos hOdd, List.getElem?_eq_getElem hLeft]
    · rw [hSelf, hLeftIndex, hNode, List.getElem?_eq_getElem hLeft, parent, if_pos hOdd]
      rfl

theorem path_length (pair : α → α → α) (depth : Nat) (hIndex : index < nodes.length) :
    (path pair depth index nodes).length = depth := by
  induction depth generalizing nodes index with
  | zero => rfl
  | succ depth ih =>
    obtain ⟨sibling, hSibling, -⟩ := exists_siblingAt pair (List.getElem?_eq_getElem hIndex)
    have hParent : index / 2 < (levelUp pair nodes).length := by
      rw [levelUp_length]
      omega
    simp only
      [path, hSibling, Option.toList_some, List.length_append, List.length_singleton, ih hParent]
    omega

/- The honest path climbs to the tree's own node. -/
theorem climb_path (pair : α → α → α) (depth : Nat) (hNode : nodes[index]? = some node) :
    (level pair depth nodes)[index / 2 ^ depth]? =
      some (climb pair (path pair depth index nodes) index node) := by
  induction depth generalizing nodes index node with
  | zero => simpa [climb, path] using hNode
  | succ depth ih =>
    obtain ⟨sibling, hSibling, hParent⟩ := exists_siblingAt pair hNode
    rw [level_succ, Nat.pow_succ', ← Nat.div_div_eq_div_mul, ih hParent, path, hSibling]
    rfl

/-
  No left sibling on the way up equals the node it is paired with.
-/
def NoLeftDuplicate (pair : α → α → α) : List α → Nat → α → Prop
  | [], _, _ => True
  | sibling :: siblings, index, node => (index % 2 = 1 → sibling ≠ node) ∧
      NoLeftDuplicate pair siblings (index / 2) (parent pair index sibling node)

/- Levels without repeated nodes have no left duplicates. -/
theorem noLeftDuplicate_path (pair : α → α → α) (depth : Nat) (hNodup : DistinctNodes pair nodes)
    (hNode : nodes[index]? = some node) :
    NoLeftDuplicate pair (path pair depth index nodes) index node := by
  induction depth generalizing nodes index node with
  | zero => trivial
  | succ depth ih =>
    obtain ⟨sibling, hSibling, hParent⟩ := exists_siblingAt pair hNode
    rw [path, hSibling]
    refine ⟨?_, ih (fun k => hNodup (k + 1)) hParent⟩
    intro hOdd hEq
    rw [siblingAt, if_pos hOdd, hEq] at hSibling
    obtain ⟨hLeft, hLeftEq⟩ := List.getElem?_eq_some_iff.mp hSibling
    obtain ⟨hRight, hRightEq⟩ := List.getElem?_eq_some_iff.mp hNode
    have hIndex := (List.Nodup.getElem_inj_iff (hNodup 0)).mp (hLeftEq.trans hRightEq.symm)
    omega

--- Perfect Trees

/- The root of a tree over `2 ^ k` leaves. -/
inductive PerfectTree (pair : α → α → α) : Nat → List α → α → Prop
  | leaf (a : α) : PerfectTree pair 0 [a] a
  | node {k : Nat} {left right : List α} {l r : α} :
      PerfectTree pair k left l →
      PerfectTree pair k right r →
      PerfectTree pair (k + 1) (left ++ right) (pair l r)

theorem PerfectTree.length {k : Nat} {root : α} (hTree : PerfectTree pair k leaves root) :
    leaves.length = 2 ^ k := by
  induction hTree with
  | leaf a => rfl
  | node _ _ ihLeft ihRight =>
    rw [List.length_append, ihLeft, ihRight]
    ring

theorem levelUp_append (pair : α → α → α) {left : List α} (right : List α)
    (hEven : left.length % 2 = 0) :
    levelUp pair (left ++ right) = levelUp pair left ++ levelUp pair right := by
  induction left using levelUp.induct with
  | case1 => rfl
  | case2 a => simp at hEven
  | case3 a b rest ih =>
    have hRest : rest.length % 2 = 0 := by
      simp only [List.length_cons] at hEven
      omega
    simp [levelUp, ih hRest]

theorem level_append (pair : α → α → α) (k : Nat) {left : List α} (right : List α)
    (hLength : 2 ^ k ∣ left.length) :
    level pair k (left ++ right) = level pair k left ++ level pair k right := by
  induction k generalizing left right with
  | zero => rfl
  | succ k ih =>
    obtain ⟨blocks, hBlocks⟩ := hLength
    have hDouble : left.length = 2 * (2 ^ k * blocks) := by
      rw [hBlocks]
      ring
    rw [level_succ, levelUp_append pair right (by omega), ih]
    · rfl
    · rw [levelUp_length]
      exact ⟨blocks, by omega⟩

/- A perfect tree's root is its single top node. -/
theorem PerfectTree.level {k : Nat} {root : α} (hTree : PerfectTree pair k leaves root) :
    MerkleTree.level pair k leaves = [root] := by
  induction hTree with
  | leaf a => rfl
  | @node k left right l r hLeft _ ihLeft ihRight =>
    have hDvd : 2 ^ k ∣ left.length := by rw [hLeft.length]
    rw [level_succ', level_append pair k right hDvd, ihLeft, ihRight]
    rfl

--- Siblings

/- The two nodes below each node of the next level. -/
def siblings : List α → List (α × α)
  | [] => []
  | [a] => [(a, a)]
  | a :: b :: rest => (a, b) :: siblings rest

def pairUp (pair : α → α → α) (nodes : α × α) : α := pair nodes.1 nodes.2

theorem levelUp_eq_map_siblings (pair : α → α → α) (nodes : List α) :
    levelUp pair nodes = (siblings nodes).map (pairUp pair) := by
  induction nodes using levelUp.induct with
  | case1 => rfl
  | case2 a => rfl
  | case3 a b rest ih =>
    simp only [levelUp, siblings, List.map_cons, ih]
    rfl

/- No node meets one that is equal to it, except itself at the end of an odd level. -/
def NoTwins : List α → Prop
  | a :: b :: rest => b ≠ a ∧ NoTwins rest
  | _ => True

/- Without twins the siblings tell their level. -/
theorem siblings_injective {nodes nodes' : List α} (hNoTwins : NoTwins nodes)
    (hNoTwins' : NoTwins nodes') (hSame : siblings nodes = siblings nodes') : nodes = nodes' := by
  induction nodes using levelUp.induct generalizing nodes' with
  | case1 =>
    cases nodes' using levelUp.fun_cases with
    | case1 => rfl
    | case2 c => cases hSame
    | case3 c d rest' => cases hSame
  | case2 a =>
    cases nodes' using levelUp.fun_cases with
    | case1 => cases hSame
    | case2 c =>
      cases hSame
      rfl
    | case3 c d rest' =>
      simp only [siblings, List.cons.injEq, Prod.mk.injEq] at hSame
      have hTwins : d = c := hSame.1.2.symm.trans hSame.1.1
      exact absurd hTwins hNoTwins'.1
  | case3 a b rest ih =>
    cases nodes' using levelUp.fun_cases with
    | case1 => cases hSame
    | case2 c =>
      simp only [siblings, List.cons.injEq, Prod.mk.injEq] at hSame
      have hTwins : b = a := hSame.1.2.trans hSame.1.1.symm
      exact absurd hTwins hNoTwins.1
    | case3 c d rest' =>
      simp only [siblings, List.cons.injEq, Prod.mk.injEq] at hSame
      rcases hSame with ⟨⟨rfl, rfl⟩, hRest⟩
      rw [ih hNoTwins.2 hNoTwins'.2 hRest]

/- A map that tells the members of two lists apart. -/
theorem eq_of_map_eq_of_injOn {β : Type} {f : α → β} {as bs : List α}
    (hInjOn : Set.InjOn f {a | a ∈ as ∨ a ∈ bs}) (hSame : as.map f = bs.map f) : as = bs := by
  induction as generalizing bs with
  | nil =>
    rw [List.map_nil, eq_comm, List.map_eq_nil_iff] at hSame
    exact hSame.symm
  | cons a as ih =>
    cases bs with
    | nil => cases hSame
    | cons b bs =>
      rw [List.map_cons, List.map_cons, List.cons.injEq] at hSame
      have hHead : a = b := hInjOn (Or.inl List.mem_cons_self) (Or.inr List.mem_cons_self) hSame.1
      have hTail : as = bs := by
        apply ih _ hSame.2
        apply hInjOn.mono
        intro c hMem
        exact hMem.imp (List.mem_cons_of_mem a) (List.mem_cons_of_mem b)
      rw [hHead, hTail]

--- Commitments

/- The pairs of nodes that are hashed below a depth. -/
def hashedPairs (pair : α → α → α) (depth : Nat) (leaves : List α) : Set (α × α) :=
  {nodes | ∃ k < depth, nodes ∈ siblings (level pair k leaves)}

/- The leaves lead to the root at a depth, and no level below it has twins. -/
structure Commits (pair : α → α → α) (depth : Nat) (leaves : List α) (root : α) : Prop where
  root_eq : level pair depth leaves = [root]
  no_twins : ∀ k < depth, NoTwins (level pair k leaves)

namespace Commits

variable {pair : α → α → α} {depth depth' : Nat} {leaves leaves' : List α} {root : α}

/- A level above the leaves holds hashed pairs only. -/
theorem mem_level {k : Nat} (hDepth : k < depth) {node : α}
    (hNode : node ∈ level pair (k + 1) leaves) :
    ∃ nodes ∈ hashedPairs pair depth leaves, pairUp pair nodes = node := by
  rw [level_succ', levelUp_eq_map_siblings, List.mem_map] at hNode
  rcases hNode with ⟨nodes, hMem, hEq⟩
  exact ⟨nodes, ⟨k, hDepth, hMem⟩, hEq⟩

variable (hCommits : Commits pair depth leaves root) (hCommits' : Commits pair depth' leaves' root)
variable (hInjOn : Set.InjOn (pairUp pair) (hashedPairs pair depth leaves ∪ hashedPairs pair depth' leaves'))
include hCommits hCommits' hInjOn

/- Going down from one root, two trees have the same levels for as long as both have levels. -/
theorem levels_eq (below : Nat) (hBelow : below ≤ depth) (hBelow' : below ≤ depth') :
    level pair (depth - below) leaves = level pair (depth' - below) leaves' := by
  induction below with
  | zero => exact hCommits.root_eq.trans hCommits'.root_eq.symm
  | succ below ih =>
    have hAbove := ih (by omega) (by omega)
    have hLevel : depth - below = depth - (below + 1) + 1 := by omega
    have hLevel' : depth' - below = depth' - (below + 1) + 1 := by omega
    rw [hLevel, hLevel', level_succ', level_succ', levelUp_eq_map_siblings, levelUp_eq_map_siblings]
      at hAbove
    have hLt : depth - (below + 1) < depth := by omega
    have hLt' : depth' - (below + 1) < depth' := by omega
    apply siblings_injective (hCommits.no_twins _ hLt) (hCommits'.no_twins _ hLt')
    apply eq_of_map_eq_of_injOn _ hAbove
    apply hInjOn.mono
    intro nodes hMem
    exact hMem.imp (fun hMem => ⟨_, hLt, hMem⟩) (fun hMem => ⟨_, hLt', hMem⟩)

variable (hLeaf : ∀ leaf ∈ leaves, ∀ nodes ∈ hashedPairs pair depth' leaves', pairUp pair nodes ≠ leaf)

/- A tree that is not higher has the leaves of the other. -/
include hLeaf in
theorem unique_of_le (hLe : depth ≤ depth') : leaves = leaves' := by
  have hSame := hCommits.levels_eq hCommits' hInjOn depth le_rfl hLe
  rw [Nat.sub_self, level_zero] at hSame
  rcases Nat.eq_zero_or_pos (depth' - depth) with hZero | hPositive
  · rw [hZero, level_zero] at hSame
    exact hSame
  · -- Otherwise the leaves of one are pairs of the other.
    exfalso
    have hAbove : depth' - depth = (depth' - depth - 1) + 1 := by omega
    rw [hAbove] at hSame
    cases hLeaves : leaves with
    | nil =>
      have hRoot := hCommits.root_eq
      have hEmpty : ∀ k, level pair k ([] : List α) = [] := by
        intro k
        induction k with
        | zero => rfl
        | succ k ih =>
          rw [level_succ', ih]
          rfl
      rw [hLeaves, hEmpty] at hRoot
      cases hRoot
    | cons leaf rest =>
      have hMem : leaf ∈ leaves := by
        rw [hLeaves]
        exact List.mem_cons_self
      have hNode := hMem
      rw [hSame] at hNode
      have hBelow : depth' - depth - 1 < depth' := by omega
      rcases mem_level hBelow hNode with ⟨nodes, hNodes, hEq⟩
      exact hLeaf leaf hMem nodes hNodes hEq

/-
  One root, one list: where the hashed pairs do not collide and no leaf is the hash of a pair.
-/
include hLeaf in
theorem unique
    (hLeaf' : ∀ leaf ∈ leaves', ∀ nodes ∈ hashedPairs pair depth leaves, pairUp pair nodes ≠ leaf) :
    leaves = leaves' := by
  rcases Nat.le_total depth depth' with hLe | hLe
  · exact hCommits.unique_of_le hCommits' hInjOn hLeaf hLe
  · rw [Set.union_comm] at hInjOn
    exact (hCommits'.unique_of_le hCommits hInjOn hLeaf' hLe).symm

end Commits

end MerkleTree
