import Mathlib.Data.Nat.Log
import OptnWallet.Library.MerkleTree

/-
  Partial Merkle trees: a tree is walked depth first by bits that say whether a node is opened,
  with a hash for every node that is not.

  Main declarations:
    * `PartialTree.read` and `PartialTree.build`
    * `PartialTree.calls_le` and `PartialTree.depth_le`
    * `PartialTree.matched_sublist`
    * `PartialTree.reads_build`
-/

--- Nodes

namespace PartialTree

open MerkleTree

variable {α : Type}

/- How many nodes there are at a height. -/
def width (total height : Nat) : Nat := (total + 2 ^ height - 1) / 2 ^ height

variable {height pos : Nat}

theorem lt_width_iff {total : Nat} : pos < width total height ↔ pos * 2 ^ height < total := by
  have hPos := Nat.two_pow_pos height
  unfold width
  rw [Nat.lt_iff_add_one_le, Nat.le_div_iff_mul_le hPos, Nat.add_mul, Nat.one_mul]
  omega

theorem width_succ (total height : Nat) :
    width total (height + 1) = (width total height + 1) / 2 := by
  apply eq_of_forall_lt_iff
  intro pos
  have hHalf : pos < (width total height + 1) / 2 ↔ pos * 2 < width total height := by omega
  rw [hHalf, lt_width_iff, lt_width_iff, Nat.pow_succ, Nat.mul_assoc, Nat.mul_comm 2]

theorem length_level (pair : α → α → α) (leaves : List α) (height : Nat) :
    (level pair height leaves).length = width leaves.length height := by
  induction height with
  | zero =>
    unfold width
    rw [level_zero, Nat.pow_zero, Nat.div_one, Nat.add_sub_cancel]
  | succ height ih => rw [level_succ', levelUp_length, ih, width_succ]

theorem siblings_getElem? (nodes : List α) (i : Nat) :
    (siblings nodes)[i]? = nodes[2 * i]?.map (fun a => (a, nodes[2 * i + 1]?.getD a)) := by
  induction nodes using levelUp.induct generalizing i with
  | case1 => simp [siblings]
  | case2 a =>
    cases i with
    | zero => simp [siblings]
    | succ i => simp [siblings, Nat.mul_add]
  | case3 a b rest ih =>
    cases i with
    | zero => simp [siblings]
    | succ i => simp [siblings, Nat.mul_add, ih]

/- A node above the leaves is the pair of the two below it, or of the one that is there twice. -/
theorem level_above (pair : α → α → α) (leaves : List α) {node : α}
    (hNode : (level pair (height + 1) leaves)[pos]? = some node) :
    ∃ left right,
      (level pair height leaves)[pos * 2]? = some left ∧
        (if pos * 2 + 1 < width leaves.length height then
          (level pair height leaves)[pos * 2 + 1]? = some right
        else right = left) ∧
          (left, right) ∈ siblings (level pair height leaves) ∧ node = pair left right := by
  have hPlace := siblings_getElem? (level pair height leaves) pos
  rw [level_succ', levelUp_getElem?, Nat.mul_comm] at hNode
  rcases Option.map_eq_some_iff.mp hNode with ⟨left, hLeft, rfl⟩
  rw [Nat.mul_comm, hLeft, Option.map_some] at hPlace
  refine ⟨left, _, hLeft, ?_, List.mem_of_getElem? hPlace, rfl⟩
  split
  · rename_i hInside
    rw [← length_level pair leaves] at hInside
    rw [List.getElem?_eq_getElem hInside]
    rfl
  · rename_i hOutside
    rw [← length_level pair leaves, not_lt] at hOutside
    rw [List.getElem?_eq_none hOutside]
    rfl

variable {leaves : List α}

/- The level of the root, which is the first with one node. -/
theorem level_clog (pair : α → α → α) (hSome : leaves ≠ []) :
    ∃ root,
    level pair (Nat.clog 2 leaves.length) leaves = [root] ∧ merkleRoot pair leaves = some root := by
  have hPos := List.length_pos_of_ne_nil hSome
  apply level_eq_singleton pair
  · exact Nat.le_pow_clog (by decide) _
  · rcases Nat.eq_zero_or_pos (Nat.clog 2 leaves.length) with hZero | hAbove
    · rw [hZero]
      omega
    · have hBelow := Nat.pow_lt_of_lt_clog (Nat.pred_lt hAbove.ne')
      rw [← Nat.succ_pred_eq_of_pos hAbove, Nat.pow_succ]
      omega

--- Walks

/- What a walk below a node gives: the hash of the node, what is left of both streams, the leaves
   that are matched and whether something is wrong, and with it the pairs that were hashed, how many
   calls it took and how deep they went. -/
structure Visit (α : Type) where
  hash : α
  bits : List Bool
  hashes : List α
  matched : List α
  bad : Bool
  hashed : List (α × α)
  calls : Nat
  depth : Nat

variable (zero : α)

/- A node that is not opened. -/
def stop (bits : List Bool) (hashes : List α) (found : Bool) : Visit α :=
  { hash := hashes.headD zero
    bits := bits.tail
    hashes := hashes.tail
    matched := if found then [hashes.headD zero] else []
    bad := bits.isEmpty || hashes.isEmpty
    hashed := []
    calls := 1
    depth := 1 }

variable (pair : α → α → α) [DecidableEq α]

/- Two nodes that are equal are refused. -/
def Visit.join (left right : Visit α) : Visit α :=
  { hash := pair left.hash right.hash
    bits := right.bits
    hashes := right.hashes
    matched := left.matched ++ right.matched
    bad := left.bad || right.bad || decide (right.hash = left.hash)
    hashed := left.hashed ++ right.hashed ++ [(left.hash, right.hash)]
    calls := 1 + left.calls + right.calls
    depth := max left.depth right.depth + 1 }

omit [DecidableEq α] in
/- The last node of a level stands for both. -/
def Visit.double (left : Visit α) : Visit α :=
  { left with
    hash := pair left.hash left.hash
    hashed := left.hashed ++ [(left.hash, left.hash)]
    calls := 1 + left.calls
    depth := left.depth + 1 }

def read (total : Nat) : Nat → Nat → List Bool → List α → Visit α
  | 0, _, bits, hashes => stop zero bits hashes (bits.headD false)
  | height + 1, pos, bits, hashes =>
    if bits.headD false = true then
      let left := read total height (pos * 2) bits.tail hashes
      if pos * 2 + 1 < width total height then
        left.join pair (read total height (pos * 2 + 1) left.bits left.hashes)
      else left.double pair
    else stop zero bits hashes false

--- Costs

theorem depth_le (total height pos : Nat) (bits : List Bool) (hashes : List α) :
    (read zero pair total height pos bits hashes).depth ≤ height + 1 := by
  induction height generalizing pos bits hashes with
  | zero => exact le_refl 1
  | succ height ih =>
    unfold read
    dsimp only
    split
    · split
      · exact Nat.succ_le_succ (Nat.max_le.mpr ⟨ih _ _ _, ih _ _ _⟩)
      · exact Nat.succ_le_succ (ih _ _ _)
    · exact Nat.succ_le_succ (Nat.zero_le _)

theorem count_tail_le (bits : List Bool) : bits.tail.count true ≤ bits.count true :=
  (List.tail_sublist bits).count_le true

/- Each opened node takes one set bit and two more calls.  By induction over the height. -/
theorem calls_le (total height pos : Nat) (bits : List Bool) (hashes : List α) :
    (read zero pair total height pos bits hashes).calls +
        2 * (read zero pair total height pos bits hashes).bits.count true ≤
      2 * bits.count true + 1 := by
  have hStop :
      ∀ (bits : List Bool) hashes found,
      (stop zero bits hashes found).calls + 2 * (stop zero bits hashes found).bits.count true ≤
        2 * bits.count true + 1 := by
    intro bits hashes found
    have hTail := count_tail_le bits
    unfold stop
    dsimp only
    omega
  induction height generalizing pos bits hashes with
  | zero => exact hStop _ _ _
  | succ height ih =>
    unfold read
    dsimp only
    split
    · rename_i hOpen
      have hCount : bits.count true = bits.tail.count true + 1 := by
        cases bits with
        | nil => cases hOpen
        | cons bit bits =>
          change bit = true at hOpen
          rw [hOpen, List.count_cons_self]
          rfl
      have hLeft := ih (pos * 2) bits.tail hashes
      split
      · have hRight :=
          ih (pos * 2 + 1) (read zero pair total height (pos * 2) bits.tail hashes).bits
            (read zero pair total height (pos * 2) bits.tail hashes).hashes
        unfold Visit.join
        dsimp only
        omega
      · unfold Visit.double
        dsimp only
        omega
    · exact hStop _ _ _

--- Soundness

/- The leaves below a node. -/
def segment (leaves : List α) (height pos : Nat) : List α :=
  (leaves.drop (pos * 2 ^ height)).take (2 ^ height)

omit [DecidableEq α] in
theorem segment_succ (leaves : List α) (height pos : Nat) :
    segment leaves (height + 1) pos =
      segment leaves height (pos * 2) ++ segment leaves height (pos * 2 + 1) := by
  have hDouble : 2 ^ (height + 1) = 2 ^ height + 2 ^ height := by
    rw [Nat.pow_succ]
    omega
  have hLeft : pos * 2 ^ (height + 1) = pos * 2 * 2 ^ height := by
    rw [Nat.pow_succ]
    ring
  have hRight : (pos * 2 + 1) * 2 ^ height = pos * 2 * 2 ^ height + 2 ^ height := by ring
  unfold segment
  rw [hLeft, hRight, hDouble, List.take_add, List.drop_drop]

omit [DecidableEq α] in
theorem segment_eq_nil (hOutside : ¬ pos < width leaves.length height) :
    segment leaves height pos = [] := by
  rw [lt_width_iff, not_lt] at hOutside
  unfold segment
  rw [List.drop_eq_nil_of_le hOutside, List.take_nil]

omit [DecidableEq α] in
/- All leaves are below the root. -/
theorem segment_whole (hUpper : leaves.length ≤ 2 ^ height) : segment leaves height 0 = leaves := by
  unfold segment
  rw [Nat.zero_mul, List.drop_zero, List.take_of_length_le hUpper]

omit [DecidableEq α] in
theorem segment_zero {leaf : α} (hLeaf : leaves[pos]? = some leaf) :
    segment leaves 0 pos = [leaf] := by
  rcases List.getElem?_eq_some_iff.mp hLeaf with ⟨hLt, rfl⟩
  unfold segment
  rw [Nat.pow_zero, Nat.mul_one, List.take_one, List.head?_drop, List.getElem?_eq_getElem hLt]
  rfl

/-
  Where the hash of a walk is the node that is there, and no two pairs that were hashed collide,
  what is matched are leaves below that node, in their order.  By induction over the height.
-/
theorem matched_sublist {leaves : List α} {Hashed : Set (α × α)}
    (hInjOn : Set.InjOn (pairUp pair) Hashed) {height : Nat}
    (hTree : ∀ k < height, ∀ nodes ∈ siblings (level pair k leaves), nodes ∈ Hashed) {pos : Nat}
    {bits : List Bool} {hashes : List α}
    (hRead : ∀ nodes ∈ (read zero pair leaves.length height pos bits hashes).hashed, nodes ∈ Hashed)
    (hNode :
        (level pair height leaves)[pos]? =
          some (read zero pair leaves.length height pos bits hashes).hash) :
    (read zero pair leaves.length height pos bits hashes).matched.Sublist
      (segment leaves height pos) := by
  induction height generalizing pos bits hashes with
  | zero =>
    rw [level_zero] at hNode
    rw [segment_zero hNode]
    unfold read stop
    dsimp only
    split
    · exact List.Sublist.refl _
    · exact List.nil_sublist _
  | succ height ih =>
    rcases level_above pair leaves hNode with ⟨left, right, hLeft, hRight, hMem, hPair⟩
    have hBelow : ∀ k < height, ∀ nodes ∈ siblings (level pair k leaves), nodes ∈ Hashed :=
      fun k hLt => hTree k (Nat.lt_succ_of_lt hLt)
    rw [segment_succ]
    unfold read at hRead hPair ⊢
    dsimp only at hRead hPair ⊢
    split at hRead
    · rename_i hOpen
      rw [if_pos hOpen] at hPair ⊢
      split at hRead
      · rename_i hInside
        rw [if_pos hInside] at hPair hRight ⊢
        change ∀ nodes ∈ _ ++ _ ++ [(_, _)], nodes ∈ Hashed at hRead
        rw [List.forall_mem_append, List.forall_mem_append, List.forall_mem_singleton] at hRead
        have hSame := Prod.mk.inj (hInjOn hRead.2 (hTree height (by omega) _ hMem) hPair)
        apply List.Sublist.append
        · apply ih hBelow hRead.1.1
          rw [hSame.1]
          exact hLeft
        · apply ih hBelow hRead.1.2
          rw [hSame.2]
          exact hRight
      · rename_i hOutside
        rw [if_neg hOutside] at hPair hRight ⊢
        change ∀ nodes ∈ _ ++ [(_, _)], nodes ∈ Hashed at hRead
        rw [List.forall_mem_append, List.forall_mem_singleton] at hRead
        have hSame := Prod.mk.inj (hInjOn hRead.2 (hTree height (by omega) _ hMem) hPair)
        rw [segment_eq_nil hOutside, List.append_nil]
        apply ih hBelow hRead.1
        rw [hSame.1]
        exact hLeft
    · rename_i hClosed
      rw [if_neg hClosed]
      exact List.nil_sublist _

--- Completeness

/- A node, from the leaves up. -/
def calcHash (leaves : List α) : Nat → Nat → α
  | 0, pos => leaves.getD pos zero
  | height + 1, pos =>
    let left := calcHash leaves height (pos * 2)
    pair left
      (if pos * 2 + 1 < width leaves.length height then calcHash leaves height (pos * 2 + 1)
      else left)

omit [DecidableEq α] in
theorem level_calcHash (hInside : pos < width leaves.length height) :
    (level pair height leaves)[pos]? = some (calcHash zero pair leaves height pos) := by
  induction height generalizing pos with
  | zero =>
    rw [lt_width_iff, Nat.pow_zero, Nat.mul_one] at hInside
    unfold calcHash
    rw [level_zero, List.getD_eq_getElem?_getD, List.getElem?_eq_getElem hInside]
    rfl
  | succ height ih =>
    rw [← length_level pair leaves] at hInside
    have hNode := List.getElem?_eq_getElem hInside
    rcases level_above pair leaves hNode with ⟨left, right, hLeft, hRight, -, hPair⟩
    have hLeftIn : pos * 2 < width leaves.length height := by
      rw [← length_level pair leaves]
      exact (List.getElem?_eq_some_iff.mp hLeft).1
    rw [ih hLeftIn] at hLeft
    rw [hNode, hPair]
    unfold calcHash
    dsimp only
    rw [Option.some.inj hLeft]
    split at hRight
    · rename_i hRightIn
      rw [ih hRightIn] at hRight
      rw [if_pos hRightIn, Option.some.inj hRight]
    · rename_i hOutside
      rw [if_neg hOutside, hRight]

/- The bits and the hashes of a tree in which the wanted leaves are matched, depth first: a node is
   opened where there is a wanted leaf below it. -/
def build (leaves : List α) (wanted : α → Bool) : Nat → Nat → List Bool × List α
  | 0, pos => ([(segment leaves 0 pos).any wanted], [calcHash zero pair leaves 0 pos])
  | height + 1, pos =>
    if (segment leaves (height + 1) pos).any wanted = true then
      let left := build leaves wanted height (pos * 2)
      if pos * 2 + 1 < width leaves.length height then
        let right := build leaves wanted height (pos * 2 + 1)
        (true :: (left.1 ++ right.1), left.2 ++ right.2)
      else (true :: left.1, left.2)
    else ([false], [calcHash zero pair leaves (height + 1) pos])

omit [DecidableEq α] in
/- A tree has no more bits and no more hashes than nodes. -/
theorem build_length (leaves : List α) (wanted : α → Bool) (height pos : Nat) :
    (build zero pair leaves wanted height pos).1.length < 2 ^ (height + 1) ∧
    (build zero pair leaves wanted height pos).2.length < 2 ^ (height + 1) := by
  induction height generalizing pos with
  | zero => exact ⟨Nat.one_lt_two, Nat.one_lt_two⟩
  | succ height ih =>
    have hLeft := ih (pos * 2)
    have hRight := ih (pos * 2 + 1)
    have hPos := Nat.two_pow_pos (height + 1)
    have hDouble : 2 ^ (height + 1 + 1) = 2 ^ (height + 1) + 2 ^ (height + 1) := by
      rw [Nat.pow_succ _ (height + 1)]
      omega
    unfold build
    dsimp only
    split
    · split
      · dsimp only
        rw [List.length_cons, List.length_append, List.length_append]
        omega
      · dsimp only
        rw [List.length_cons]
        omega
    · exact ⟨by dsimp only [List.length]; omega, by dsimp only [List.length]; omega⟩

/- A walk that reads what was built, and nothing behind it. -/
structure ReadsBack (leaves : List α) (wanted : α → Bool) (height pos : Nat) (bits : List Bool)
    (hashes : List α) (visit : Visit α) : Prop where
  hash : visit.hash = calcHash zero pair leaves height pos
  bits : visit.bits = bits
  hashes : visit.hashes = hashes
  matched : visit.matched = (segment leaves height pos).filter wanted
  good : visit.bad = false
  calls : visit.calls = (build zero pair leaves wanted height pos).1.length

theorem read_open (total height pos : Nat) (bits : List Bool) (hashes : List α) :
    read zero pair total (height + 1) pos (true :: bits) hashes =
      if pos * 2 + 1 < width total height then
        (read zero pair total height (pos * 2) bits hashes).join pair
          (read zero pair total height (pos * 2 + 1)
            (read zero pair total height (pos * 2) bits hashes).bits
            (read zero pair total height (pos * 2) bits hashes).hashes)
      else (read zero pair total height (pos * 2) bits
          hashes).double pair := rfl

omit [DecidableEq α] in
/- Two nodes side by side on a level without two equal ones. -/
theorem siblings_differ (hNodup : (level pair height leaves).Nodup)
    (hInside : pos + 1 < width leaves.length height) :
    calcHash zero pair leaves height (pos + 1) ≠ calcHash zero pair leaves height pos := by
  intro hSame
  have hLeft := level_calcHash zero pair (Nat.lt_of_succ_lt hInside)
  have hRight := level_calcHash zero pair hInside
  rw [hSame] at hRight
  rcases List.getElem?_eq_some_iff.mp hLeft with ⟨hLt, hHere⟩
  rcases List.getElem?_eq_some_iff.mp hRight with ⟨hLt', hThere⟩
  have hPlaces := (List.Nodup.getElem_inj_iff hNodup).mp (hHere.trans hThere.symm)
  omega

omit [DecidableEq α] in
theorem siblings_fst (nodes : List α) : ((siblings nodes).map Prod.fst).Sublist nodes := by
  induction nodes using levelUp.induct with
  | case1 => exact List.Sublist.refl _
  | case2 a => exact List.Sublist.refl _
  | case3 a b rest ih => exact (ih.cons b).cons_cons a

omit [DecidableEq α] in
/- Distinct leaves have distinct nodes on every level, where no two of its pairs collide. -/
theorem nodup_level_of_injOn (hNodup : leaves.Nodup) {Hashed : Set (α × α)}
    (hInjOn : Set.InjOn (pairUp pair) Hashed)
    (hTree : ∀ k < height, ∀ nodes ∈ siblings (level pair k leaves), nodes ∈ Hashed) :
    ∀ k ≤ height, (level pair k leaves).Nodup := by
  intro k hLe
  induction k with
  | zero => exact hNodup
  | succ k ih =>
    have hHere := hTree k hLe
    have hPairs : (siblings (level pair k leaves)).Nodup :=
      List.Nodup.of_map Prod.fst ((siblings_fst _).nodup (ih (by omega)))
    rw [level_succ', levelUp_eq_map_siblings]
    apply List.Nodup.map_on _ hPairs
    intro nodes hMem nodes' hMem' hSame
    exact hInjOn (hHere nodes hMem) (hHere nodes' hMem') hSame

/-
  In a tree without two equal nodes on a level, what is built below a node is read back.  By
  induction over the height.
-/
theorem reads_build (hDistinct : ∀ k < height, (level pair k leaves).Nodup)
    (hInside : pos < width leaves.length height) (wanted : α → Bool) (bits : List Bool)
    (hashes : List α) :
    ReadsBack zero pair leaves wanted height pos bits hashes
      (read zero pair leaves.length height pos
        ((build zero pair leaves wanted height pos).1 ++ bits)
        ((build zero pair leaves wanted height pos).2 ++ hashes)) := by
  induction height generalizing pos bits hashes with
  | zero =>
    have hLeaf := level_calcHash zero pair hInside
    rw [level_zero] at hLeaf
    have hSegment := segment_zero hLeaf
    unfold build read stop
    rw [hSegment]
    constructor
    · rfl
    · rfl
    · rfl
    · rw [hSegment]
      cases hWanted : wanted (calcHash zero pair leaves 0 pos) with
      | true => simp [hWanted]
      | false => simp [hWanted]
    · rfl
    · unfold build
      rfl
  | succ height ih =>
    have hBelow : ∀ k < height, (level pair k leaves).Nodup :=
      fun k hLt => hDistinct k (Nat.lt_succ_of_lt hLt)
    have hLeftIn : pos * 2 < width leaves.length height := by
      rw [width_succ] at hInside
      omega
    cases hAny : (segment leaves (height + 1) pos).any wanted with
    | false =>
      have hBuild :
          build zero pair leaves wanted (height + 1) pos =
            ([false], [calcHash zero pair leaves (height + 1) pos]) := by
        unfold build
        rw [hAny]
        rfl
      rw [hBuild]
      constructor
      · rfl
      · rfl
      · rfl
      · rw [List.filter_eq_nil_iff.mpr]
        · rfl
        · intro leaf hMem hWanted
          have hSome := List.any_eq_true.mpr ⟨leaf, hMem, hWanted⟩
          rw [hAny] at hSome
          cases hSome
      · rfl
      · rw [hBuild]
        rfl
    | true =>
      have hHash :
          calcHash zero pair leaves (height + 1) pos =
            pair (calcHash zero pair leaves height (pos * 2))
              (if pos * 2 + 1 < width leaves.length height then
                calcHash zero pair leaves height (pos * 2 + 1)
              else calcHash zero pair leaves height (pos * 2)) :=
        rfl
      by_cases hRightIn : pos * 2 + 1 < width leaves.length height
      · have hBuild :
            build zero pair leaves wanted (height + 1) pos = (true ::
                  ((build zero pair leaves wanted height (pos * 2)).1 ++
                    (build zero pair leaves wanted height (pos * 2 + 1)).1),
                (build zero pair leaves wanted height (pos * 2)).2 ++
                  (build zero pair leaves wanted height (pos * 2 + 1)).2) := by
          rw [build, hAny, if_pos rfl, if_pos hRightIn]
        rw [if_pos hRightIn] at hHash
        have hLeft :=
          ih hBelow hLeftIn ((build zero pair leaves wanted height (pos * 2 + 1)).1 ++ bits)
            ((build zero pair leaves wanted height (pos * 2 + 1)).2 ++ hashes)
        have hRight := ih hBelow hRightIn bits hashes
        have hDiffer :=
          siblings_differ zero pair (hDistinct height (Nat.lt_succ_self height)) hRightIn
        rw [hBuild, List.cons_append, List.append_assoc, List.append_assoc, read_open,
          if_pos hRightIn, hLeft.bits, hLeft.hashes]
        constructor
        · rw [hHash, ← hLeft.hash, ← hRight.hash]
          rfl
        · exact hRight.bits
        · exact hRight.hashes
        · rw [segment_succ, List.filter_append, ← hLeft.matched, ← hRight.matched]
          rfl
        · unfold Visit.join
          dsimp only
          rw [hLeft.good, hRight.good, hLeft.hash, hRight.hash, decide_eq_false hDiffer]
          rfl
        · rw [hBuild, List.length_cons, List.length_append, ← hLeft.calls, ← hRight.calls]
          unfold Visit.join
          dsimp only
          omega
      · have hBuild :
            build zero pair leaves wanted (height + 1) pos =
              (true :: (build zero pair leaves wanted height (pos * 2)).1,
                (build zero pair leaves wanted height (pos * 2)).2) := by
          rw [build, hAny, if_pos rfl, if_neg hRightIn]
        rw [if_neg hRightIn] at hHash
        have hLeft := ih hBelow hLeftIn bits hashes
        rw [hBuild, List.cons_append, read_open, if_neg hRightIn]
        constructor
        · rw [hHash, ← hLeft.hash]
          rfl
        · exact hLeft.bits
        · exact hLeft.hashes
        · rw [segment_succ, segment_eq_nil hRightIn, List.append_nil]
          exact hLeft.matched
        · exact hLeft.good
        · rw [hBuild, List.length_cons, ← hLeft.calls, Nat.add_comm]
          rfl

end PartialTree
