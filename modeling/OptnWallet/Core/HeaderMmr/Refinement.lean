import OptnWallet.Core.HeaderMmr.Accumulator
import OptnWallet.Library.MerkleFrontier

/-
  The accumulator refines the binary-counter frontier: its leaf count is the value of the live
  slots and its peaks are the live slots from the highest down.

  Each loop of the accumulator walks the set bits of a word; the lemmas here replay it as a walk
  over the slots, from an arbitrary base level `k`.

  Main declarations:
    * `MmrAccumulator.ofFrontier` and `Represents`
    * `MmrAccumulator.extend_ofFrontier`
    * `MmrAccumulator.root_ofFrontier`
    * `MmrAccumulator.proofForNextLeaf_ofFrontier`
    * `MmrAccumulator.bootstrap_lastPath`
-/

--- The Refinement Map

namespace OptnWallet.MmrAccumulator

open Word64 MerkleTree

variable {H : Type}

/- The accumulator holding the live slots of a frontier. -/
def ofFrontier (slots : Frontier H) : MmrAccumulator H :=
  { leafCount := frontierValue slots, peaks := slots.reduceOption.reverse }

/- An accumulator of exactly these leaves. -/
def Represents [Hash32 H] (acc : MmrAccumulator H) (leaves : List H) : Prop :=
  leaves.length < 2 ^ 64 ∧ acc = ofFrontier (leafFrontier sha256dPair leaves)

variable {slots : Frontier H}

theorem countOnes_frontierValue (hWord : frontierValue slots < 2 ^ 64) :
    countOnes (frontierValue slots) = slots.reduceOption.length := by
  induction slots with
  | nil => exact countOnes_zero
  | cons slot rest ih =>
    cases slot with
    | none =>
      rw [frontierValue] at hWord ⊢
      rw [countOnes_two_mul hWord, ih (by omega)]
      rfl
    | some left =>
      rw [frontierValue] at hWord ⊢
      rw [countOnes_two_mul_add_one hWord, ih (by omega)]
      rfl

/- Parts with a peak for every set bit are accepted. -/
theorem fromParts_ofFrontier (hWord : frontierValue slots < 2 ^ 64) :
    fromParts (frontierValue slots) slots.reduceOption.reverse = .ok (ofFrontier slots) := by
  simp [fromParts, countOnes_frontierValue hWord, ofFrontier]

/- The frontier of `n` leaves spans `bitWidth n` slots. -/
theorem bitWidth_frontierValue (hTop : TopLive slots) (hWord : frontierValue slots < 2 ^ 64) :
    bitWidth (frontierValue slots) = slots.length := by
  cases slots with
  | nil => rfl
  | cons slot rest =>
    have hLower := two_pow_length_le hTop (List.cons_ne_nil slot rest)
    have hUpper := frontierValue_lt (slot :: rest)
    rw [List.length_cons] at hLower hUpper ⊢
    rw [pow_succ] at hLower
    exact bitWidth_eq (by omega) hUpper hWord

variable [Hash32 H]

--- Appending

/- The merge loop of `extend` carries a leaf into the slots. -/
theorem mergePeaks_frontier (slots : Frontier H) (node : H) (hWord : frontierValue slots < 2 ^ 64) :
    ∃ peaks current,
    mergePeaks (trailingOnes (frontierValue slots)) slots.reduceOption.reverse node =
        some (peaks, current) ∧
      peaks ++ [current] = (carry sha256dPair slots node).reduceOption.reverse := by
  induction slots generalizing node with
  | nil => exact ⟨[], node, rfl, rfl⟩
  | cons slot rest ih =>
    cases slot with
    | none =>
      refine ⟨rest.reduceOption.reverse, node, ?_, ?_⟩
      · simp [frontierValue, mergePeaks]
      · simp [carry]
    | some left =>
      rw [frontierValue] at hWord
      rcases ih (sha256dPair left node) (by omega) with ⟨peaks, current, hMerge, hPeaks⟩
      refine ⟨peaks, current, ?_, ?_⟩
      · rw [frontierValue, trailingOnes_two_mul_add_one hWord]
        simpa [mergePeaks] using hMerge
      · simpa [carry] using hPeaks

/- Below the last word `extend` is the carry. -/
theorem extend_ofFrontier (slots : Frontier H) (leaf : H)
    (hWord : frontierValue slots + 1 < 2 ^ 64) :
    (ofFrontier slots).extend leaf = some (ofFrontier (carry sha256dPair slots leaf)) := by
  rcases mergePeaks_frontier slots leaf (by omega) with ⟨peaks, current, hMerge, hPeaks⟩
  have hCount : checkedAdd (frontierValue slots) 1 = some (frontierValue slots + 1) := if_pos hWord
  unfold extend ofFrontier
  simp only [hMerge, hCount, frontierValue_carry, hPeaks, Option.bind_eq_bind, Option.bind_some,
    Option.pure_def]

variable {acc : MmrAccumulator H}

/- At the last word the leaf count overflows. -/
theorem extend_eq_none (leaf : H) (hFull : 2 ^ 64 ≤ acc.leafCount + 1) :
    acc.extend leaf = none := by
  unfold extend checkedAdd
  rw [if_neg (by omega)]
  cases mergePeaks (trailingOnes acc.leafCount) acc.peaks leaf <;> rfl

theorem represents_new : Represents (new : MmrAccumulator H) [] := ⟨Nat.two_pow_pos 64, rfl⟩

variable {leaves : List H}

theorem Represents.leafCount (hRep : Represents acc leaves) : acc.leafCount = leaves.length := by
  rw [hRep.2]
  exact frontierValue_frontier sha256dPair leaves

theorem Represents.extend (hRep : Represents acc leaves) (leaf : H)
    (hWord : leaves.length + 1 < 2 ^ 64) :
    ∃ acc', acc.extend leaf = some acc' ∧ Represents acc' (leaves ++ [leaf]) := by
  rw [hRep.2]
  refine ⟨_, extend_ofFrontier _ leaf ?_, ?_, ?_⟩
  · rw [frontierValue_frontier]
    exact hWord
  · rw [List.length_append, List.length_singleton]
    exact hWord
  · rw [frontier_append_singleton]

variable {acc' : MmrAccumulator H} {leaf : H}

/- A successful append represents one more leaf. -/
theorem Represents.of_extend (hRep : Represents acc leaves)
    (hExtend : acc.extend leaf = some acc') : Represents acc' (leaves ++ [leaf]) := by
  by_cases hWord : leaves.length + 1 < 2 ^ 64
  · rcases hRep.extend leaf hWord with ⟨acc'', hEq, hRep'⟩
    rw [hEq] at hExtend
    rw [← Option.some.inj hExtend]
    exact hRep'
  · rw [extend_eq_none leaf (by
      rw [hRep.leafCount]
      omega)] at hExtend
    exact absurd hExtend (by simp)

/- Folding `extend` over a list of leaves. -/
def extendAll (acc : MmrAccumulator H) (leaves : List H) : Option (MmrAccumulator H) :=
  leaves.foldlM extend acc

theorem leafCount_extend (hExtend : acc.extend leaf = some acc') :
    acc'.leafCount = acc.leafCount + 1 := by
  rcases Option.bind_eq_some_iff.mp hExtend with ⟨merged, -, hMerged⟩
  rcases Option.bind_eq_some_iff.mp hMerged with ⟨count, hCount, hPure⟩
  unfold checkedAdd at hCount
  split at hCount
  · cases hCount
    cases hPure
    rfl
  · cases hCount

theorem leafCount_extendAll (hExtend : acc.extendAll leaves = some acc') :
    acc'.leafCount = acc.leafCount + leaves.length := by
  induction leaves generalizing acc with
  | nil =>
    cases hExtend
    rfl
  | cons leaf leaves ih =>
    unfold MmrAccumulator.extendAll at hExtend
    rw [List.foldlM_cons] at hExtend
    rcases Option.bind_eq_some_iff.mp hExtend with ⟨next, hNext, hRest⟩
    rw [ih hRest, leafCount_extend hNext, List.length_cons]
    omega

theorem Represents.extendAll {before : List H} (hRep : Represents acc before)
    (hExtend : acc.extendAll leaves = some acc') : Represents acc' (before ++ leaves) := by
  induction leaves generalizing acc before with
  | nil =>
    rw [← Option.some.inj hExtend, List.append_nil]
    exact hRep
  | cons leaf leaves ih =>
    unfold MmrAccumulator.extendAll at hExtend
    rw [List.foldlM_cons] at hExtend
    rcases Option.bind_eq_some_iff.mp hExtend with ⟨next, hNext, hRest⟩
    have hTail := ih (hRep.of_extend hNext) hRest
    simpa using hTail

/- The fold succeeds exactly below the word bound. -/
theorem Represents.extendAll_isSome {before : List H} (hRep : Represents acc before)
    (hWord : before.length + leaves.length < 2 ^ 64) :
    ∃ acc', acc.extendAll leaves = some acc' := by
  induction leaves generalizing acc before with
  | nil => exact ⟨acc, rfl⟩
  | cons leaf leaves ih =>
    rw [List.length_cons] at hWord
    rcases hRep.extend leaf (by omega) with ⟨next, hNext, hRep'⟩
    have hBound : (before ++ [leaf]).length + leaves.length < 2 ^ 64 := by
      rw [List.length_append, List.length_singleton]
      omega
    rcases ih hRep' hBound with ⟨acc', hAcc'⟩
    refine ⟨acc', ?_⟩
    unfold MmrAccumulator.extendAll
    rw [List.foldlM_cons, hNext]
    exact hAcc'

--- Self-Pairing

theorem selfPaired_succ (steps : Nat) (node : H) :
    selfPaired (steps + 1) node = sha256dPair (selfPaired steps node) (selfPaired steps node) := by
  induction steps generalizing node with
  | zero => rfl
  | succ steps ih =>
    rw [selfPaired, ih]
    rfl

theorem selfPairedPath_succ (steps : Nat) (node : H) :
    selfPairedPath (steps + 1) node = selfPairedPath steps node ++ [selfPaired steps node] := by
  induction steps generalizing node with
  | zero => rfl
  | succ steps ih =>
    rw [selfPairedPath, ih]
    rfl

--- Bagging

/- Moving the base of a word up one level. -/
theorem two_pow_succ_mul (k value : Nat) : 2 ^ k * (2 * value) = 2 ^ (k + 1) * value := by
  ring

/-
  From base level `k` the bagging loop is `bag`, with the current node first padded up to that
  level.
-/
theorem bagLoop_frontier {k height remaining : Nat} (current : H) (hTop : TopLive slots)
    (hNe : slots ≠ []) (hHeight : height ≤ k)
    (hClear : clearLowest remaining = 2 ^ k * frontierValue slots)
    (hWord : 2 ^ k * frontierValue slots < 2 ^ 64) :
    bag sha256dPair slots (some (selfPaired (k - height) current)) =
      some (bagLoop slots.reduceOption remaining height current) := by
  induction slots generalizing k height remaining current with
  | nil => exact absurd rfl hNe
  | cons slot rest ih =>
    rw [bag_cons_some]
    cases slot with
    | none =>
      rw [frontierValue, two_pow_succ_mul] at hClear hWord
      have hLevel : k + 1 - height = (k - height) + 1 := by omega
      have hRest := ih current hTop.2 hTop.1 (Nat.le_succ_of_le hHeight) hClear hWord
      rw [hLevel, selfPaired_succ] at hRest
      exact hRest
    | some left =>
      rw [frontierValue] at hClear hWord
      rw [List.reduceOption_cons_of_some, bagLoop, hClear, trailingZeros_shifted _ hWord,
        Nat.max_eq_right hHeight]
      by_cases hRestNe : rest = []
      · subst hRestNe
        rfl
      · have hNext := clearLowest_shifted k (frontierValue rest)
        have hWord' : 2 ^ (k + 1) * frontierValue rest < 2 ^ 64 := by
          rw [← two_pow_succ_mul]
          refine Nat.lt_of_le_of_lt ?_ hWord
          exact Nat.mul_le_mul_left _ (Nat.le_succ _)
        have hRest :=
          ih (sha256dPair left (selfPaired (k - height) current)) hTop hRestNe (Nat.le_refl (k + 1))
            hNext hWord'
        rw [Nat.sub_self] at hRest
        exact hRest

/- Bagging starts from the lowest live slot. -/
theorem bag_eq_bagLoop {k : Nat} (hTop : TopLive slots) (hNe : slots ≠ [])
    (hWord : 2 ^ k * frontierValue slots < 2 ^ 64) :
    ∃ shortest lefts,
    slots.reduceOption = shortest :: lefts ∧
      bag sha256dPair slots none = some
          (bagLoop lefts (2 ^ k * frontierValue slots) (trailingZeros (2 ^ k * frontierValue slots))
            shortest) := by
  induction slots generalizing k with
  | nil => exact absurd rfl hNe
  | cons slot rest ih =>
    cases slot with
    | none =>
      rw [frontierValue, two_pow_succ_mul] at hWord ⊢
      rw [bag_none_cons, List.reduceOption_cons_of_none]
      exact ih hTop.2 hTop.1 hWord
    | some left =>
      refine ⟨left, rest.reduceOption, rfl, ?_⟩
      rw [frontierValue] at hWord ⊢
      rw [trailingZeros_shifted _ hWord]
      by_cases hRestNe : rest = []
      · subst hRestNe
        rfl
      · have hWord' : 2 ^ (k + 1) * frontierValue rest < 2 ^ 64 := by
          rw [← two_pow_succ_mul]
          refine Nat.lt_of_le_of_lt ?_ hWord
          exact Nat.mul_le_mul_left _ (Nat.le_succ _)
        have hRest :=
          bagLoop_frontier left (show TopLive rest from hTop) hRestNe (Nat.le_succ k)
            (clearLowest_shifted k (frontierValue rest))
            hWord'
        have hStep : k.succ - k = 1 := by omega
        rw [hStep] at hRest
        rw [bag_some_cons _ _ hRestNe]
        exact hRest

/- The root of an accumulator is its bagged frontier. -/
theorem root_ofFrontier (hTop : TopLive slots) (hNe : slots ≠ [])
    (hWord : frontierValue slots < 2 ^ 64) :
    bag sha256dPair slots none = some (ofFrontier slots).root := by
  have hPos := frontierValue_pos hTop hNe
  have hBag := bag_eq_bagLoop (k := 0) hTop hNe (by simpa)
  rcases hBag with ⟨shortest, lefts, hLive, hBag⟩
  rw [pow_zero, Nat.one_mul] at hBag
  rw [hBag, root, ofFrontier, if_neg (by simp; omega), List.reverse_reverse, hLive]
  cases lefts <;> rfl

/- The root of represented leaves is their Merkle root. -/
theorem Represents.root (hRep : Represents acc leaves) (hNe : leaves ≠ []) :
    merkleRoot sha256dPair leaves = some acc.root := by
  have hBag :=
    root_ofFrontier (topLive_frontier sha256dPair leaves) (frontier_ne_nil sha256dPair hNe)
      (by
        rw [frontierValue_frontier]
        exact hRep.1)
  rw [hRep.2, ← hBag, bag_frontier]
  simp

--- Proofs For The Next Leaf

theorem proofLoop_frontier (k height : Nat) (current : H) (hTop : TopLive slots) (hNe : slots ≠ [])
    (hHeight : height ≤ k) (hWord : 2 ^ k * frontierValue slots < 2 ^ 64) :
    proofLoop slots.reduceOption (2 ^ k * frontierValue slots) height current =
      selfPairedPath (k - height) current ++
        lastPath sha256dPair slots (selfPaired (k - height) current) := by
  induction slots generalizing k height current with
  | nil => exact absurd rfl hNe
  | cons slot rest ih =>
    cases slot with
    | none =>
      rw [frontierValue, two_pow_succ_mul] at hWord ⊢
      have hLevel : k + 1 - height = (k - height) + 1 := by omega
      have hRest := ih (k + 1) height current hTop.2 hTop.1 (Nat.le_succ_of_le hHeight) hWord
      rw [hLevel, selfPaired_succ, selfPairedPath_succ] at hRest
      rw [List.reduceOption_cons_of_none, hRest, lastPath]
      simp
    | some left =>
      rw [frontierValue] at hWord ⊢
      rw [List.reduceOption_cons_of_some, proofLoop, trailingZeros_shifted _ hWord,
        Nat.max_eq_right hHeight, clearLowest_shifted]
      by_cases hRestNe : rest = []
      · subst hRestNe
        rfl
      · have hWord' : 2 ^ (k + 1) * frontierValue rest < 2 ^ 64 := by
          rw [← two_pow_succ_mul]
          refine Nat.lt_of_le_of_lt ?_ hWord
          exact Nat.mul_le_mul_left _ (Nat.le_succ _)
        have hRest :=
          ih (k + 1) (k + 1) (sha256dPair left (selfPaired (k - height) current)) hTop hRestNe
            (Nat.le_refl (k + 1)) hWord'
        rw [Nat.sub_self] at hRest
        simp only [hRest, lastPath]
        rfl

/- The proof is the sibling path of the carried leaf. -/
theorem proofForNextLeaf_ofFrontier (leaf : H) (hTop : TopLive slots)
    (hWord : frontierValue slots < 2 ^ 64) :
    (ofFrontier slots).proofForNextLeaf leaf = lastPath sha256dPair slots leaf := by
  by_cases hNe : slots = []
  · subst hNe
    rfl
  · have hLoop := proofLoop_frontier 0 0 leaf hTop hNe (Nat.le_refl 0) (by simpa)
    simpa [proofForNextLeaf, ofFrontier, selfPaired, selfPairedPath] using hLoop

--- Climbs

theorem stepUp_eq_parent (idx : Nat) (sibling current : H) :
    stepUp idx sibling current = parent sha256dPair idx sibling current := by
  rw [stepUp, parent, Nat.and_one_is_mod]

theorem climbToPeak_eq_climb (siblings : List H) (idx : Nat) (current : H) :
    climbToPeak siblings idx current = climb sha256dPair siblings idx current := by
  induction siblings generalizing idx current with
  | nil => rfl
  | cons sibling siblings ih => rw [climbToPeak, climb, ih, stepUp_eq_parent, Nat.shiftRight_one]

variable [DecidableEq H]

/- An accepted climb is the plain climb. -/
theorem climb_of_climbToRoot {siblings : List H} {idx : Nat} {current top : H}
    (hClimb : climbToRoot siblings idx current = some top) :
    climb sha256dPair siblings idx current = top := by
  induction siblings generalizing idx current with
  | nil => simpa [climbToRoot, climb] using hClimb
  | cons sibling siblings ih =>
    rw [climbToRoot] at hClimb
    split at hClimb
    · simp at hClimb
    · rw [climb, ← stepUp_eq_parent, ← Nat.shiftRight_one]
      exact ih hClimb

/- Without left duplicates the climb is accepted. -/
theorem climbToRoot_eq_some {siblings : List H} {idx : Nat} {current : H}
    (hFresh : NoLeftDuplicate sha256dPair siblings idx current) :
    climbToRoot siblings idx current = some (climb sha256dPair siblings idx current) := by
  induction siblings generalizing idx current with
  | nil => rfl
  | cons sibling siblings ih =>
    rcases hFresh with ⟨hHere, hRest⟩
    rw [climbToRoot, Nat.and_one_is_mod, if_neg (fun hDup => hHere hDup.1 hDup.2), stepUp_eq_parent,
      Nat.shiftRight_one, ih hRest]
    rfl

/-
  The newest leaf's path is accepted against the bagged root when no left sibling repeats the
  climbing node.
-/
theorem verifyProofToRoot_lastPath (hTop : TopLive slots) (hWord : frontierValue slots + 1 < 2 ^ 64)
    (hFresh :
        NoLeftDuplicate sha256dPair (lastPath sha256dPair slots leaf) (frontierValue slots) leaf) :
    (ofFrontier (carry sha256dPair slots leaf)).verifyProofToRoot (frontierValue slots) leaf
        (lastPath sha256dPair slots leaf) = true := by
  have hCount : (ofFrontier (carry sha256dPair slots leaf)).leafCount = frontierValue slots + 1 :=
    frontierValue_carry sha256dPair slots leaf
  rw [verifyProofToRoot, hCount, if_neg (by omega)]
  by_cases hFirst : slots = []
  · subst hFirst
    simp [frontierValue, lastPath, ofFrontier, carry]
  · have hPos := frontierValue_pos hTop hFirst
    have hRoot :=
      root_ofFrontier (topLive_carry sha256dPair leaf hTop) (carry_ne_nil sha256dPair slots leaf)
        (by rw [frontierValue_carry]; exact hWord)
    rw [bag_carry sha256dPair leaf hTop, climb_lastPath] at hRoot
    rw [if_neg (by omega), if_neg, decide_eq_true_iff, climbToRoot_eq_some hFresh, hRoot]
    rw [Nat.add_sub_cancel, lastPath_length, bitWidth_frontierValue hTop (by omega)]
    exact fun hNe => hNe rfl

--- Bootstrapping

/- Climbing through padding consumes the padding. -/
theorem bootstrapClimb_selfPaired (steps idx : Nat) (siblings : List H) (node : H) :
    bootstrapClimb steps (selfPairedPath steps node ++ siblings) (2 ^ steps * idx) node =
      some (siblings, idx, selfPaired steps node) := by
  induction steps generalizing node with
  | zero => simp [bootstrapClimb, selfPairedPath, selfPaired]
  | succ steps ih =>
    have hShift : 2 ^ (steps + 1) * idx = 2 * (2 ^ steps * idx) := by ring
    have hEven : 2 * (2 ^ steps * idx) % 2 = 0 := by omega
    have hHalf : 2 * (2 ^ steps * idx) / 2 = 2 ^ steps * idx := by omega
    rw [selfPairedPath, List.cons_append, bootstrapClimb, hShift, Nat.and_one_is_mod, hEven,
      if_neg (by simp), stepUp_eq_parent, parent, hEven,
      Nat.shiftRight_one, hHalf, if_neg (by decide), ih]
    rfl

theorem drop_set_self {β : Type} {items : List β} {i : Nat} (value : β)
    (hIndex : i < items.length) : (items.set i value).drop i = value :: items.drop (i + 1) := by
  rw [List.drop_set, if_neg (Nat.lt_irrefl i), Nat.sub_self, List.drop_eq_getElem_cons hIndex]
  rfl

/-
  Above the lowest peak the loop reads every further live slot off the path of the newest leaf.
  The climbing node may lag behind the base level `k` by padding still unread.
-/
theorem bootstrapLoop_rest (lastLeaf : H) (peakCount : Nat) (k height : Nat) (node : H)
    (peaks : List (Option H)) (hTop : TopLive slots) (hLag : slots = [] → height = k) (hPos : 0 < k)
    (hHeight : height ≤ k) (hWord : 2 ^ k * frontierValue slots < 2 ^ 64)
    (hFresh :
      NoLeftDuplicate sha256dPair (lastPath sha256dPair slots (selfPaired (k - height) node))
        (frontierValue slots) (selfPaired (k - height) node))
    (hRoom : slots.reduceOption.length ≤ peaks.length) :
    bootstrapLoop lastLeaf peakCount slots.reduceOption.length (2 ^ k * frontierValue slots)
        (selfPairedPath (k - height) node ++
          lastPath sha256dPair slots (selfPaired (k - height) node)) height node
        (2 ^ (k - height) * frontierValue slots) peaks =
      some
        ([], 0, slots.reduceOption.reverse.map some ++ peaks.drop slots.reduceOption.length) := by
  induction slots generalizing k height node peaks with
  | nil =>
    rw [hLag rfl, Nat.sub_self]
    simp [frontierValue, bootstrapLoop, selfPairedPath, lastPath]
  | cons slot rest ih =>
    cases slot with
    | none =>
      have hLevel : k + 1 - height = (k - height) + 1 := by omega
      have hHalf : 2 * frontierValue rest / 2 = frontierValue rest := by omega
      simp only [lastPath, frontierValue, NoLeftDuplicate, parent, Nat.mul_mod_right, hHalf]
        at hFresh
      have hRest :=
        ih (k + 1) height node peaks hTop.2
          (fun hNil => absurd hNil hTop.1)
          (Nat.succ_pos k) (Nat.le_succ_of_le hHeight)
          (by
            rw [← two_pow_succ_mul]
            exact hWord)
          (by
            rw [hLevel, selfPaired_succ]
            exact hFresh.2)
          hRoom
      rw [hLevel, selfPaired_succ, selfPairedPath_succ, ← two_pow_succ_mul k,
        ← two_pow_succ_mul (k - height), List.append_assoc] at hRest
      exact hRest
    | some left =>
      have hOdd : (2 * frontierValue rest + 1) % 2 = 1 := by omega
      have hHalf : (2 * frontierValue rest + 1) / 2 = frontierValue rest := by omega
      simp only [lastPath, frontierValue, NoLeftDuplicate, parent, hOdd, hHalf, if_true] at hFresh
      rw [frontierValue] at hWord ⊢
      have hSlot : rest.reduceOption.length < peaks.length := by
        rw [List.reduceOption_cons_of_some, List.length_cons] at hRoom
        exact hRoom
      have hNonzero : 2 ^ k * (2 * frontierValue rest + 1) ≠ 0 := by positivity
      have hRest :=
        ih (k + 1) (k + 1) (sha256dPair left (selfPaired (k - height) node))
          (peaks.set rest.reduceOption.length (some left))
          hTop (fun _ => rfl) (Nat.succ_pos k)
          (Nat.le_refl (k + 1))
          (by
            rw [← two_pow_succ_mul]
            refine Nat.lt_of_le_of_lt ?_ hWord
            exact Nat.mul_le_mul_left _ (Nat.le_succ _))
          (by
            rw [Nat.sub_self]
            exact hFresh.2)
          (by
            rw [List.length_set]
            exact Nat.le_of_lt hSlot)
      rw [Nat.sub_self, pow_zero, Nat.one_mul, drop_set_self _ hSlot] at hRest
      simp only [List.reduceOption_cons_of_some, List.length_cons, bootstrapLoop, if_neg hNonzero,
        trailingZeros_shifted _ hWord, lastPath, bootstrapClimb_selfPaired, Option.bind_eq_bind,
        Option.bind_some, Nat.max_eq_right hHeight, clearLowest_shifted, Nat.and_one_is_mod, hOdd,
        stepUp_eq_parent, parent, Nat.shiftRight_one, hHalf, if_true, true_and]
      rw [if_neg (by omega), if_neg (hFresh.1 trivial)]
      simpa [selfPairedPath, selfPaired] using hRest

/-
  The climb to the lowest peak: it passes the slots that the newest leaf merges with, and ends
  below the slots that it leaves alone.
-/
theorem exists_lowestPeak (node : H) (hTop : TopLive slots)
    (hFresh :
        NoLeftDuplicate sha256dPair (lastPath sha256dPair slots node) (frontierValue slots) node) :
    ∃ (height : Nat) (peak : H) (rest : Frontier H) (siblings : List H),
    frontierValue (carry sha256dPair slots node) = 2 ^ height * (2 * frontierValue rest + 1) ∧
      (carry sha256dPair slots node).reduceOption = peak :: rest.reduceOption ∧
      bootstrapClimb height (lastPath sha256dPair slots node) (frontierValue slots) node =
        some (siblings, 2 * frontierValue rest, peak) ∧
      (height = 0 → peak = node) ∧
      TopLive rest ∧
      (rest = [] ∧ siblings = [] ∨
          rest ≠ [] ∧ siblings = peak :: lastPath sha256dPair rest (sha256dPair peak peak)) ∧
      NoLeftDuplicate sha256dPair (lastPath sha256dPair rest (sha256dPair peak peak))
        (frontierValue rest) (sha256dPair peak peak) := by
  induction slots generalizing node with
  | nil => exact ⟨0, node, [], [], rfl, rfl, rfl, fun _ => rfl, trivial, Or.inl ⟨rfl, rfl⟩, trivial⟩
  | cons slot rest ih =>
    cases slot with
    | none =>
      have hHalf : 2 * frontierValue rest / 2 = frontierValue rest := by omega
      simp only [lastPath, frontierValue, NoLeftDuplicate, parent, Nat.mul_mod_right, hHalf]
        at hFresh
      refine ⟨0, node, rest, _, ?_, rfl, rfl, fun _ => rfl, hTop.2, Or.inr ⟨hTop.1, rfl⟩, hFresh.2⟩
      simp [carry, frontierValue]
    | some left =>
      have hOdd : (2 * frontierValue rest + 1) % 2 = 1 := by omega
      have hHalf : (2 * frontierValue rest + 1) / 2 = frontierValue rest := by omega
      simp only [lastPath, frontierValue, NoLeftDuplicate, parent, hOdd, hHalf, if_true] at hFresh
      rcases ih (sha256dPair left node) hTop hFresh.2 with
        ⟨height, peak, above, siblings, hValue, hLive, hClimb, -, hTop', hSiblings, hFresh'⟩
      refine
        ⟨height + 1, peak, above, siblings, ?_, ?_, ?_, fun hZero => absurd hZero (by omega), hTop',
          hSiblings, hFresh'⟩
      · rw [carry, frontierValue, hValue]
        ring
      · rw [carry, List.reduceOption_cons_of_none, hLive]
      · rw [lastPath, frontierValue, bootstrapClimb, Nat.and_one_is_mod, hOdd,
          if_neg (fun hDup => hFresh.1 trivial hDup.2), stepUp_eq_parent, parent, hOdd, if_pos rfl,
          Nat.shiftRight_one, hHalf]
        exact hClimb

/- The loop recovers the frontier after the carry. -/
theorem bootstrapLoop_lastPath (hTop : TopLive slots) (hNe : slots ≠ [])
    (hWord : frontierValue slots + 1 < 2 ^ 64)
    (hFresh :
        NoLeftDuplicate sha256dPair (lastPath sha256dPair slots leaf) (frontierValue slots) leaf) :
    bootstrapLoop leaf (carry sha256dPair slots leaf).reduceOption.length
        (carry sha256dPair slots leaf).reduceOption.length (frontierValue slots + 1)
        (lastPath sha256dPair slots leaf) 0 leaf (frontierValue slots)
        (List.replicate (carry sha256dPair slots leaf).reduceOption.length none) =
      some ([], 0, (carry sha256dPair slots leaf).reduceOption.reverse.map some) := by
  rcases exists_lowestPeak leaf hTop hFresh with
    ⟨height, peak, rest, siblings, hValue, hLive, hClimb, hLeafPeak, hRestTop, hSiblings,
      hRestFresh⟩
  rw [frontierValue_carry] at hValue
  rw [hValue] at hWord ⊢
  have hNonzero : 2 ^ height * (2 * frontierValue rest + 1) ≠ 0 := by positivity
  have hRestWord : 2 ^ (height + 1) * frontierValue rest < 2 ^ 64 := by
    rw [← two_pow_succ_mul]
    refine Nat.lt_of_le_of_lt ?_ hWord
    exact Nat.mul_le_mul_left _ (Nat.le_succ _)
  have hEven : 2 * frontierValue rest % 2 = 0 := by omega
  have hHalf : 2 * frontierValue rest / 2 = frontierValue rest := by omega
  have hSlot :
      rest.reduceOption.length <
        (List.replicate (rest.reduceOption.length + 1) (none : Option H)).length := by
    rw [List.length_replicate]
    exact Nat.lt_succ_self _
  have hDrop :
      ∀ value : Option H,
      ((List.replicate (rest.reduceOption.length + 1) none).set rest.reduceOption.length value).drop
          rest.reduceOption.length = [value] := by
    intro value
    rw [drop_set_self value hSlot]
    simp
  rw [hLive, List.length_cons, bootstrapLoop, if_neg hNonzero]
  simp only [trailingZeros_shifted _ hWord, Nat.sub_zero, hClimb, Option.bind_eq_bind,
    Option.bind_some, clearLowest_shifted, Nat.zero_max, Nat.add_sub_cancel, and_true,
    Nat.and_one_is_mod, hEven, stepUp_eq_parent, parent, Nat.shiftRight_one, hHalf]
  have hGoal :
      (peak :: rest.reduceOption).reverse.map some =
        rest.reduceOption.reverse.map some ++ [some peak] := by
    simp
  rw [hGoal]
  by_cases hLow : height = 0
  · -- The leaf is itself a peak; its padding is unread.
    subst hLow
    rw [if_pos rfl]
    rw [hLeafPeak rfl] at hSiblings hRestFresh ⊢
    rcases hSiblings with ⟨hNil, -⟩ | ⟨hRestNe, hSiblings⟩
    · exfalso
      rw [hNil] at hValue
      simp only [frontierValue] at hValue
      have hPos := frontierValue_pos hTop hNe
      omega
    · have hRest :=
        bootstrapLoop_rest leaf (rest.reduceOption.length + 1) 1 0 leaf
          ((List.replicate (rest.reduceOption.length + 1) none).set rest.reduceOption.length
            (some leaf))
          hRestTop (fun hNil => absurd hNil hRestNe)
          Nat.one_pos (Nat.zero_le 1) hRestWord hRestFresh
          (by
            rw [List.length_set]
            exact Nat.le_of_lt hSlot)
      rw [hDrop] at hRest
      rw [hSiblings]
      simpa [selfPairedPath, selfPaired] using hRest
  · rw [if_neg hLow]
    rcases hSiblings with ⟨hNil, hSiblings⟩ | ⟨-, hSiblings⟩
    · -- A single perfect tree: the climb is its peak.
      rw [hSiblings, hNil]
      simp [frontierValue, bootstrapLoop]
    · -- The peak is read off as its own padding sibling.
      have hRest :=
        bootstrapLoop_rest leaf (rest.reduceOption.length + 1) (height + 1)
          (height + 1) (sha256dPair peak peak)
          ((List.replicate (rest.reduceOption.length + 1) none).set rest.reduceOption.length
            (some peak))
          hRestTop (fun _ => rfl) (Nat.succ_pos _)
          (Nat.le_refl _) hRestWord
          (by
            rw [Nat.sub_self]
            exact hRestFresh)
          (by
            rw [List.length_set]
            exact Nat.le_of_lt hSlot)
      rw [hDrop, Nat.sub_self] at hRest
      rw [hSiblings]
      simpa [selfPairedPath, selfPaired] using hRest

theorem mapM_id_map_some {β : Type} (items : List β) : (items.map some).mapM id = some items := by
  induction items with
  | nil => rfl
  | cons item items ih => simp [List.mapM_cons, ih]

/- Bootstrapping inverts the proof for the next leaf. -/
theorem bootstrap_lastPath (hTop : TopLive slots) (hWord : frontierValue slots + 1 < 2 ^ 64)
    (hFresh :
        NoLeftDuplicate sha256dPair (lastPath sha256dPair slots leaf) (frontierValue slots) leaf) :
    bootstrapFromLastLeafProof (frontierValue slots + 1) leaf (lastPath sha256dPair slots leaf) =
      some (ofFrontier (carry sha256dPair slots leaf)) := by
  have hWord' : frontierValue (carry sha256dPair slots leaf) < 2 ^ 64 := by
    rw [frontierValue_carry]
    exact hWord
  have hParts := fromParts_ofFrontier hWord'
  rw [frontierValue_carry] at hParts
  by_cases hNe : slots = []
  · subst hNe
    rfl
  · have hPos := frontierValue_pos hTop hNe
    have hVerify := verifyProofToRoot_lastPath hTop hWord hFresh
    have hCount :
        countOnes (frontierValue slots + 1) =
          (carry sha256dPair slots leaf).reduceOption.length := by
      rw [← frontierValue_carry sha256dPair slots leaf]
      exact countOnes_frontierValue hWord'
    unfold bootstrapFromLastLeafProof
    rw [if_neg (by omega), if_neg (by omega), if_neg]
    · simp only [hCount, Nat.add_sub_cancel, bootstrapLoop_lastPath hTop hNe hWord hFresh,
        Option.bind_eq_bind, Option.bind_some, mapM_id_map_some, hParts, Except.toOption, hVerify]
      simp
    · rw [Nat.add_sub_cancel, lastPath_length, bitWidth_frontierValue hTop (by omega)]
      exact fun hNe => hNe rfl

end OptnWallet.MmrAccumulator
