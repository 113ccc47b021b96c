import OptnWallet.Core.HeaderMmr.Refinement

/-
  Correctness of the accumulator against Bitcoin Merkle trees: what it commits to, what a proof
  can establish against it, and what a bootstrap can restore.

  Main declarations:
    * `MmrAccumulator.CommitsTo` and `extendAll_correct`
    * `MmrAccumulator.bootstrap_sound`
    * `MmrAccumulator.membership_exact`
    * `MmrAccumulator.tipProof_roundTrip`
-/

--- What An Accumulator Commits To

namespace OptnWallet.MmrAccumulator

open Word64 MerkleTree

variable {H : Type} [Hash32 H]

/-
  An accumulator of `leaves`: one peak for each set bit of the leaf count, each the root of the
  perfect tree over its own consecutive block, the blocks shrinking from left to right, all bagged
  into the Bitcoin Merkle root; and the next append does not abort below the last word.
-/
structure CommitsTo (acc : MmrAccumulator H) (leaves : List H) : Prop where
  leafCount : acc.leafCount = leaves.length
  peakCount : acc.peaks.length = countOnes acc.leafCount
  blocks :
    ∃ blocks : List (List H),
    blocks.flatten = leaves ∧
      blocks.Pairwise (fun longer shorter => shorter.length < longer.length) ∧
      List.Forall₂
        (fun block peak =>
          ∃ height, block.length = 2 ^ height ∧ PerfectTree sha256dPair height block peak) blocks
        acc.peaks
  root : leaves ≠ [] → merkleRoot sha256dPair leaves = some acc.root
  appendable : acc.leafCount < 2 ^ 64 - 1 → ∀ leaf, ∃ acc', acc.extend leaf = some acc'

variable {pair : H → H → H} {mountains : List (Mountain H)}

omit [Hash32 H] in
theorem forall₂_mountains (hPerfect : ∀ m ∈ mountains, PerfectTree pair m.height m.leaves m.peak) :
    List.Forall₂
      (fun block peak => ∃ height, block.length = 2 ^ height ∧ PerfectTree pair height block peak)
      (mountains.map Mountain.leaves) (mountains.map Mountain.peak) := by
  induction mountains with
  | nil => exact .nil
  | cons m mountains ih =>
    have hHere := hPerfect m (List.mem_cons_self ..)
    refine .cons ⟨m.height, hHere.length, hHere⟩ (ih ?_)
    intro m' hMem
    exact hPerfect m' (List.mem_cons_of_mem _ hMem)

variable {acc : MmrAccumulator H} {leaves : List H}

theorem Represents.commitsTo (hRep : Represents acc leaves) : CommitsTo acc leaves := by
  rcases exists_mountains sha256dPair leaves with ⟨mountains, hLeaves, hPeaks, hPerfect, hHeights⟩
  have hWord : frontierValue (leafFrontier sha256dPair leaves) < 2 ^ 64 := by
    rw [frontierValue_frontier]
    exact hRep.1
  constructor
  · exact hRep.leafCount
  · rw [hRep.2, ofFrontier, countOnes_frontierValue hWord, List.length_reverse]
  · refine ⟨mountains.map Mountain.leaves, ?_, ?_, ?_⟩
    · rw [← List.flatMap_def]
      exact hLeaves
    · rw [List.pairwise_map]
      apply List.Pairwise.imp_of_mem _ hHeights
      intro taller shorter hTaller hShorter hLt
      rw [(hPerfect taller hTaller).length, (hPerfect shorter hShorter).length]
      exact Nat.pow_lt_pow_right (by omega) hLt
    · rw [hRep.2, ofFrontier, ← hPeaks]
      exact forall₂_mountains hPerfect
  · exact hRep.root
  · intro hBelow leaf
    rw [hRep.leafCount] at hBelow
    rcases hRep.extend leaf (by omega) with ⟨acc', hExtend, -⟩
    exact ⟨acc', hExtend⟩

theorem represents_of_extendAll (hExtend : new.extendAll leaves = some acc) :
    Represents acc leaves := by
  have hRep := represents_new.extendAll hExtend
  rwa [List.nil_append] at hRep

/-
  Appending any list of leaves to the empty accumulator either overflows the 64-bit leaf count or
  gives an accumulator that commits to the list.
-/
theorem extendAll_correct (leaves : List H) :
    ((∃ acc, new.extendAll leaves = some acc) ↔ leaves.length < 2 ^ 64) ∧
    ∀ acc, new.extendAll leaves = some acc → CommitsTo acc leaves := by
  constructor
  · constructor
    · rintro ⟨acc, hExtend⟩
      exact (represents_of_extendAll hExtend).1
    · intro hWord
      apply represents_new.extendAll_isSome
      rw [List.length_nil, Nat.zero_add]
      exact hWord
  · intro acc hExtend
    exact (represents_of_extendAll hExtend).commitsTo

--- Roots Determine Peaks

section

variable (hPair : Function.Injective2 (sha256dPair : H → H → H))
include hPair

theorem selfPaired_injective (steps : Nat) {a b : H}
    (hEq : selfPaired steps a = selfPaired steps b) : a = b := by
  induction steps generalizing a b with
  | zero => exact hEq
  | succ steps ih => exact (hPair (ih hEq)).1

/- Bagging determines what it bags. -/
theorem bagLoop_injective {lefts lefts' : List H} {remaining height : Nat} {current current' : H}
    (hLength : lefts.length = lefts'.length)
    (hEq : bagLoop lefts remaining height current = bagLoop lefts' remaining height current') :
    lefts = lefts' ∧ current = current' := by
  induction lefts generalizing lefts' remaining height current current' with
  | nil =>
    have hNil := List.length_eq_zero_iff.mp hLength.symm
    subst hNil
    exact ⟨rfl, hEq⟩
  | cons left lefts ih =>
    cases lefts' with
    | nil => simp at hLength
    | cons left' lefts' =>
      rw [List.length_cons, List.length_cons] at hLength
      have hTail := ih (Nat.succ.inj hLength) hEq
      have hHead := hPair hTail.2
      exact ⟨by rw [hTail.1, hHead.1], selfPaired_injective hPair _ hHead.2⟩

/-
  Two accumulators of one shape with one root are equal.
-/
theorem eq_of_root_eq {acc' : MmrAccumulator H} (hCount : acc.leafCount = acc'.leafCount)
    (hPeaks : acc.peaks.length = countOnes acc.leafCount)
    (hPeaks' : acc'.peaks.length = countOnes acc'.leafCount) (hRoot : acc.root = acc'.root) :
    acc = acc' := by
  rcases acc with ⟨leafCount, peaks⟩
  rcases acc' with ⟨leafCount', peaks'⟩
  simp only at hCount hPeaks hPeaks'
  subst hCount
  have hLength : peaks.length = peaks'.length := by rw [hPeaks, hPeaks']
  suffices hRev : peaks.reverse = peaks'.reverse by
    rw [List.reverse_injective hRev]
  have hRevLength : peaks.reverse.length = peaks'.reverse.length := by
    rw [List.length_reverse, List.length_reverse, hLength]
  unfold root at hRoot
  by_cases hEmpty : leafCount = 0
  · subst hEmpty
    rw [countOnes_zero] at hPeaks hPeaks'
    rw [List.length_eq_zero_iff.mp hPeaks, List.length_eq_zero_iff.mp hPeaks']
  · simp only [if_neg hEmpty] at hRoot
    generalize peaks.reverse = stack at hRoot hRevLength ⊢
    generalize peaks'.reverse = stack' at hRoot hRevLength ⊢
    cases stack with
    | nil => rw [List.length_eq_zero_iff.mp hRevLength.symm]
    | cons shortest lefts =>
      cases stack' with
      | nil => simp at hRevLength
      | cons shortest' lefts' =>
        have hLefts : lefts.length = lefts'.length := by simpa using hRevLength
        have hBag :
            bagLoop lefts leafCount (trailingZeros leafCount) shortest =
              bagLoop lefts' leafCount (trailingZeros leafCount) shortest' := by
          cases lefts <;> cases lefts' <;> exact hRoot
        rcases bagLoop_injective hPair hLefts hBag with ⟨hTail, hHead⟩
        rw [hTail, hHead]

end

variable [DecidableEq H] {lastLeaf : H} {siblings : List H}

/- Whatever a bootstrap returns has the declared shape. -/
theorem shape_of_bootstrap {leafCount : Nat}
    (hBoot : bootstrapFromLastLeafProof leafCount lastLeaf siblings = some acc) :
    acc.leafCount = leafCount ∧ acc.peaks.length = countOnes leafCount := by
  have hParts :
      ∀ {count : Nat} {peaks : List H} {acc : MmrAccumulator H},
      (fromParts count peaks).toOption = some acc →
        acc.leafCount = count ∧ acc.peaks.length = countOnes count := by
    intro count peaks acc hEq
    unfold fromParts at hEq
    by_cases hLength : peaks.length = countOnes count
    · rw [if_neg (fun hNe => hNe hLength)] at hEq
      rw [← Option.some.inj hEq]
      exact ⟨rfl, hLength⟩
    · rw [if_pos hLength] at hEq
      simp [Except.toOption] at hEq
  unfold bootstrapFromLastLeafProof at hBoot
  by_cases hZero : leafCount = 0
  · subst hZero
    rw [if_pos rfl] at hBoot
    split at hBoot
    · rw [← Option.some.inj hBoot, countOnes_zero]
      exact ⟨rfl, rfl⟩
    · simp at hBoot
  · rw [if_neg hZero] at hBoot
    by_cases hOne : leafCount = 1
    · subst hOne
      rw [if_pos rfl] at hBoot
      split at hBoot
      · exact hParts hBoot
      · simp at hBoot
    · rw [if_neg hOne] at hBoot
      split at hBoot
      · simp at hBoot
      · simp only [Option.bind_eq_bind, Option.bind_eq_some_iff] at hBoot
        rcases hBoot with ⟨⟨unread, peakIdx, slots⟩, -, hBoot⟩
        split at hBoot
        · simp at hBoot
        · rcases Option.bind_eq_some_iff.mp hBoot with ⟨peaks, -, hBoot⟩
          rcases Option.bind_eq_some_iff.mp hBoot with ⟨built, hBuilt, hBoot⟩
          split at hBoot
          · rw [← Option.some.inj hBoot]
            exact hParts hBuilt
          · simp at hBoot

theorem length_of_bootstrap {leafCount : Nat}
    (hBoot : bootstrapFromLastLeafProof leafCount lastLeaf siblings = some acc) :
    siblings.length = bitWidth (leafCount - 1) := by
  unfold bootstrapFromLastLeafProof at hBoot
  by_cases hZero : leafCount = 0
  · subst hZero
    rw [if_pos rfl] at hBoot
    split at hBoot
    · rename_i hEmpty
      rw [List.isEmpty_iff.mp hEmpty]
      exact bitWidth_zero.symm
    · cases hBoot
  · rw [if_neg hZero] at hBoot
    by_cases hOne : leafCount = 1
    · subst hOne
      rw [if_pos rfl] at hBoot
      split at hBoot
      · rename_i hEmpty
        rw [List.isEmpty_iff.mp hEmpty]
        exact bitWidth_zero.symm
      · cases hBoot
    · rw [if_neg hOne] at hBoot
      split at hBoot
      · cases hBoot
      · rename_i hLength
        exact not_not.mp hLength

/- A bootstrap is determined by its leaf count and root. -/
theorem eq_of_bootstrap (hPair : Function.Injective2 (sha256dPair : H → H → H))
    {real : MmrAccumulator H} (hReal : Represents real leaves)
    (hBoot : bootstrapFromLastLeafProof leaves.length lastLeaf siblings = some acc)
    (hRoot : acc.root = real.root) : acc = real := by
  have hCommits := hReal.commitsTo
  rcases shape_of_bootstrap hBoot with ⟨hCount, hPeaks⟩
  apply eq_of_root_eq hPair _ _ hCommits.peakCount hRoot
  · rw [hCount, hCommits.leafCount]
  · rw [hPeaks, hCount]

/-
  A bootstrap from arbitrary siblings whose root is that of a real accumulator of as many leaves
  is that accumulator, now and after every further append.
-/
theorem bootstrap_sound (hPair : Function.Injective2 (sha256dPair : H → H → H)) {leaves : List H}
    {real : MmrAccumulator H} (hReal : new.extendAll leaves = some real) {lastLeaf : H}
    {siblings : List H} {acc : MmrAccumulator H}
    (hBoot : bootstrapFromLastLeafProof leaves.length lastLeaf siblings = some acc)
    (hRoot : acc.root = real.root) :
    acc = real ∧ ∀ later, (acc.extendAll later).map root = (real.extendAll later).map root := by
  have hEq := eq_of_bootstrap hPair (represents_of_extendAll hReal) hBoot hRoot
  exact ⟨hEq, fun later => by rw [hEq]⟩

theorem bootstrap_sound_three :
    ∃ acc : MmrAccumulator SymbolicHash,
    bootstrapFromLastLeafProof 3 (.bytes [3]) [.bytes [3], .node (.bytes [1]) (.bytes [2])] =
        some acc ∧
      acc = ⟨3, [.node (.bytes [1]) (.bytes [2]), .bytes [3]]⟩ :=
  ⟨_, rfl,
    (@bootstrap_sound SymbolicHash _ _ SymbolicHash.pair_injective
      [.bytes [1], .bytes [2], .bytes [3]] _ rfl (.bytes [3])
      [.bytes [3], .node (.bytes [1]) (.bytes [2])] _ rfl rfl).1⟩

--- Finding A Leaf's Mountain

/-
  The honest path of a leaf inside its own mountain: the first mountain spans the largest power of
  two that fits.
-/
def mountainPath (pair : H → H → H) (leaves : List H) (index : Nat) : List H :=
  if leaves = [] then []
  else
    let height := Nat.log2 leaves.length
    if index < 2 ^ height then path pair height index (leaves.take (2 ^ height))
    else mountainPath pair (leaves.drop (2 ^ height)) (index - 2 ^ height)
  termination_by leaves.length
  decreasing_by
    have hPos : 0 < leaves.length := List.length_pos_iff.mpr ‹_›
    rw [List.length_drop]
    exact Nat.sub_lt hPos (Nat.two_pow_pos _)

omit [Hash32 H] [DecidableEq H] in
/- Mountains below a height hold fewer leaves than it spans. -/
theorem mountains_length_lt (bound : Nat)
    (hPerfect : ∀ m ∈ mountains, PerfectTree pair m.height m.leaves m.peak)
    (hBelow : ∀ m ∈ mountains, m.height < bound)
    (hHeights : mountains.Pairwise (fun taller shorter => shorter.height < taller.height)) :
    (mountains.flatMap Mountain.leaves).length < 2 ^ bound := by
  induction mountains generalizing bound with
  | nil => exact Nat.two_pow_pos bound
  | cons m mountains ih =>
    rcases List.pairwise_cons.mp hHeights with ⟨hShorter, hRest⟩
    have hHere := hPerfect m (List.mem_cons_self ..)
    have hTail :=
      ih m.height (fun m' hMem => hPerfect m' (List.mem_cons_of_mem _ hMem)) hShorter hRest
    have hPow : 2 ^ (m.height + 1) ≤ 2 ^ bound :=
      Nat.pow_le_pow_right (by omega) (hBelow m (List.mem_cons_self ..))
    rw [pow_succ] at hPow
    rw [List.flatMap_cons, List.length_append, hHere.length]
    omega

variable {index : Nat}

omit [Hash32 H] [DecidableEq H] in
/-
  The scan stops at the mountain that holds the leaf, and the leaf keeps its low index bits there.
-/
theorem findMountain_spec {start : Nat} (height peakIndex : Nat)
    (hPerfect : ∀ m ∈ mountains, PerfectTree pair m.height m.leaves m.peak)
    (hHeights : mountains.Pairwise (fun taller shorter => shorter.height < taller.height))
    (hWord : (mountains.flatMap Mountain.leaves).length < 2 ^ 64)
    (hAligned : ∀ m ∈ mountains, 2 ^ m.height ∣ start) (hStart : start ≤ index)
    (hIndex : index < start + (mountains.flatMap Mountain.leaves).length) :
    ∃ (j : Nat) (m : Mountain H) (before offset : Nat),
    mountains[j]? = some m ∧
      findMountain index (mountains.flatMap Mountain.leaves).length start height peakIndex =
        (m.height, peakIndex + j) ∧
      offset < m.leaves.length ∧
      index = 2 ^ m.height * before + offset ∧
      (mountains.flatMap Mountain.leaves)[index - start]? = m.leaves[offset]? ∧
      mountainPath pair (mountains.flatMap Mountain.leaves) (index - start) =
        path pair m.height offset m.leaves := by
  induction mountains generalizing start height peakIndex with
  | nil =>
    rw [List.flatMap_nil, List.length_nil] at hIndex
    omega
  | cons m mountains ih =>
    rcases List.pairwise_cons.mp hHeights with ⟨hShorter, hRest⟩
    have hHere := hPerfect m (List.mem_cons_self ..)
    have hOthers : ∀ m' ∈ mountains, PerfectTree pair m'.height m'.leaves m'.peak :=
      fun m' hMem => hPerfect m' (List.mem_cons_of_mem _ hMem)
    have hTail := mountains_length_lt m.height hOthers hShorter hRest
    rw [List.flatMap_cons, List.length_append, hHere.length] at hIndex hWord
    have hTotal :
        ((m :: mountains).flatMap Mountain.leaves).length =
          2 ^ m.height + (mountains.flatMap Mountain.leaves).length := by
      rw [List.flatMap_cons, List.length_append, hHere.length]
    have hLower : 2 ^ m.height ≤ 2 ^ m.height + (mountains.flatMap Mountain.leaves).length :=
      Nat.le_add_right _ _
    have hUpper :
        2 ^ m.height + (mountains.flatMap Mountain.leaves).length < 2 ^ (m.height + 1) := by
      rw [pow_succ]
      omega
    have hLog :
        Nat.log2 (2 ^ m.height + (mountains.flatMap Mountain.leaves).length) = m.height := by
      apply (Nat.log2_eq_iff (by omega)).mpr
      exact ⟨hLower, hUpper⟩
    have hNonempty : (m :: mountains).flatMap Mountain.leaves ≠ [] := by
      intro hNil
      rw [hNil, List.length_nil] at hTotal
      omega
    rw [findMountain, mountainPath, if_neg hNonempty, hTotal]
    simp only [hLog, bitWidth_eq hLower hUpper hWord, Nat.add_sub_cancel]
    rw [if_pos (by omega)]
    by_cases hInside : index < start + 2 ^ m.height
    · -- The leaf lies in the tallest mountain.
      rcases hAligned m (List.mem_cons_self ..) with ⟨before, hBefore⟩
      have hOffset : index - start < m.leaves.length := by
        rw [hHere.length]
        omega
      refine ⟨0, m, before, index - start, rfl, ?_, hOffset, by omega, ?_, ?_⟩
      · rw [if_pos hInside, Nat.add_zero]
      · rw [List.flatMap_cons, List.getElem?_append_left hOffset]
      · rw [if_pos (by omega), List.flatMap_cons,
          List.take_append_of_le_length (by
            rw [hHere.length]), List.take_of_length_le (by rw [hHere.length])]
    · -- The leaf lies further right.
      have hNextAligned : ∀ m' ∈ mountains, 2 ^ m'.height ∣ start + 2 ^ m.height := by
        intro m' hMem
        apply Nat.dvd_add
        · exact hAligned m' (List.mem_cons_of_mem _ hMem)
        · exact Nat.pow_dvd_pow 2 (Nat.le_of_lt (hShorter m' hMem))
      rcases ih m.height (peakIndex + 1) hOthers hRest
          (by omega) hNextAligned (by omega)
          (by omega) with
        ⟨j, found, before, offset, hFound, hScan, hOffset, hSplit, hLeaf, hPath⟩
      have hIndexRest : index - start - 2 ^ m.height = index - (start + 2 ^ m.height) := by omega
      refine ⟨j + 1, found, before, offset, hFound, ?_, hOffset, hSplit, ?_, ?_⟩
      · rw [if_neg hInside, Nat.add_sub_cancel_left, hScan]
        congr 1
        omega
      · rw [List.flatMap_cons,
          List.getElem?_append_right (by
            rw [hHere.length]
            omega), hHere.length, hIndexRest]
        exact hLeaf
      · rw [if_neg (by omega), List.flatMap_cons,
          List.drop_append_of_le_length (by
            rw [hHere.length]), List.drop_of_length_le (by rw [hHere.length]),
          List.nil_append, hIndexRest]
        exact hPath

--- Membership

variable {leaf : H}

/- A root proof is accepted for the leaf at its index only. -/
theorem getElem?_of_verifyProofToRoot (hPair : Function.Injective2 (sha256dPair : H → H → H))
    (hRep : Represents acc leaves) (hVerify : acc.verifyProofToRoot index leaf siblings) :
    index < acc.leafCount ∧ leaves[index]? = some leaf := by
  unfold verifyProofToRoot at hVerify
  by_cases hOutside : acc.leafCount ≤ index
  · rw [if_pos hOutside] at hVerify
    exact absurd hVerify (by simp)
  · rw [if_neg hOutside] at hVerify
    have hIndex : index < leaves.length := by
      rw [← hRep.leafCount]
      omega
    have hNe : leaves ≠ [] := List.length_pos_iff.mp (by omega)
    refine ⟨by omega, ?_⟩
    by_cases hOne : acc.leafCount = 1
    · rw [if_pos hOne, Bool.and_eq_true, decide_eq_true_iff] at hVerify
      have hLength : leaves.length = 1 := by rw [← hRep.leafCount, hOne]
      rcases List.length_eq_one_iff.mp hLength with ⟨only, rfl⟩
      have hPeak := hVerify.2
      rw [hRep.2] at hPeak
      have hZero : index = 0 := by
        rw [hLength] at hIndex
        omega
      subst hZero
      simpa [leafFrontier, carry, ofFrontier] using hPeak
    · rw [if_neg hOne, hRep.leafCount] at hVerify
      split at hVerify
      · exact absurd hVerify (by simp)
      · rename_i hLength
        have hLength : siblings.length = bitWidth (leaves.length - 1) :=
          Decidable.not_not.mp hLength
        rw [decide_eq_true_iff] at hVerify
        have hClimb := climb_of_climbToRoot hVerify
        rw [hRep.leafCount] at hOne
        have hWord := hRep.1
        have hUpper := lt_two_pow_bitWidth (show leaves.length - 1 < 2 ^ 64 by omega)
        have hLower := two_pow_bitWidth_le (show 0 < leaves.length - 1 by omega) (by omega)
        rcases level_eq_singleton sha256dPair
            (show leaves.length ≤ 2 ^ siblings.length by
              rw [hLength]
              omega)
            (by
              rw [hLength]
              omega) with
          ⟨top, hTop, hMerkle⟩
        rw [hRep.root hNe] at hMerkle
        have hDepth : index / 2 ^ siblings.length = 0 := by
          apply Nat.div_eq_of_lt
          rw [hLength]
          omega
        apply getElem?_eq_of_climb hPair siblings hIndex
        rw [hTop, hDepth, hClimb, Option.some.inj hMerkle]
        rfl

/- The honest path of every leaf is accepted by the root. -/
theorem verifyProofToRoot_path (hRep : Represents acc leaves)
    (hNodes : DistinctNodes sha256dPair leaves) (hLeaf : leaves[index]? = some leaf) :
    acc.verifyProofToRoot index leaf (path sha256dPair (bitWidth (leaves.length - 1)) index leaves)
        = true := by
  have hIndex := (List.getElem?_eq_some_iff.mp hLeaf).1
  have hNe : leaves ≠ [] := List.length_pos_iff.mp (by omega)
  have hWord := hRep.1
  unfold verifyProofToRoot
  rw [hRep.leafCount, if_neg (by omega)]
  by_cases hOne : leaves.length = 1
  · rcases List.length_eq_one_iff.mp hOne with ⟨only, rfl⟩
    have hZero : index = 0 := by
      rw [hOne] at hIndex
      omega
    subst hZero
    rw [if_pos hOne, hRep.2]
    simpa [leafFrontier, carry, ofFrontier, path] using hLeaf
  · have hUpper := lt_two_pow_bitWidth (show leaves.length - 1 < 2 ^ 64 by omega)
    have hLower := two_pow_bitWidth_le (show 0 < leaves.length - 1 by omega) (by omega)
    rcases level_eq_singleton sha256dPair
        (show leaves.length ≤ 2 ^ bitWidth (leaves.length - 1) by omega)
        (by omega) with
      ⟨top, hTop, hMerkle⟩
    rw [hRep.root hNe] at hMerkle
    have hClimb := climb_path sha256dPair (bitWidth (leaves.length - 1)) hLeaf
    rw [Nat.div_eq_of_lt (by omega), hTop, ← Option.some.inj hMerkle] at hClimb
    rw [if_neg hOne, path_length sha256dPair _ hIndex, if_neg (fun hNe => hNe rfl),
      decide_eq_true_iff, climbToRoot_eq_some (noLeftDuplicate_path sha256dPair _ hNodes hLeaf)]
    exact hClimb.symm

/-
  What a peak proof is checked against: the mountain of the leaf, whose peak is the root of its
  own level.
-/
theorem verifyProofToPeak_eq (hRep : Represents acc leaves) (hIndex : index < leaves.length) :
    ∃ (m : Mountain H) (offset : Nat),
    PerfectTree sha256dPair m.height m.leaves m.peak ∧ offset < m.leaves.length ∧
      leaves[index]? = m.leaves[offset]? ∧
      mountainPath sha256dPair leaves index = path sha256dPair m.height offset m.leaves ∧
      ∀ leaf siblings,
        acc.verifyProofToPeak index leaf siblings = true ↔
          siblings.length = m.height ∧ climb sha256dPair siblings offset leaf = m.peak := by
  rcases exists_mountains sha256dPair leaves with ⟨mountains, hLeaves, hPeaks, hPerfect, hHeights⟩
  rcases findMountain_spec 0 0 hPerfect hHeights
      (by
        rw [hLeaves]
        exact hRep.1)
      (fun m _ => Nat.dvd_zero _) (Nat.zero_le index)
      (by
        rw [hLeaves, Nat.zero_add]
        exact hIndex) with
    ⟨j, m, before, offset, hFound, hScan, hOffset, hSplit, hLeaf, hPath⟩
  rw [hLeaves, Nat.sub_zero] at hLeaf hPath
  rw [hLeaves, Nat.zero_add] at hScan
  refine ⟨m, offset, hPerfect m (List.mem_of_getElem? hFound), hOffset, hLeaf, hPath, ?_⟩
  intro leaf siblings
  have hPeak : acc.peaks[j]? = some m.peak := by
    rw [hRep.2, ofFrontier, ← hPeaks, List.getElem?_map, hFound]
    rfl
  unfold verifyProofToPeak
  rw [hRep.leafCount, if_neg (by omega)]
  simp only [hScan, hPeak]
  by_cases hLength : siblings.length = m.height
  · rw [if_neg (fun hNe => hNe hLength), decide_eq_true_iff, climbToPeak_eq_climb, hSplit,
      ← hLength, climb_add_mul]
    simp
  · rw [if_pos hLength]
    simp [hLength]

/-
  Against an accumulator of distinct leaves a proof is accepted exactly for appended leaves at
  their own index: an index that was never appended, such as one of a duplicated padding node,
  proves nothing.
-/
theorem membership_exact (hPair : Function.Injective2 (sha256dPair : H → H → H)) {leaves : List H}
    (hNodup : leaves.Nodup) {acc : MmrAccumulator H} (hAcc : new.extendAll leaves = some acc) :
    (∀ index leaf siblings,
        acc.verifyProofToRoot index leaf siblings = true →
          index < acc.leafCount ∧ leaves[index]? = some leaf) ∧
    (∀ index leaf,
        leaves[index]? = some leaf → acc.verifyProofToRoot index leaf
              (path sha256dPair (bitWidth (leaves.length - 1)) index leaves) = true) ∧
    (∀ index leaf siblings,
        acc.verifyProofToPeak index leaf siblings = true →
          index < acc.leafCount ∧ leaves[index]? = some leaf) ∧
    (∀ index leaf,
      leaves[index]? = some leaf →
        acc.verifyProofToPeak index leaf (mountainPath sha256dPair leaves index) = true) := by
  have hRep := represents_of_extendAll hAcc
  refine ⟨?_, ?_, ?_, ?_⟩
  · intro index leaf siblings hVerify
    exact getElem?_of_verifyProofToRoot hPair hRep hVerify
  · intro index leaf hLeaf
    exact verifyProofToRoot_path hRep (distinctNodes_of_nodup hPair hNodup) hLeaf
  · intro index leaf siblings hVerify
    have hIndex : index < acc.leafCount := by
      by_contra hOutside
      unfold verifyProofToPeak at hVerify
      rw [if_pos (by omega)] at hVerify
      simp at hVerify
    refine ⟨hIndex, ?_⟩
    rw [hRep.leafCount] at hIndex
    rcases verifyProofToPeak_eq hRep hIndex with ⟨m, offset, hTree, hOffset, hLeaf, -, hIff⟩
    rcases (hIff leaf siblings).mp hVerify with ⟨hLength, hClimb⟩
    rw [hLeaf]
    apply getElem?_eq_of_climb hPair siblings hOffset
    rw [hLength, hTree.level, hClimb,
      Nat.div_eq_of_lt (by
        rw [← hTree.length]
        exact hOffset)]
    rfl
  · intro index leaf hLeaf
    have hIndex := (List.getElem?_eq_some_iff.mp hLeaf).1
    rcases verifyProofToPeak_eq hRep hIndex with ⟨m, offset, hTree, hOffset, hSame, hPath, hIff⟩
    rw [hSame] at hLeaf
    have hClimb := climb_path sha256dPair m.height hLeaf
    rw [hTree.level,
      Nat.div_eq_of_lt (by
        rw [← hTree.length]
        exact hOffset)] at hClimb
    rw [hPath, hIff, path_length sha256dPair _ hOffset]
    exact ⟨rfl, (Option.some.inj hClimb).symm⟩

theorem membership_exact_three :
    (⟨3, [.node (.bytes [1]) (.bytes [2]), .bytes [3]]⟩ : MmrAccumulator
          SymbolicHash).verifyProofToRoot 2 (.bytes [3])
        [.bytes [3], .node (.bytes [1]) (.bytes [2])] = true :=
  (@membership_exact SymbolicHash _ _ SymbolicHash.pair_injective
    [.bytes [1], .bytes [2], .bytes [3]] (by decide) _
    rfl).2.1 2 (.bytes [3]) rfl

--- Tip Proofs

/- A tip proof has one sibling for each level above it. -/
omit [DecidableEq H] in
theorem length_proofForNextLeaf (hRep : Represents acc leaves) (leaf : H) :
    (acc.proofForNextLeaf leaf).length = bitWidth leaves.length := by
  have hTop := topLive_frontier sha256dPair leaves
  have hValue := frontierValue_frontier sha256dPair leaves
  have hWord : frontierValue (leafFrontier sha256dPair leaves) < 2 ^ 64 := by
    rw [hValue]
    exact hRep.1
  rw [hRep.2, proofForNextLeaf_ofFrontier leaf hTop hWord, lastPath_length,
    ← bitWidth_frontierValue hTop hWord, hValue]

/- The proof of a tip verifies, and restores the accumulator. -/
theorem tipProof_restores {acc' : MmrAccumulator H} (hRep : Represents acc leaves)
    (hExtend : acc.extend leaf = some acc')
    (hNodes : DistinctNodes sha256dPair (leaves ++ [leaf])) :
    acc'.verifyProofToRoot leaves.length leaf (acc.proofForNextLeaf leaf) = true ∧
    bootstrapFromLastLeafProof (leaves.length + 1) leaf (acc.proofForNextLeaf leaf) =
      some acc' := by
  have hRep' := hRep.of_extend hExtend
  have hTop := topLive_frontier sha256dPair leaves
  have hValue := frontierValue_frontier sha256dPair leaves
  have hLength := hRep'.1
  rw [List.length_append, List.length_singleton] at hLength
  have hWord : frontierValue (leafFrontier sha256dPair leaves) + 1 < 2 ^ 64 := by
    rw [hValue]
    exact hLength
  have hFresh := noLeftDuplicate_lastPath sha256dPair leaves leaf hNodes
  have hProof :
      acc.proofForNextLeaf leaf = lastPath sha256dPair (leafFrontier sha256dPair leaves) leaf := by
    rw [hRep.2]
    exact proofForNextLeaf_ofFrontier leaf hTop (by omega)
  rw [hProof, hRep'.2, frontier_append_singleton, ← hValue]
  constructor
  · exact verifyProofToRoot_lastPath hTop hWord hFresh
  · exact bootstrap_lastPath hTop hWord hFresh

/-
  The proof taken before appending a leaf is accepted after appending it, is short, and restores
  the extended accumulator.
-/
theorem tipProof_roundTrip {leaves : List H} {acc acc' : MmrAccumulator H}
    (hAcc : new.extendAll leaves = some acc) {leaf : H} (hExtend : acc.extend leaf = some acc')
    (hNodes : DistinctNodes sha256dPair (leaves ++ [leaf])) :
    acc'.verifyProofToRoot leaves.length leaf (acc.proofForNextLeaf leaf) = true ∧
    (acc.proofForNextLeaf leaf).length ≤ 64 ∧
    bootstrapFromLastLeafProof (leaves.length + 1) leaf (acc.proofForNextLeaf leaf) =
      some acc' := by
  have hRep := represents_of_extendAll hAcc
  rcases tipProof_restores hRep hExtend hNodes with ⟨hVerified, hRestored⟩
  refine ⟨hVerified, ?_, hRestored⟩
  rw [length_proofForNextLeaf hRep]
  exact bitWidth_le _

theorem tipProof_roundTrip_three :
    bootstrapFromLastLeafProof 3 (.bytes [3])
        ((⟨2, [.node (.bytes [1]) (.bytes [2])]⟩ : MmrAccumulator SymbolicHash).proofForNextLeaf
          (.bytes [3])) = some ⟨3, [.node (.bytes [1]) (.bytes [2]), .bytes [3]]⟩ :=
  (@tipProof_roundTrip SymbolicHash _ _ [.bytes [1], .bytes [2]] _ _ rfl (.bytes [3]) rfl
    (distinctNodes_of_nodup SymbolicHash.pair_injective (by decide))).2.2

end OptnWallet.MmrAccumulator
