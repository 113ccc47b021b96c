import OptnWallet.Core.HeaderMmr.Correctness

/-
  Accumulators of a valid shape, whether or not their peaks come from a chain of leaves.

  A proof for a last leaf restores some accumulator of the right shape; only a root tells whether
  it is that of a chain.  Appending is total on shapes and determines both the accumulator it
  started from and the leaves.

  Main declarations:
    * `MmrAccumulator.Shaped`
    * `MmrAccumulator.Shaped.extend`
    * `MmrAccumulator.extendAll_injective`
    * `MmrAccumulator.chain_of_root`
-/

--- Shapes

namespace OptnWallet.MmrAccumulator

open Word64 MerkleTree

variable {H : Type}

/- One peak for every set bit of a 64-bit leaf count. -/
structure Shaped (acc : MmrAccumulator H) : Prop where
  word : acc.leafCount < 2 ^ 64
  peakCount : acc.peaks.length = countOnes acc.leafCount

/- Nodes, one for every set bit, fill the slots in order. -/
theorem exists_slots (leafCount : Nat) {nodes : List H} (hWord : leafCount < 2 ^ 64)
    (hNodes : nodes.length = countOnes leafCount) :
    ∃ slots : Frontier H, frontierValue slots = leafCount ∧ slots.reduceOption = nodes := by
  induction leafCount using Nat.strongRecOn generalizing nodes with
  | ind leafCount ih =>
    by_cases hZero : leafCount = 0
    · rw [hZero, countOnes_zero, List.length_eq_zero_iff] at hNodes
      exact ⟨[], hZero.symm, hNodes.symm⟩
    rcases Nat.even_or_odd' leafCount with ⟨half, hEven | hOdd⟩
    · rw [hEven] at hWord
      rw [hEven, countOnes_two_mul hWord] at hNodes
      rcases ih half (by omega) (by omega) hNodes with ⟨slots, hValue, hSlots⟩
      refine ⟨none :: slots, ?_, ?_⟩
      · rw [frontierValue, hValue, hEven]
      · rw [List.reduceOption_cons_of_none]
        exact hSlots
    · rw [hOdd] at hWord
      rw [hOdd, countOnes_two_mul_add_one hWord] at hNodes
      cases nodes with
      | nil => simp at hNodes
      | cons node nodes =>
        rw [List.length_cons] at hNodes
        rcases ih half (by omega) (by omega)
            (Nat.succ.inj hNodes) with
          ⟨slots, hValue, hSlots⟩
        refine ⟨some node :: slots, ?_, ?_⟩
        · rw [frontierValue, hValue, hOdd]
        · rw [List.reduceOption_cons_of_some, hSlots]

variable {acc : MmrAccumulator H}

/- Every shape is that of a frontier. -/
theorem Shaped.exists_frontier (hShaped : Shaped acc) :
    ∃ slots : Frontier H, frontierValue slots < 2 ^ 64 ∧ acc = ofFrontier slots := by
  have hNodes : acc.peaks.reverse.length = countOnes acc.leafCount := by
    rw [List.length_reverse]
    exact hShaped.peakCount
  rcases exists_slots acc.leafCount hShaped.word hNodes with ⟨slots, hValue, hSlots⟩
  refine ⟨slots, ?_, ?_⟩
  · rw [hValue]
    exact hShaped.word
  · unfold ofFrontier
    rw [hValue, hSlots, List.reverse_reverse]

theorem shaped_ofFrontier {slots : Frontier H} (hWord : frontierValue slots < 2 ^ 64) :
    Shaped (ofFrontier slots) := by
  constructor
  · exact hWord
  · unfold ofFrontier
    rw [countOnes_frontierValue hWord, List.length_reverse]

theorem shaped_new : Shaped (new : MmrAccumulator H) := ⟨Nat.two_pow_pos 64, countOnes_zero.symm⟩

variable [Hash32 H] {leaves : List H}

theorem Represents.shaped (hRep : Represents acc leaves) : Shaped acc := by
  rw [hRep.2]
  apply shaped_ofFrontier
  rw [frontierValue_frontier]
  exact hRep.1

/- Below the last word a leaf can be appended to a shape. -/
theorem Shaped.extend (hShaped : Shaped acc) (leaf : H) (hWord : acc.leafCount + 1 < 2 ^ 64) :
    ∃ acc', acc.extend leaf = some acc' ∧ Shaped acc' := by
  rcases hShaped.exists_frontier with ⟨slots, -, rfl⟩
  refine ⟨_, extend_ofFrontier slots leaf hWord, ?_⟩
  apply shaped_ofFrontier
  rw [frontierValue_carry]
  exact hWord

variable {acc' : MmrAccumulator H}

theorem Shaped.of_extend {leaf : H} (hShaped : Shaped acc) (hExtend : acc.extend leaf = some acc') :
    Shaped acc' := by
  by_cases hWord : acc.leafCount + 1 < 2 ^ 64
  · rcases hShaped.extend leaf hWord with ⟨next, hNext, hShaped'⟩
    rw [hExtend] at hNext
    rw [Option.some.inj hNext]
    exact hShaped'
  · rw [extend_eq_none leaf (not_lt.mp hWord)] at hExtend
    cases hExtend

theorem Shaped.of_extendAll (hShaped : Shaped acc) (hExtend : acc.extendAll leaves = some acc') :
    Shaped acc' := by
  induction leaves generalizing acc with
  | nil =>
    rw [← Option.some.inj hExtend]
    exact hShaped
  | cons leaf leaves ih =>
    unfold MmrAccumulator.extendAll at hExtend
    rw [List.foldlM_cons] at hExtend
    rcases Option.bind_eq_some_iff.mp hExtend with ⟨next, hNext, hRest⟩
    exact ih (hShaped.of_extend hNext) hRest

--- Appending Is Injective

/- Merging determines the peaks and the node it merged. -/
theorem mergePeaks_injective (hPair : Function.Injective2 (sha256dPair : H → H → H))
    {mergeCount : Nat} {peaks peaks' : List H} {node node' : H} {merged : List H × H}
    (hMerge : mergePeaks mergeCount peaks node = some merged)
    (hMerge' : mergePeaks mergeCount peaks' node' = some merged) :
    peaks = peaks' ∧ node = node' := by
  induction mergeCount generalizing peaks peaks' node node' with
  | zero =>
    rw [← hMerge'] at hMerge
    cases hMerge
    exact ⟨rfl, rfl⟩
  | succ mergeCount ih =>
    unfold mergePeaks at hMerge hMerge'
    cases hLast : peaks.getLast? with
    | none =>
      rw [hLast] at hMerge
      cases hMerge
    | some left =>
      cases hLast' : peaks'.getLast? with
      | none =>
        rw [hLast'] at hMerge'
        cases hMerge'
      | some left' =>
        rw [hLast] at hMerge
        rw [hLast'] at hMerge'
        rcases ih hMerge hMerge' with ⟨hInit, hNode⟩
        rcases hPair hNode with ⟨rfl, rfl⟩
        rcases List.getLast?_eq_some_iff.mp hLast with ⟨front, rfl⟩
        rcases List.getLast?_eq_some_iff.mp hLast' with ⟨front', rfl⟩
        rw [List.dropLast_concat, List.dropLast_concat] at hInit
        rw [hInit]
        exact ⟨rfl, rfl⟩

variable {final : MmrAccumulator H} (hPair : Function.Injective2 (sha256dPair : H → H → H))
include hPair

theorem extend_injective {leaf leaf' : H} (hExtend : acc.extend leaf = some final)
    (hExtend' : acc'.extend leaf' = some final) : acc = acc' ∧ leaf = leaf' := by
  have hCount : acc.leafCount = acc'.leafCount := by
    have hFinal := leafCount_extend hExtend
    have hFinal' := leafCount_extend hExtend'
    omega
  unfold MmrAccumulator.extend at hExtend hExtend'
  rcases Option.bind_eq_some_iff.mp hExtend with ⟨⟨peaks, current⟩, hMerge, hRest⟩
  rcases Option.bind_eq_some_iff.mp hExtend' with ⟨⟨peaks', current'⟩, hMerge', hRest'⟩
  rcases Option.bind_eq_some_iff.mp hRest with ⟨count, -, hPure⟩
  rcases Option.bind_eq_some_iff.mp hRest' with ⟨count', -, hPure'⟩
  have hFinal := (Option.some.inj hPure).trans (Option.some.inj hPure').symm
  have hSame := (MmrAccumulator.mk.inj hFinal).2
  rcases List.append_inj' hSame rfl with ⟨rfl, hCurrent⟩
  cases hCurrent
  rw [hCount] at hMerge
  rcases mergePeaks_injective hPair hMerge hMerge' with ⟨hPeaks, hLeaf⟩
  rcases acc with ⟨leafCount, peaks⟩
  rcases acc' with ⟨leafCount', peaks'⟩
  cases hCount
  cases hPeaks
  exact ⟨rfl, hLeaf⟩

/-
  From as many leaves to the same accumulator: the same start and the same leaves.
-/
theorem extendAll_injective {leaves' : List H} (hCount : acc.leafCount = acc'.leafCount)
    (hExtend : acc.extendAll leaves = some final) (hExtend' : acc'.extendAll leaves' = some final) :
    acc = acc' ∧ leaves = leaves' := by
  have hLength : leaves.length = leaves'.length := by
    have hFinal := leafCount_extendAll hExtend
    have hFinal' := leafCount_extendAll hExtend'
    omega
  unfold MmrAccumulator.extendAll at hExtend hExtend'
  induction leaves using List.reverseRecOn generalizing leaves' final with
  | nil =>
    have hNil := List.length_eq_zero_iff.mp hLength.symm
    subst hNil
    cases hExtend
    cases hExtend'
    exact ⟨rfl, rfl⟩
  | append_singleton leaves leaf ih =>
    rcases List.eq_nil_or_concat' leaves' with hNil | ⟨front', leaf', rfl⟩
    · rw [hNil] at hLength
      simp at hLength
    · rw [List.foldlM_append] at hExtend hExtend'
      rcases Option.bind_eq_some_iff.mp hExtend with ⟨mid, hMid, hLast⟩
      rcases Option.bind_eq_some_iff.mp hExtend' with ⟨mid', hMid', hLast'⟩
      simp only [List.foldlM_cons, List.foldlM_nil, bind_pure] at hLast hLast'
      rcases extend_injective hPair hLast hLast' with ⟨rfl, rfl⟩
      have hFront : leaves.length = front'.length := by simpa using hLength
      rcases ih hMid hMid' hFront with ⟨hAcc, rfl⟩
      exact ⟨hAcc, rfl⟩

/-
  Leaves appended to a shape that end in the root of a chain are the rest of that chain, and the
  shape they were appended to is the accumulator of what comes before.
-/
theorem chain_of_root {start : MmrAccumulator H} {appended chain : List H} (hShaped : Shaped start)
    (hExtend : start.extendAll appended = some final) (hCount : final.leafCount = chain.length)
    (hRoot : merkleRoot sha256dPair chain = some final.root) :
    Represents start (chain.take start.leafCount) ∧ appended = chain.drop start.leafCount := by
  have hFinal := hShaped.of_extendAll hExtend
  have hLength := leafCount_extendAll hExtend
  have hNonempty : chain ≠ [] := by
    intro hNil
    rw [hNil, merkleRoot] at hRoot
    cases hRoot
  have hWord : ([] : List H).length + chain.length < 2 ^ 64 := by
    rw [List.length_nil, ← hCount, Nat.zero_add]
    exact hFinal.word
  rcases represents_new.extendAll_isSome hWord with ⟨real, hReal⟩
  have hRep := represents_of_extendAll hReal
  have hRealRoot := hRep.root hNonempty
  rw [hRoot] at hRealRoot
  have hSame : final = real := by
    apply eq_of_root_eq hPair _ hFinal.peakCount hRep.shaped.peakCount (Option.some.inj hRealRoot)
    rw [hCount, hRep.leafCount]
  -- The chain itself passes through its own prefix.
  have hSplit := List.take_append_drop start.leafCount chain
  unfold MmrAccumulator.extendAll at hReal
  rw [← hSplit, List.foldlM_append] at hReal
  rcases Option.bind_eq_some_iff.mp hReal with ⟨mid, hMid, hRest⟩
  have hRepMid : Represents mid (chain.take start.leafCount) := represents_of_extendAll hMid
  have hMidCount : start.leafCount = mid.leafCount := by
    rw [hRepMid.leafCount, List.length_take, min_eq_left]
    omega
  rw [hSame] at hExtend
  rcases extendAll_injective hPair hMidCount hExtend hRest with ⟨rfl, hLeaves⟩
  exact ⟨hRepMid, hLeaves⟩

end OptnWallet.MmrAccumulator
