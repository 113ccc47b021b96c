import OptnWallet.Runtime.HeaderView.TimeIndex

/-
  Restore starts of a running view: exactly when the height that a time lookup answers with is not
  later than the first block that reaches the requested time.

  Between anchors the lookup rounds down.  An anchor whose median equals the target is different:
  blocks below it may share that median, and only `lookback` makes up for them.

  Main declarations:
    * `VerifiedHeaderView.NeverLate`
    * `VerifiedHeaderView.CoversTies`
    * `VerifiedHeaderView.restoreStart_neverLate_iff`
-/

--- Early And Late Starts

namespace OptnWallet

open StagedUpdate

/- Medians never fall along the chain. -/
def MedianNonDecreasing (times : List UInt32) : Prop :=
  ∀ later < times.length,
    ∀ earlier < later,
      ∀ median ∈ chainMedianTime times earlier,
        ∀ median' ∈ chainMedianTime times later, median ≤ median'

instance (times : List UInt32) : Decidable (MedianNonDecreasing times) :=
  @Nat.decidableBallLT _ _
    (fun _ _ => @Nat.decidableBallLT _ _
        (fun _ _ => @Option.decidableForallMem _ _
            (fun median =>
              @Option.decidableForallMem _ _ (fun median' => UInt32.decLe median median') _) _))

namespace VerifiedHeaderView

variable {H : Type}

/- No block below `height` reaches the target time. -/
def NeverLate (times : List UInt32) (targetTime height : UInt32) : Prop :=
  ∀ block < times.length,
    ∀ median ∈ chainMedianTime times block, targetTime ≤ median → height.toNat ≤ block

/-
  Every block that shares the median of an anchor exactly at the target lies within `lookback`
  blocks of that anchor, and not below the oldest one.
-/
def CoversTies (view : VerifiedHeaderView H) (times : List UInt32) (targetTime lookback : UInt32) :
    Prop :=
  ∀ anchor ∈ view.times.anchors,
    anchor.medianTimePast = targetTime →
      ∀ block < anchor.height.toNat,
        chainMedianTime times block = some targetTime →
          anchor.height.toNat ≤ block + lookback.toNat ∧
            ∀ oldest ∈ view.times.oldest, oldest.height.toNat ≤ block

instance (view : VerifiedHeaderView H) (times : List UInt32) (targetTime lookback : UInt32) :
    Decidable (CoversTies view times targetTime lookback) :=
  inferInstanceAs
    (Decidable
      (∀ anchor ∈ view.times.anchors,
        anchor.medianTimePast = targetTime →
          ∀ block < anchor.height.toNat,
            chainMedianTime times block = some targetTime →
              anchor.height.toNat ≤ block + lookback.toNat ∧
                ∀ oldest ∈ view.times.oldest, oldest.height.toNat ≤ block))

--- Anchors Of The Whole Chain

variable {base view : VerifiedHeaderView H} {seen : List UInt32} {anchor : HeaderAnchor H}

/- What a view that began without anchors has indexed. -/
theorem Indexed.recordedFrom (hEmpty : base.times.anchors = []) {start : Nat}
    (hIndexed : Indexed base start seen view) (hMem : anchor ∈ view.times.anchors) :
    RecordedFrom start seen anchor := by
  rcases hIndexed.anchors anchor hMem with hBase | hRecorded
  · rw [hEmpty] at hBase
    cases hBase
  · exact hRecorded

theorem Indexed.authenticatedAnchors (hEmpty : base.times.anchors = []) {start : Nat}
    (hIndexed : Indexed base start seen view) :
    view.times.authenticatedAnchors = view.times.anchors := by
  unfold SparseHeaderIndex.authenticatedAnchors
  rw [List.filter_eq_self]
  intro anchor hMem
  exact (hIndexed.recordedFrom hEmpty hMem).1

/- An anchor carries the chain's median at its height. -/
theorem chainMedianTime_of_recordedFrom {before : List UInt32}
    (hRecorded : RecordedFrom before.length seen anchor) :
    anchor.height.toNat < (before ++ seen).length ∧
    chainMedianTime (before ++ seen) anchor.height.toNat = some anchor.medianTimePast := by
  rcases hRecorded.2 with ⟨count, hFull, hSeen, hHeight, hMedian⟩
  constructor
  · rw [List.length_append]
    omega
  · unfold chainMedianTime
    rw [hHeight, List.take_length_add_append, medianTimePast_append]
    · exact hMedian
    · rw [List.length_take]
      omega

theorem oldest_le {index : SparseHeaderIndex H} (hOrdered : index.Ordered) {oldest : HeaderAnchor H}
    (hOldest : index.oldest = some oldest) (hMem : anchor ∈ index.anchors) :
    oldest.height ≤ anchor.height := by
  unfold SparseHeaderIndex.oldest at hOldest
  unfold SparseHeaderIndex.Ordered at hOrdered
  cases hAnchors : index.anchors with
  | nil =>
    rw [hAnchors] at hMem
    cases hMem
  | cons first rest =>
    rw [hAnchors] at hOldest hMem hOrdered
    cases hOldest
    rcases List.mem_cons.mp hMem with rfl | hRest
    · exact le_rfl
    · have hPair := List.rel_of_pairwise_cons hOrdered hRest
      exact hPair.1.le

theorem restoreStart_eq_height {targetTime lookback height lookback' : UInt32}
    (hStart : view.restoreStartForTime targetTime lookback = .height height lookback') :
    view.times.conservativeHeightForTime targetTime lookback = .height height := by
  unfold restoreStartForTime at hStart
  split at hStart
  · rename_i found hLookup
    cases hStart
    exact hLookup
  · cases hStart
  · cases hStart
  · cases hStart

--- When A Start Is Never Late

theorem Indexed.neverLate_iff (hEmpty : base.times.anchors = []) {before : List UInt32}
    (hIndexed : Indexed base before.length seen view) (hMono : MedianNonDecreasing (before ++ seen))
    {targetTime lookback height : UInt32}
    (hStart : view.restoreStartForTime targetTime lookback = .height height lookback) :
    NeverLate (before ++ seen) targetTime height ↔
    CoversTies view (before ++ seen) targetTime lookback := by
  rcases SparseHeaderIndex.conservativeHeight_spec hIndexed.ordered (restoreStart_eq_height hStart)
    with ⟨oldest, chosen, hOldest, hChosen, hReached, hNewest, hHeight⟩
  rw [hIndexed.authenticatedAnchors hEmpty] at hOldest
  rw [hIndexed.authenticatedAnchors hEmpty] at hChosen hNewest
  have hOldestLe := oldest_le hIndexed.ordered hOldest hChosen
  rw [UInt32.le_iff_toNat_le] at hOldestLe
  rcases chainMedianTime_of_recordedFrom (hIndexed.recordedFrom hEmpty hChosen) with
    ⟨hInside, hChosenMedian⟩
  constructor
  · intro hNeverLate anchor hMem hTie block hBelow hShared
    have hAnchorInside := (chainMedianTime_of_recordedFrom (hIndexed.recordedFrom hEmpty hMem)).1
    have hEarly := hNeverLate block (by omega) targetTime hShared le_rfl
    have hAnchorLe := hNewest anchor hMem hTie.le
    rw [UInt32.le_iff_toNat_le] at hAnchorLe
    constructor
    · omega
    · intro other hOther
      rw [SparseHeaderIndex.oldest, hOldest] at hOther
      cases hOther
      omega
  · intro hCovers block hBlock median hMedian hTarget
    by_cases hBelow : block < chosen.height.toNat
    · have hMedianLe :=
        hMono chosen.height.toNat hInside block hBelow median hMedian chosen.medianTimePast
          hChosenMedian
      have hTie : chosen.medianTimePast = targetTime :=
        le_antisymm hReached (hTarget.trans hMedianLe)
      have hShared : median = targetTime := le_antisymm (hMedianLe.trans hReached) hTarget
      rw [hShared] at hMedian
      rcases hCovers chosen hChosen hTie block hBelow hMedian with ⟨hWithin, hAbove⟩
      have hOldestBelow := hAbove oldest hOldest
      omega
    · omega

variable [Hash32 H] [DecidableEq H]

/-
  Over a chain whose medians never fall, the start that a reached view answers with skips no block
  at or after the target exactly when `lookback` covers the blocks that tie with an anchor at the
  target.
-/
theorem restoreStart_neverLate_iff {network : Network} {verifier : ShvMmrHeaderVerifier H}
    {anchorInterval : UInt32} {batches : List (List BlockHeaderBytes)} {view : VerifiedHeaderView H}
    (hReached : ReachedBy network verifier anchorInterval batches view) {before : List UInt32}
    (hBefore : before.length = verifier.accumulator.leafCount)
    (hMono : MedianNonDecreasing (before ++ batches.flatten.map headerTimestamp))
    {targetTime lookback height : UInt32}
    (hStart : view.restoreStartForTime targetTime lookback = .height height lookback) :
    NeverLate (before ++ batches.flatten.map headerTimestamp) targetTime height ↔
    CoversTies view (before ++ batches.flatten.map headerTimestamp) targetTime lookback := by
  have hIndexed := hReached.indexed.1
  rw [← hBefore] at hIndexed
  exact hIndexed.neverLate_iff rfl hMono hStart

--- Blocks That Tie With An Anchor

/-
  Times, nonces and digests of fourteen mined headers.  The late third block holds the median at
  the last two blocks.
-/
def tiedHeaders : List (Nat × Nat × Nat) :=
  [(1, 0, 0x6303eed88fb1a47d75d9c540d451c87f2ecc68192763b9d91dccc6317f6ad2c0),
    (2, 1, 0x6c7887a26a532fe8de26bd369891426283199108a1fe18ff462e695ede20527e),
    (100, 2, 0x2038702eab0285bb47cda3ba9fecbecece07df36a2e4ee724b3b36d611856d3e),
    (3, 2, 0x2c34ae95bc9c8148804067b01287e42a1e0571cef5afe90d4c3138fc1f19010c),
    (4, 0, 0x7b3f96e9f53e055ccdbc4ad7d34a4373b2e820e1ad76d0d3c2949927503b12ac),
    (5, 1, 0x109343b781ea784be7793c47541dc004c00260a3d53e3e718f8a119371890781),
    (6, 5, 0x567858fd36d35c459a929e5e2387bd1ef15f9fcca31f65039c221dec0279a274),
    (7, 2, 0x5b93d4a948f624d80b0372d369b73ec6fc47d54d8b9f656f63c28f4c6409414e),
    (8, 0, 0x0b1534fb562431a5cd1e693369f22792c6eb0f6e7132f76f053938b9ae18c9fb),
    (9, 2, 0x0ae16b3215d010db10a5b425492657dae69a7b7ce80cb5ba2d4bd71132d2f549),
    (10, 0, 0x67d1b3c9cf1bc62c95432607a4cbfc748cb4b762fb5c1e58211a3ff996664645),
    (11, 2, 0x4696a545e5ddd0eced3ea8a858c3efddec5afd339c8852e9fabb01e4c5fd3702),
    (12, 1, 0x1b4a45e94707acaf1e0e6d286454c0eb0f3141d3849d03ce17b5a5887afdf13b),
    (13, 1, 0x1c51546f52193066f29659afa992ad5df86c890840a63216daf181fa502c6030)
  ]

abbrev TiedHash : Type := RecordedHash (tiedHeaders.map (fun (_, _, digest) => digest))

def tiedChain : List BlockHeaderBytes := regtestChain 0 0 tiedHeaders

theorem tiedChain_times :
    tiedChain.map headerTimestamp = [1, 2, 100, 3, 4, 5, 6, 7, 8, 9, 10, 11, 12, 13] := by
  decide +kernel

theorem tiedChain_medianNonDecreasing : MedianNonDecreasing (tiedChain.map headerTimestamp) := by
  rw [tiedChain_times]
  decide +kernel

/- An anchor on the first of the tied blocks covers them. -/
theorem restoreStart_neverLate_first_of_tie :
    ∃ view : VerifiedHeaderView TiedHash,
    view.restoreStartForTime 8 0 = .height 12 0 ∧
      NeverLate (tiedChain.map headerTimestamp) 8 12 := by
  have hRun :
      ∃ view : VerifiedHeaderView TiedHash,
      feedAll extend (withAnchorInterval .regtest (.empty .selfDerived) 12) [tiedChain] = .ok view ∧
        view.restoreStartForTime 8 0 = .height 12 0 ∧
        CoversTies view (tiedChain.map headerTimestamp) 8 0 := by
    rw [tiedChain_times]
    exact exists_ok_of_check (by decide +kernel)
  rcases hRun with ⟨view, hReached, hStart, hCovers⟩
  have hIff :=
    @restoreStart_neverLate_iff TiedHash _ _ .regtest (.empty .selfDerived) 12 [tiedChain] view
      hReached [] rfl tiedChain_medianNonDecreasing 8 0 12 hStart
  exact ⟨view, hStart, hIff.mpr hCovers⟩

/-
  An anchor on the second one makes the start late: the block before it has the target as its
  median already.
-/
theorem restoreStart_late_on_tie :
    ∃ view : VerifiedHeaderView TiedHash,
    ReachedBy .regtest (.empty .selfDerived) 13 [tiedChain] view ∧
      ObeysMedianRule [] (tiedChain.map headerTimestamp) ∧
      MedianNonDecreasing (tiedChain.map headerTimestamp) ∧
      view.restoreStartForTime 8 0 = .height 13 0 ∧
      chainMedianTime (tiedChain.map headerTimestamp) 12 = some 8 := by
  have hRun :
      ∃ view : VerifiedHeaderView TiedHash,
      feedAll extend (withAnchorInterval .regtest (.empty .selfDerived) 13) [tiedChain] = .ok view ∧
        view.restoreStartForTime 8 0 = .height 13 0 :=
    exists_ok_of_check (by decide +kernel)
  rcases hRun with ⟨view, hReached, hStart⟩
  refine ⟨view, hReached, ?_, tiedChain_medianNonDecreasing, hStart, ?_⟩
  · rw [tiedChain_times]
    decide +kernel
  · rw [tiedChain_times]
    decide +kernel

end VerifiedHeaderView

end OptnWallet
