import OptnWallet.Runtime.HeaderVerifier.Resume
import OptnWallet.Runtime.HeaderView.RestoreStart

/-
  What an accepted record leaves in a restored view.

  The checkpoint of a record is bound to a trusted identity; its anchors are only checked against
  one another.  A view restored from any accepted record is usable exactly as far as those anchors
  fit below the trusted tip and below the medians of the blocks that follow.

  Main declarations:
    * `VerifiedHeaderView.restore_eq_ok`
    * `VerifiedHeaderView.UsableFor`
    * `VerifiedHeaderView.restored_usable_iff`
-/

--- Accepted Records

namespace OptnWallet

open StagedUpdate

variable {H : Type} [Hash32 H] [DecidableEq H]

/- A rebuilt verifier stands at the trusted height. -/
theorem ShvMmrHeaderVerifier.tip_of_fromCheckpointJson {codec : SerdeJson (StoredCheckpoint H)}
    {json : String} {network : Network} {trusted : HeaderCheckpoint H}
    {verifier : ShvMmrHeaderVerifier H}
    (hRebuilt : fromCheckpointJson codec json network trusted = .ok verifier) :
    verifier.accumulator.leafCount = trusted.height.toNat + 1 ∧ verifier.lastHash.isSome := by
  unfold fromCheckpointJson at hRebuilt
  split at hRebuilt
  · cases hRebuilt
  · split at hRebuilt
    · cases hRebuilt
    · split at hRebuilt
      · cases hRebuilt
      · split at hRebuilt
        · cases hRebuilt
        · split at hRebuilt
          · cases hRebuilt
          · rename_i record hRead hShape hNetwork hTrusted
            split at hRebuilt
            · cases hRebuilt
            · rcases fromCheckpointProof_eq_ok_iff.mp hRebuilt with ⟨-, accumulator, hBoot, -, rfl⟩
              have hHeight : record.height = trusted.height := by
                by_contra hOther
                exact hTrusted (Or.inl hOther)
              rw [hHeight] at hBoot
              exact ⟨(MmrAccumulator.shape_of_bootstrap hBoot).1, rfl⟩

namespace VerifiedHeaderView

omit [Hash32 H] [DecidableEq H] in
/- Replayed anchors are appended in order, as they are. -/
theorem replayAnchors_eq_ok {times times' : SparseHeaderIndex H}
    {anchors : List (PersistedAnchor H)} (hOrdered : times.Ordered)
    (hReplay : replayAnchors times anchors = .ok times') :
    times'.Ordered ∧ times'.anchors = times.anchors ++ anchors.map provisional := by
  induction anchors generalizing times with
  | nil =>
    cases hReplay
    exact ⟨hOrdered, (List.append_nil _).symm⟩
  | cons anchor anchors ih =>
    unfold replayAnchors at hReplay
    rcases hInsert : times.insert (provisional anchor) with ⟨result, next⟩
    rw [hInsert] at hReplay
    cases result with
    | error e => cases hReplay
    | ok done =>
      rcases SparseHeaderIndex.insert_eq_ok_iff.mp hInsert with ⟨rfl, hAbove⟩
      rcases ih (hOrdered.push hAbove) hReplay with ⟨hLater, hAnchors⟩
      refine ⟨hLater, ?_⟩
      rw [hAnchors, List.map_cons]
      unfold SparseHeaderIndex.push
      rw [List.append_assoc, List.singleton_append]

/- The view that an accepted record is restored to. -/
structure RestoredFrom (record : PersistedHeaderView H) (trusted : HeaderCheckpoint H)
    (view : VerifiedHeaderView H) : Prop where
  leafCount : view.verifier.accumulator.leafCount = trusted.height.toNat + 1
  lastHash : view.verifier.lastHash.isSome
  ordered : view.times.Ordered
  anchors : view.times.anchors = record.anchors.map provisional
  window : view.window = []
  interval : view.anchorInterval = max record.anchorInterval 1

variable {trusted : HeaderCheckpoint H} {record : PersistedHeaderView H}
variable {view : VerifiedHeaderView H}

theorem restore_eq_ok {checkpointCodec : SerdeJson (StoredCheckpoint H)}
    {viewCodec : SerdeJson (PersistedHeaderView H)} {json : String} {network : Network}
    (hRead : viewCodec.fromStr json = some record)
    (hRestored : restore checkpointCodec viewCodec json network trusted = .ok view) :
    RestoredFrom record trusted view := by
  unfold restore at hRestored
  split at hRestored
  · cases hRestored
  · rw [hRead] at hRestored
    dsimp only at hRestored
    split at hRestored
    · cases hRestored
    · split at hRestored
      · cases hRestored
      · split at hRestored
        · cases hRestored
        · rename_i verifier hRebuilt
          split at hRestored
          · cases hRestored
          · rename_i times hReplay
            cases hRestored
            have hTip := ShvMmrHeaderVerifier.tip_of_fromCheckpointJson hRebuilt
            have hTimes := replayAnchors_eq_ok SparseHeaderIndex.ordered_new hReplay
            exact ⟨hTip.1, hTip.2, hTimes.1, hTimes.2, rfl, rfl⟩

omit [DecidableEq H] in
theorem RestoredFrom.tip (hRestored : RestoredFrom record trusted view) :
    ∃ hash, view.tip = some (trusted.height, hash) := by
  rcases Option.isSome_iff_exists.mp hRestored.lastHash with ⟨hash, hHash⟩
  have hState :=
    ShvMmrHeaderVerifier.state_of_tipHeight
      (ShvMmrHeaderVerifier.tipHeight_of_leafCount hRestored.leafCount)
  refine ⟨hash, ?_⟩
  unfold VerifiedHeaderView.tip
  rw [hState, hHash]

--- Usable Views

/-
  A view at `tip` that can be used: its anchors and the locators it hands out stay at or below the
  tip, and its index does not refuse the headers.
-/
structure UsableFor (view : VerifiedHeaderView H) (tip : UInt32) (headers : List BlockHeaderBytes) :
    Prop where
  anchors : ∀ anchor ∈ view.times.anchors, anchor.height ≤ tip
  accepts : ∀ e view', view.extend headers ≠ (.error (.returned (.timeIndex e)), view')
  locator :
    ∀ height,
    ∀ hash ∈ view.getheadersLocator height,
      ∃ anchor ∈ view.times.anchors, anchor.blockHash = hash ∧ anchor.height ≤ tip

/-
  The newest stored anchor is at or below every median that the headers behind the tip are indexed
  under.
-/
def MediansFit (record : PersistedHeaderView H) (tip : UInt32) (headers : List BlockHeaderBytes) :
    Prop :=
  ∀ last ∈ record.anchors.getLast?,
    ∀ front header back,
      headers = front ++ header :: back →
        ∀ due ∈
            dueAnchor (max record.anchorInterval 1)
              (lastSpan (front.map headerTimestamp ++ [headerTimestamp header]))
              (tip.toNat + 1 + front.length)
              (headerLeaf (H := H) header),
          last.medianTimePast ≤ due.medianTimePast

section

variable (hRestored : RestoredFrom record trusted view)
include hRestored

omit [Hash32 H] [DecidableEq H] in
/- The newest stored anchor is the newest restored one. -/
theorem RestoredFrom.newest : view.times.newest = record.anchors.getLast?.map provisional := by
  unfold SparseHeaderIndex.newest
  rw [hRestored.anchors, List.getLast?_map]

omit [DecidableEq H] in
theorem RestoredFrom.mediansFit_iff (headers : List BlockHeaderBytes) :
    MediansFit record trusted.height headers ↔
    ∀ last,
      view.times.newest = some last →
        ForEachDue view (trusted.height.toNat + 1) [] headers
          (fun due => last.medianTimePast ≤ due.medianTimePast) := by
  unfold MediansFit ForEachDue nextDue
  rw [hRestored.newest, hRestored.interval]
  simp only [List.nil_append, List.length_map]
  cases record.anchors.getLast? with
  | none => simp
  | some last => simp [provisional]

omit [Hash32 H] [DecidableEq H] in
/-
  What the index has become once the headers behind the tip are recorded is described from the
  restored view itself.
-/
theorem RestoredFrom.indexed (verifier : ShvMmrHeaderVerifier H) :
    Indexed view (trusted.height.toNat + 1) [] (view.setVerifier verifier) := by
  apply Indexed.setVerifier
  exact indexed_self hRestored.window hRestored.ordered _

omit [DecidableEq H] in
/- Anchors below the tip precede all that is due above it. -/
theorem RestoredFrom.precedes {headers : List BlockHeaderBytes}
    (hHeights : ∀ anchor ∈ view.times.anchors, anchor.height ≤ trusted.height)
    (hMedians : MediansFit record trusted.height headers) :
    ∀ anchor ∈ view.times.anchors,
    ForEachDue view (trusted.height.toNat + 1) [] headers anchor.Precedes := by
  intro anchor hMem front header back hSplit due hDue
  have hNonempty : view.times.anchors ≠ [] := List.ne_nil_of_mem hMem
  have hNewest : view.times.newest = some (view.times.anchors.getLast hNonempty) :=
    List.getLast?_eq_some_getLast hNonempty
  constructor
  · have hLe := UInt32.le_iff_toNat_le.mp (hHeights anchor hMem)
    have hAbove := (dueAnchor_eq_some hDue).2.1
    rw [UInt32.lt_iff_toNat_lt, hAbove]
    omega
  · have hLast :=
      (hRestored.mediansFit_iff headers).mp hMedians _ hNewest front header back hSplit due hDue
    rcases SparseHeaderIndex.precedes_of_newest hRestored.ordered hNewest hMem with rfl | hBefore
    · exact hLast
    · exact hBefore.2.trans hLast

end

/-
  A view restored from an accepted record stands at the trusted height.  For headers that its
  verifier accepts and that obey the median-time rule it is usable exactly when the stored anchors
  fit below the tip and those headers.
-/
theorem restored_usable_iff {checkpointCodec : SerdeJson (StoredCheckpoint H)}
    {viewCodec : SerdeJson (PersistedHeaderView H)} {json : String} {network : Network}
    {trusted : HeaderCheckpoint H} {record : PersistedHeaderView H} {view : VerifiedHeaderView H}
    (hRead : viewCodec.fromStr json = some record)
    (hRestored : restore checkpointCodec viewCodec json network trusted = .ok view)
    {before : List UInt32} {headers : List BlockHeaderBytes}
    (hVerified : (view.verifier.extend headers).1 = .ok ())
    (hRule : ObeysMedianRule before (headers.map headerTimestamp)) :
    (∃ hash, view.tip = some (trusted.height, hash)) ∧
    (UsableFor view trusted.height headers ↔
      (∀ anchor ∈ record.anchors, anchor.height ≤ trusted.height) ∧
        MediansFit record trusted.height headers) := by
  have hView := restore_eq_ok hRead hRestored
  have hHeights :
      (∀ anchor ∈ view.times.anchors, anchor.height ≤ trusted.height) ↔
      ∀ anchor ∈ record.anchors, anchor.height ≤ trusted.height := by
    rw [hView.anchors]
    exact List.forall_mem_map
  have hWord := trusted.height.toNat_lt
  rcases hExtended : view.verifier.extend headers with ⟨result, verifier⟩
  rw [hExtended] at hVerified
  dsimp only at hVerified
  subst hVerified
  have hIndexed := hView.indexed verifier
  refine ⟨hView.tip, ?_⟩
  constructor
  · intro hUsable
    refine ⟨hHeights.mp hUsable.anchors, ?_⟩
    by_cases hEmpty : headers = []
    · intro last hLast front header back hSplit
      rw [hEmpty] at hSplit
      simp at hSplit
    · rw [hView.mediansFit_iff]
      cases hRecord : (view.setVerifier verifier).recordAnchors (trusted.height.toNat + 1)
        headers with
      | ok view' =>
        intro last hLast
        exact (hIndexed.recordAnchors hRecord).2 last hLast
      | error e =>
        rcases recordAnchors_eq_error hRecord with ⟨indexError, rfl⟩
        rw [← hView.leafCount] at hRecord
        have hRefused :=
          extend_of_record_error hEmpty (by rw [hView.leafCount]; omega) hExtended hRecord
        exact absurd hRefused (hUsable.accepts _ _)
  · rintro ⟨hBelow, hMedians⟩
    have hAnchors := hHeights.mpr hBelow
    constructor
    · exact hAnchors
    · intro e view' hError
      rcases extend_eq_timeIndex hError with ⟨verifier', hFold, hRecord⟩
      rcases (hView.indexed verifier').recordAnchors_isOk hRule (hView.precedes hAnchors hMedians)
        with ⟨next, hOk⟩
      rw [hView.leafCount] at hRecord
      rw [List.length_nil, Nat.add_zero, hRecord] at hOk
      cases hOk
    · intro height hash hMem
      rcases SparseHeaderIndex.mem_locator hView.ordered hMem with ⟨anchor, hAnchor, -, hHash⟩
      exact ⟨anchor, hAnchor, hHash, hAnchors anchor hAnchor⟩

--- An Edited Record

/-
  The stored checkpoint of the first header of `tiedChain`, with its quotation marks as they are
  written in place.
-/
def storedTip (quote : String) : String :=
  quote.intercalate
    [
      "\x7b", "schema", ":1,", "network", ":", "regtest", ",",
      "height", ":0,", "commitment",
      ":[192,210,106,127,49,198,204,29,217,185,99,39,25," ++
      "104,204,46,127,200,81,212,64,197,217,117,125,164," ++
      "177,143,216,238,3,99],",
      "header",
      ":[1,0,0,0,0,0,0,0,0,0,0,0,0,0,0,0,0,0,0,0,0,0,0,0,0," ++
      "0,0,0,0,0,0,0,0,0,0,0,0,0,0,0,0,0,0,0,0,0,0,0,0,0,0," ++
      "0,0,0,0,0,0,0,0,0,0,0,0,0,0,0,0,0,1,0,0,0,255,255," ++
      "127,32,0,0,0,0],",
      "proof", ":[]\x7d"
    ]

/- A stored view with one anchor, on the first header. -/
def storedView (height : String) : String :=
  "\x7b\"schema\":2,\"network\":\"regtest\"," ++
  "\"checkpoint\":\"" ++ storedTip "\\\"" ++ "\"," ++
  "\"anchors\":[\x7b\"height\":" ++ height ++ "," ++
  "\"block_hash\":[192,210,106,127,49,198,204,29,217,185," ++
  "99,39,25,104,204,46,127,200,81,212,64,197,217,117,125," ++
  "164,177,143,216,238,3,99],\"median_time_past\":0\x7d]," ++
  "\"window\":[],\"anchor_interval\":1\x7d"

def tiedTip : TiedHash := .digest 0x6303eed88fb1a47d75d9c540d451c87f2ecc68192763b9d91dccc6317f6ad2c0

def tiedCheckpoint : HeaderCheckpoint TiedHash :=
  { height := 0, commitment := tiedTip, provenance := .selfDerived }

def storedTipCodec : SerdeJson (StoredCheckpoint TiedHash) :=
  .single
    { schema := 1
      network := "regtest"
      height := 0
      commitment := tiedTip
      header := (regtestHeader 0 0 1 0).bytes.toList
      proof := [] }
    (storedTip "\"")

/- The record with its anchor at the given height. -/
def storedViewRecord (height : UInt32) : PersistedHeaderView TiedHash :=
  { schema := 2
    network := "regtest"
    checkpoint := storedTip "\""
    anchors := [{ height, blockHash := tiedTip, medianTimePast := 0 }]
    window := []
    anchorInterval := 1 }

theorem tiedChain_obeysMedianRule :
    ObeysMedianRule [1] ((tiedChain.drop 1).map headerTimestamp) := by
  rw [List.map_drop, tiedChain_times]
  decide +kernel

/- An anchor at the tip is as good as none. -/
theorem restored_usable_with_anchor_at_tip :
    ∃ view : VerifiedHeaderView TiedHash,
    restore storedTipCodec (.single (storedViewRecord 0) (storedView "0")) (storedView "0") .regtest
          tiedCheckpoint = .ok view ∧
      UsableFor view 0 (tiedChain.drop 1) := by
  have hRun :
      ∃ view : VerifiedHeaderView TiedHash,
      restore storedTipCodec (.single (storedViewRecord 0) (storedView "0")) (storedView "0")
            .regtest tiedCheckpoint = .ok view ∧
        (view.verifier.extend (tiedChain.drop 1)).1 = .ok () :=
    exists_ok_of_check (by decide +kernel)
  rcases hRun with ⟨view, hRestored, hVerified⟩
  have hRead := SerdeJson.single_fromStr (storedViewRecord 0) (storedView "0")
  have hFits :
      (∀ anchor ∈ (storedViewRecord 0).anchors, anchor.height ≤ tiedCheckpoint.height) ∧
      MediansFit (storedViewRecord 0) tiedCheckpoint.height (tiedChain.drop 1) := by
    constructor
    · intro anchor hMem
      rw [List.mem_singleton.mp hMem]
      exact le_rfl
    · intro last hLast front header back hSplit due hDue
      cases hLast
      exact UInt32.zero_le
  exact ⟨view, hRestored,
    (restored_usable_iff hRead hRestored hVerified tiedChain_obeysMedianRule).2.mpr hFits⟩

/-
  An anchor of an accepted record can lie above the tip.  The locator then names it, and blocks
  that the verifier accepts and that obey the median-time rule are refused.
-/
theorem restored_view_refuses_next_blocks :
    ∃ view : VerifiedHeaderView TiedHash,
    restore storedTipCodec (.single (storedViewRecord 100) (storedView "100")) (storedView "100")
          .regtest tiedCheckpoint = .ok view ∧
      view.tip = some (0, tiedTip) ∧
      view.times.newest.map HeaderAnchor.height = some 100 ∧
      view.getheadersLocator 100 = [tiedTip] ∧
      (view.verifier.extend (tiedChain.drop 1)).1 = .ok () ∧
      ObeysMedianRule [1] ((tiedChain.drop 1).map headerTimestamp) ∧
      (view.extend (tiedChain.drop 1)).1 =
        .error (.returned (.timeIndex (.heightWentBackwards 100 11))) := by
  have hRun :
      ∃ view : VerifiedHeaderView TiedHash,
      restore storedTipCodec (.single (storedViewRecord 100) (storedView "100")) (storedView "100")
            .regtest tiedCheckpoint = .ok view ∧
        view.tip = some (0, tiedTip) ∧
        view.times.newest.map HeaderAnchor.height = some 100 ∧
        view.getheadersLocator 100 = [tiedTip] ∧
        (view.verifier.extend (tiedChain.drop 1)).1 = .ok () ∧
        (view.extend (tiedChain.drop 1)).1 =
          .error (.returned (.timeIndex (.heightWentBackwards 100 11))) :=
    exists_ok_of_check (by decide +kernel)
  rcases hRun with ⟨view, hRestored, hTip, hNewest, hLocator, hVerified, hRefused⟩
  exact ⟨view, hRestored, hTip, hNewest, hLocator, hVerified, tiedChain_obeysMedianRule, hRefused⟩

end VerifiedHeaderView

end OptnWallet
