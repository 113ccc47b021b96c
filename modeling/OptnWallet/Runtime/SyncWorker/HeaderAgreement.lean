import OptnWallet.Runtime.HeaderView.Batches
import OptnWallet.Runtime.SyncWorker.Headers

/-
  The verified view and the dense store advance together.

  Only the first link of a batch could fail in the store, since the view has proved the others;
  and the first one joins the store where its tip is the tip of the view.

  Main declarations:
    * `ProgressiveSyncWorker.Together`
    * `ProgressiveSyncWorker.PublishesAll`
    * `ProgressiveSyncWorker.passes_keep_together`
-/

--- Linked Batches

namespace OptnWallet

open StagedUpdate

variable {H : Type} [DecidableEq H] [Hash32 H]

/- Each header names the one before it, the first one the given hash if there is any. -/
def LinksFrom : Option H → List BlockHeaderBytes → Prop
  | _, [] => True
  | previous, header :: headers =>
    (∀ hash, previous = some hash → RetainedHeaders.prevHash header = hash) ∧
      LinksFrom (some (headerLeaf header)) headers

omit [DecidableEq H] in
theorem LinksFrom.weaken {previous previous' : Option H} {headers : List BlockHeaderBytes}
    (hLinks : LinksFrom previous headers)
    (hWeaker : ∀ hash, previous' = some hash → previous = some hash) :
    LinksFrom previous' headers := by
  cases headers with
  | nil => trivial
  | cons header headers =>
    rcases hLinks with ⟨hFirst, hRest⟩
    exact ⟨fun hash hHash => hFirst hash (hWeaker hash hHash), hRest⟩

namespace ShvMmrHeaderVerifier

variable {candidate : ShvMmrHeaderVerifier H} {header : BlockHeaderBytes}

theorem judge_links {parsed : ParsedHeader H} (hJudge : candidate.judge header = .ok parsed)
    {hash : H} (hLast : candidate.lastHash = some hash) :
    RetainedHeaders.prevHash header = hash := by
  have hParsed := (judge_eq_ok hJudge).2.1
  unfold judge at hJudge
  rw [hLast] at hJudge
  dsimp only at hJudge
  split at hJudge
  · cases hJudge
  · rename_i height hTip
    rw [mapError_eq_ok_iff] at hJudge
    have hPrev := (verifyHeaderExtension_eq_ok hJudge).2
    rw [hParsed] at hPrev
    exact hPrev

theorem extendOne_links {next : ShvMmrHeaderVerifier H}
    (hStep : candidate.extendOne header = .ok next) {hash : H}
    (hLast : candidate.lastHash = some hash) : RetainedHeaders.prevHash header = hash := by
  unfold extendOne at hStep
  split at hStep
  · cases hStep
  · rename_i parsed hJudge
    exact judge_links hJudge hLast

theorem lastHash_extendOne {next : ShvMmrHeaderVerifier H}
    (hStep : candidate.extendOne header = .ok next) : next.lastHash = some (headerLeaf header) := by
  rw [(extendOne_eq_ok hStep).rest]

/- By induction over the accepted headers. -/
theorem linksFrom_of_foldlM {verifier verifier' : ShvMmrHeaderVerifier H}
    {headers : List BlockHeaderBytes} (hFold : headers.foldlM extendOne verifier = .ok verifier') :
    LinksFrom verifier.lastHash headers := by
  induction headers generalizing verifier with
  | nil => trivial
  | cons header headers ih =>
    rw [List.foldlM_cons] at hFold
    rcases bind_eq_ok_iff.mp hFold with ⟨next, hStep, hRest⟩
    have hLinks := ih hRest
    rw [lastHash_extendOne hStep] at hLinks
    exact ⟨fun hash => extendOne_links hStep, hLinks⟩

end ShvMmrHeaderVerifier

--- Extended Views

namespace VerifiedHeaderView

omit [DecidableEq H] in
theorem tip_eq_some_iff {view : VerifiedHeaderView H} {height : UInt32} {hash : H} :
    view.tip = some (height, hash) ↔
    view.verifier.tipHeight = .ok height ∧ view.verifier.lastHash = some hash := by
  unfold tip ShvMmrHeaderVerifier.state
  cases view.verifier.tipHeight with
  | error e => simp
  | ok tipHeight =>
    cases view.verifier.lastHash with
    | none => simp
    | some lastHash => simp

/- What an accepted batch says of the views around it. -/
structure Extends (view : VerifiedHeaderView H) (batch : List BlockHeaderBytes)
    (view' : VerifiedHeaderView H) : Prop where
  links : LinksFrom view.verifier.lastHash batch
  leafCount :
    view'.verifier.accumulator.leafCount = view.verifier.accumulator.leafCount + batch.length
  lastHash : view'.verifier.lastHash = batch.getLast?.map headerLeaf

theorem extends_of_extend {view view' : VerifiedHeaderView H} {batch : List BlockHeaderBytes}
    (hNonempty : batch ≠ []) (hExtend : view.extend batch = (.ok (), view')) :
    Extends view batch view' := by
  rcases (extend_eq_ok_iff hNonempty).mp hExtend with ⟨-, verifier, hFold, hRecord⟩
  have hVerifier : view'.verifier = verifier := verifier_of_recordAnchors hRecord
  have hRun := ShvMmrHeaderVerifier.run_of_foldlM hFold
  have hSplit := List.dropLast_append_getLast hNonempty
  rcases hRun.last _ _ hSplit.symm with ⟨-, -, -, hLast, -⟩
  rw [← hVerifier] at hRun hLast
  constructor
  · exact ShvMmrHeaderVerifier.linksFrom_of_foldlM hFold
  · exact hRun.leafCount
  · rw [hLast, List.getLast?_eq_some_getLast hNonempty]
    rfl

end VerifiedHeaderView

--- Inserted Batches

namespace RetainedHeaders

/- The header of a batch that has a height. -/
def batchAt (start : UInt32) (batch : List BlockHeaderBytes) (height : UInt32) :
    Option BlockHeaderBytes :=
  if start ≤ height then batch[height.toNat - start.toNat]?
  else none

/- The batch is in the second store, at consecutive heights, and everything else is as in the first
   one. -/
structure Holds (headers : RetainedHeaders H) (start : UInt32) (batch : List BlockHeaderBytes)
    (headers' : RetainedHeaders H) : Prop where
  entries :
    ∀ height,
      headers'.byHeight.get? height =
        match batchAt start batch height with
        | some header => some (verifiedEntry header)
        | none => headers.byHeight.get? height
  generation : headers'.generation = headers.generation

variable {headers : RetainedHeaders H} {height : UInt32}

omit [DecidableEq H] [Hash32 H] in
theorem tip_eq_some_iff {hash : H} :
    headers.tip = some (height, hash) ↔
    headers.hashAt height = some hash ∧
      ∀ other found, headers.byHeight.get? other = some found → other ≤ height := by
  unfold tip hashAt
  rw [Option.map_eq_some_iff, Option.map_eq_some_iff]
  constructor
  · rintro ⟨⟨key, entry⟩, hLast, hTip⟩
    cases hTip
    rcases BTreeMap.getLast?_eq_some_iff.mp hLast with ⟨hEntry, hGreatest⟩
    exact ⟨⟨entry, hEntry, rfl⟩, hGreatest⟩
  · rintro ⟨⟨entry, hEntry, rfl⟩, hGreatest⟩
    refine ⟨(height, entry), ?_, rfl⟩
    exact BTreeMap.getLast?_eq_some_iff.mpr ⟨hEntry, hGreatest⟩

omit [DecidableEq H] [Hash32 H] in
theorem get?_of_tip_eq_none (hTip : headers.tip = none) (height : UInt32) :
    headers.byHeight.get? height = none := by
  unfold tip at hTip
  rw [Option.map_eq_none_iff, List.getLast?_eq_none_iff] at hTip
  unfold BTreeMap.get?
  rw [hTip]
  rfl

omit [DecidableEq H] [Hash32 H] in
theorem toNat_succ {word : UInt32} (hRoom : word.toNat + 1 < 2 ^ 32) :
    (word + 1).toNat = word.toNat + 1 := by
  rw [UInt32.toNat_add]
  exact Nat.mod_eq_of_lt hRoom

omit [DecidableEq H] [Hash32 H] in
theorem stage_cons (start : UInt32) (header : BlockHeaderBytes) (batch : List BlockHeaderBytes) :
    ProgressiveSyncWorker.stage start (header :: batch) =
      (start, header) :: ProgressiveSyncWorker.stage (start + 1) batch := by
  unfold ProgressiveSyncWorker.stage
  rw [List.mapIdx_cons]
  congr 1
  · simp
  · congr 1
    funext offset header
    rw [UInt32.ofNat_add, UInt32.add_assoc, UInt32.add_comm 1]
    rfl

variable {header : BlockHeaderBytes} {batch : List BlockHeaderBytes}

theorem linksTo_of_linksFrom
    (hLinks : LinksFrom ((Word32.checkedSub height 1).bind headers.hashAt) (header :: batch)) :
    headers.linksTo height header = true := by
  unfold linksTo
  split
  · rename_i previous hPrevious
    apply decide_eq_true
    apply hLinks.1
    rcases Option.bind_eq_some_iff.mp hPrevious with ⟨before, hBefore, hEntry⟩
    rw [hBefore, Option.bind_some]
    exact Option.map_eq_some_iff.mpr ⟨previous, hEntry, rfl⟩
  · rfl

variable {start : UInt32}

omit [DecidableEq H] in
theorem batchAt_cons (hFits : start.toNat + (header :: batch).length ≤ 2 ^ 32) (height : UInt32) :
    batchAt start (header :: batch) height =
      if height = start then some header
      else batchAt (start + 1) batch height := by
  unfold batchAt
  rw [List.length_cons] at hFits
  by_cases hSame : height = start
  · simp [hSame]
  · have hNe : height.toNat ≠ start.toNat := by
      intro hEq
      exact hSame (UInt32.toNat_inj.mp hEq)
    rw [if_neg hSame]
    cases batch with
    | nil =>
      simp only [List.getElem?_nil, ite_self]
      split
      · rename_i hLe
        rw [UInt32.le_iff_toNat_le] at hLe
        apply List.getElem?_eq_none
        rw [List.length_singleton]
        omega
      · rfl
    | cons next batch =>
      rw [List.length_cons] at hFits
      have hNext : (start + 1).toNat = start.toNat + 1 := toNat_succ (by omega)
      simp only [UInt32.le_iff_toNat_le, hNext]
      by_cases hLe : start.toNat + 1 ≤ height.toNat
      · have hSucc : height.toNat - start.toNat = (height.toNat - (start.toNat + 1)) + 1 := by omega
        rw [if_pos hLe, if_pos (by omega), hSucc, List.getElem?_cons_succ]
      · rw [if_neg hLe, if_neg (by omega)]

/- What a retained header leaves to its batch. -/
theorem links_insertEntry (headers : RetainedHeaders H)
    (hFits : start.toNat + (header :: batch).length ≤ 2 ^ 32)
    (hLinks : LinksFrom (some (headerLeaf (H := H) header)) batch) :
    LinksFrom
      ((Word32.checkedSub (start + 1) 1).bind
        (headers.insertEntry start (verifiedEntry header)).hashAt) batch := by
  cases batch with
  | nil => trivial
  | cons next batch =>
    rw [List.length_cons, List.length_cons] at hFits
    have hBefore : Word32.checkedSub (start + 1) 1 = some start :=
      Word32.checkedSub_one_eq_some_iff.mpr (toNat_succ (by omega))
    have hHere :
        (headers.insertEntry start (verifiedEntry header)).hashAt start =
          some (headerLeaf header) := by
      unfold hashAt
      rw [get?_insertEntry, if_pos rfl]
      rfl
    rw [hBefore, Option.bind_some, hHere]
    exact hLinks

section

variable (hFits : start.toNat + batch.length ≤ 2 ^ 32)
variable (hLinks : LinksFrom ((Word32.checkedSub start 1).bind headers.hashAt) batch)
include hFits hLinks

/- By induction over the batch: each header is retained when the next one is checked against it. -/
theorem insertStaged_of_linksFrom :
    ∃ headers',
    headers.insertStaged (ProgressiveSyncWorker.stage start batch) = (.ok (), headers') ∧
      headers.Holds start batch headers' := by
  induction batch generalizing start headers with
  | nil =>
    refine ⟨headers, rfl, ?_, rfl⟩
    intro height
    simp [batchAt]
  | cons header batch ih =>
    have hInsert :
        headers.insertVerified start header =
          .ok (headers.insertEntry start (verifiedEntry header)) :=
      if_pos (linksTo_of_linksFrom hLinks)
    have hRest := links_insertEntry headers hFits hLinks.2
    rw [stage_cons]
    unfold insertStaged
    rw [hInsert]
    dsimp only
    cases batch with
    | nil =>
      refine ⟨_, rfl, ?_, rfl⟩
      intro height
      rw [get?_insertEntry, batchAt_cons hFits]
      by_cases hSame : height = start
      · simp [hSame]
      · simp [hSame, batchAt]
    | cons next batch =>
      have hNext : (start + 1).toNat + (next :: batch).length ≤ 2 ^ 32 := by
        rw [List.length_cons, List.length_cons] at hFits
        rw [toNat_succ (by omega), List.length_cons]
        omega
      rcases ih hNext hRest with ⟨headers', hStaged, hHolds⟩
      refine ⟨headers', hStaged, ?_, hHolds.generation⟩
      intro height
      rw [hHolds.entries, get?_insertEntry, batchAt_cons hFits]
      by_cases hSame : height = start
      · subst hSame
        have hNot : ¬ height + 1 ≤ height := by
          rw [List.length_cons, List.length_cons] at hFits
          rw [UInt32.le_iff_toNat_le, toNat_succ (by omega)]
          omega
        simp [batchAt, hNot]
      · simp only [if_neg hSame]

/- The join that is checked first is one of the links. -/
theorem publish_of_linksFrom :
    ∃ headers',
    headers.publish (ProgressiveSyncWorker.stage start batch) = (.ok (), headers') ∧
      headers.Holds start batch headers' := by
  rcases insertStaged_of_linksFrom hFits hLinks with ⟨headers', hStaged, hHolds⟩
  refine ⟨headers', ?_, hHolds⟩
  cases batch with
  | nil => exact hStaged
  | cons header batch =>
    rw [stage_cons] at hStaged ⊢
    unfold publish
    rw [List.head?_cons]
    dsimp only
    cases hParent : (Word32.checkedSub start 1).bind headers.hashAt with
    | none => exact hStaged
    | some parent =>
      have hJoins := hLinks.1 parent hParent
      exact (if_neg (not_not_intro hJoins)).trans hStaged

end

/- The last header of a batch above the tip is the new tip. -/
omit [DecidableEq H] in
theorem Holds.tip {headers' : RetainedHeaders H} {last : BlockHeaderBytes}
    (hHolds : headers.Holds start batch headers')
    (hBelow : ∀ height entry, headers.byHeight.get? height = some entry → height < start)
    (hLast : batch.getLast? = some last) (hHeight : height.toNat + 1 = start.toNat + batch.length) :
    headers'.tip = some (height, headerLeaf last) := by
  have hPos : batch ≠ [] := by
    intro hEmpty
    rw [hEmpty] at hLast
    cases hLast
  have hLength := List.length_pos_of_ne_nil hPos
  have hStart : start ≤ height := by
    rw [UInt32.le_iff_toNat_le]
    omega
  have hHere : batchAt start batch height = some last := by
    unfold batchAt
    rw [if_pos hStart, ← hLast, List.getLast?_eq_getElem?]
    congr 1
    omega
  rw [tip_eq_some_iff]
  constructor
  · unfold hashAt
    rw [hHolds.entries, hHere]
    rfl
  · intro other found hFound
    rw [hHolds.entries] at hFound
    rw [UInt32.le_iff_toNat_le]
    cases hOther : batchAt start batch other with
    | none =>
      rw [hOther] at hFound
      have hLt := hBelow other found hFound
      rw [UInt32.lt_iff_toNat_lt] at hLt
      omega
    | some header =>
      unfold batchAt at hOther
      split at hOther
      · rename_i hLe
        rcases List.getElem?_eq_some_iff.mp hOther with ⟨hIndex, -⟩
        rw [UInt32.le_iff_toNat_le] at hLe
        omega
      · cases hOther

end RetainedHeaders

--- One Batch

namespace ProgressiveSyncWorker

/- The store is empty, or its tip is the tip of the view. -/
def Together (worker : ProgressiveSyncWorker H) : Prop :=
  ∀ headers,
    worker.accepted = some headers →
      headers.tip = none ∨ headers.tip = worker.headerView.bind (·.tip)

/-
  A batch in both: the view accepted it, and each store that the worker has holds it from the
  height after the view's tip on.
-/
structure Publishes (worker : ProgressiveSyncWorker H) (start : UInt32)
    (batch : List BlockHeaderBytes) (worker' : ProgressiveSyncWorker H) : Prop where
  nonempty : batch ≠ []
  view :
    ∃ view view',
    worker.headerView = some view ∧ view.verifier.accumulator.leafCount = start.toNat ∧
      view.extend batch = (.ok (), view') ∧
      worker'.headerView = some view'
  store :
    match worker.accepted, worker'.accepted with
    | none, none => True
    | some headers, some headers' => headers.Holds start batch headers'
    | _, _ => False
  rest : worker'.config = worker.config ∧ worker'.reconciliation = worker.reconciliation

/- Batches in both, one after the other, and nothing else. -/
def PublishesAll (worker : ProgressiveSyncWorker H) :
    List (UInt32 × List BlockHeaderBytes) → ProgressiveSyncWorker H → Prop
  | [], worker' => worker' = worker
  | (start, batch) :: batches, worker' =>
    ∃ mid, Publishes worker start batch mid ∧ PublishesAll mid batches worker'

variable {worker : ProgressiveSyncWorker H} {view : VerifiedHeaderView H} {start : UInt32}

/- The store is joined where the view is. -/
omit [DecidableEq H] in
theorem links_of_together {headers : RetainedHeaders H} {batch : List BlockHeaderBytes}
    (hTogether : worker.Together) (hView : worker.headerView = some view)
    (hStore : worker.accepted = some headers)
    (hStart : view.verifier.accumulator.leafCount = start.toNat)
    (hLinks : LinksFrom view.verifier.lastHash batch) :
    LinksFrom ((Word32.checkedSub start 1).bind headers.hashAt) batch ∧
    ∀ height entry, headers.byHeight.get? height = some entry → height < start := by
  cases hTip : headers.tip with
  | none =>
    have hEmpty := RetainedHeaders.get?_of_tip_eq_none hTip
    constructor
    · apply hLinks.weaken
      intro hash hHash
      rcases Option.bind_eq_some_iff.mp hHash with ⟨before, -, hBefore⟩
      unfold RetainedHeaders.hashAt at hBefore
      rw [hEmpty] at hBefore
      cases hBefore
    · intro height entry hEntry
      rw [hEmpty] at hEntry
      cases hEntry
  | some tip =>
    rcases tip with ⟨tipHeight, tipHash⟩
    have hSame : view.tip = some (tipHeight, tipHash) := by
      rcases hTogether headers hStore with hNone | hEq
      · rw [hTip] at hNone
        cases hNone
      · rw [← hTip, hEq, hView]
        rfl
    rcases VerifiedHeaderView.tip_eq_some_iff.mp hSame with ⟨hHeight, hLast⟩
    rcases RetainedHeaders.tip_eq_some_iff.mp hTip with ⟨hHash, hGreatest⟩
    have hCount := ShvMmrHeaderVerifier.tipHeight_eq_ok hHeight
    have hBefore : Word32.checkedSub start 1 = some tipHeight :=
      Word32.checkedSub_one_eq_some_iff.mpr (by omega)
    constructor
    · rw [hBefore, Option.bind_some, hHash, ← hLast]
      exact hLinks
    · intro height entry hEntry
      have hLe := hGreatest height entry hEntry
      rw [UInt32.le_iff_toNat_le] at hLe
      rw [UInt32.lt_iff_toNat_lt]
      omega

/- An accepted batch whose heights fit is published. -/
theorem publishHeaders_of_extend {view' : VerifiedHeaderView H} {batch : List BlockHeaderBytes}
    (hTogether : worker.Together) (hView : worker.headerView = some view)
    (hStart : view.verifier.accumulator.leafCount = start.toNat) (hNonempty : batch ≠ [])
    (hExtend : view.extend batch = (.ok (), view')) (hFits : start.toNat + batch.length ≤ 2 ^ 32) :
    ∃ worker',
    worker.publishHeaders view' (stage start batch) = (.ok (), worker') ∧
      Publishes worker start batch worker' ∧
      worker'.Together ∧
      worker'.headerView = some view' := by
  have hExtends := VerifiedHeaderView.extends_of_extend hNonempty hExtend
  unfold publishHeaders
  cases hStore : worker.accepted with
  | none =>
    refine ⟨_, rfl, ?_, ?_, rfl⟩
    · exact
        { nonempty := hNonempty
          view := ⟨view, view', hView, hStart, hExtend, rfl⟩
          store := by
            rw [hStore]
            trivial
          rest := ⟨rfl, rfl⟩ }
    · intro headers hSome
      cases hSome
  | some headers =>
    rcases links_of_together hTogether hView hStore hStart hExtends.links with ⟨hLinks, hBelow⟩
    rcases RetainedHeaders.publish_of_linksFrom hFits hLinks with ⟨headers', hPublish, hHolds⟩
    dsimp only
    rw [hPublish]
    refine ⟨_, rfl, ?_, ?_, rfl⟩
    · exact
        { nonempty := hNonempty
          view := ⟨view, view', hView, hStart, hExtend, rfl⟩
          store := by
            rw [hStore]
            exact hHolds
          rest := ⟨rfl, rfl⟩ }
    · intro other hOther
      cases hOther
      have hLength := List.length_pos_of_ne_nil hNonempty
      have hLast := List.getLast?_eq_some_getLast hNonempty
      have hWord : start.toNat + batch.length - 1 < 2 ^ 32 := by omega
      have hHeight :
          (UInt32.ofNat (start.toNat + batch.length - 1)).toNat = start.toNat + batch.length - 1 :=
        UInt32.toNat_ofNat_of_lt' hWord
      have hTip :
          headers'.tip = some (UInt32.ofNat (start.toNat + batch.length - 1),
                headerLeaf (batch.getLast hNonempty)) :=
        hHolds.tip hBelow hLast (by omega)
      refine Or.inr (hTip.trans (Eq.symm ?_))
      rw [Option.bind_some, VerifiedHeaderView.tip_eq_some_iff]
      constructor
      · apply ShvMmrHeaderVerifier.tipHeight_of_leafCount
        rw [hExtends.leafCount, hStart]
        omega
      · rw [hExtends.lastHash, hLast]
        rfl

--- One Pass

/- No batch that the view accepts goes past the last height. -/
def HeightsFit (view : VerifiedHeaderView H) : List HeaderAnswer → Prop
  | .ok (.headers start batch) :: answers => ∀ view',
      view.extend batch = (.ok (), view') →
        start.toNat + batch.length ≤ 2 ^ 32 ∧ HeightsFit view' answers
  | _ => True

/- The answer that a published batch was. -/
def answerOf (published : UInt32 × List BlockHeaderBytes) : HeaderAnswer :=
  .ok (.headers published.1 published.2)

/-
  What the answers do: some of the first ones are published, and that is all.
-/
structure Passes (worker : ProgressiveSyncWorker H) (answers : List HeaderAnswer)
    (worker' : ProgressiveSyncWorker H) : Prop where
  together : worker'.Together
  published : ∃ batches, batches.map answerOf <+: answers ∧ PublishesAll worker batches worker'

theorem Passes.refl (hTogether : worker.Together) (answers : List HeaderAnswer) :
    Passes worker answers worker := ⟨hTogether, [], List.nil_prefix, rfl⟩

theorem Passes.cons {worker mid worker' : ProgressiveSyncWorker H} {start : UInt32}
    {batch : List BlockHeaderBytes} {answers : List HeaderAnswer}
    (hHere : Publishes worker start batch mid) (hRest : Passes mid answers worker') :
    Passes worker (.ok (.headers start batch) :: answers) worker' := by
  rcases hRest.published with ⟨batches, hPrefix, hAll⟩
  refine ⟨hRest.together, (start, batch) :: batches, ?_, mid, hHere, hAll⟩
  rw [List.map_cons]
  exact (List.prefix_cons_inj _).mpr hPrefix

/- By induction over the answers, with the worker's view and the next height as invariant. -/
theorem headerRounds_passes {answers : List HeaderAnswer} (hTogether : worker.Together)
    (hView : worker.headerView = some view)
    (hStart : view.verifier.accumulator.leafCount = start.toNat) (hFit : HeightsFit view answers) :
    Passes worker answers (worker.headerRounds view start answers).2 := by
  induction answers generalizing worker view start with
  | nil => exact Passes.refl hTogether []
  | cons answer answers ih =>
    unfold headerRounds
    split
    · exact Passes.refl hTogether _
    · exact Passes.refl hTogether _
    · rename_i startHeight batch rest hCons
      cases hCons
      split
      · exact Passes.refl hTogether _
      · rename_i hRange
        rw [not_or, not_not] at hRange
        rcases hRange with ⟨rfl, hSize⟩
        split
        · exact Passes.refl hTogether _
        · rename_i hNonempty
          have hNonempty : batch ≠ [] := by simpa using hNonempty
          split
          · exact Passes.refl hTogether _
          · rename_i returned hReturned
            split
            · exact Passes.refl hTogether _
            · rename_i view' hExtend
              rcases hFit view' hExtend with ⟨hFits, hFit'⟩
              rcases publishHeaders_of_extend hTogether hView hStart hNonempty hExtend hFits with
                ⟨worker', hPublish, hHere, hTogether', hView'⟩
              rw [hPublish]
              dsimp only
              have hDone : Passes worker' answers worker' := Passes.refl hTogether' answers
              split
              · exact Passes.cons hHere hDone
              · rename_i next hNext
                split
                · exact Passes.cons hHere hDone
                · apply Passes.cons hHere
                  apply ih hTogether' hView' _ hFit'
                  rw [(VerifiedHeaderView.extends_of_extend hNonempty hExtend).leafCount, hStart,
                    Word32.tryFrom_eq_some hNext, Word32.tryFrom_eq_some hReturned]
    · exact Passes.refl hTogether _

/- The condition on a pass and the worker that makes it. -/
def PassFits (worker : ProgressiveSyncWorker H) (pass : HeaderPass) : Prop :=
  ∀ view, worker.headerView = some view → HeightsFit view (pass.rounds worker)

theorem afterPass_passes {worker : ProgressiveSyncWorker H} {pass : HeaderPass}
    (hTogether : worker.Together) (hFits : PassFits worker pass) :
    Passes worker (pass.rounds worker) (worker.afterPass pass) := by
  unfold afterPass primeHeadersOnSameRoute
  split
  · exact Passes.refl hTogether _
  · rename_i view hView
    split
    · exact Passes.refl hTogether _
    · split
      · exact Passes.refl hTogether _
      · rename_i state hState
        split
        · exact Passes.refl hTogether _
        · rename_i start hStart
          apply headerRounds_passes hTogether hView _ (hFits view hView)
          rw [Word32.tryFrom_eq_some hStart]
          exact ShvMmrHeaderVerifier.tipHeight_eq_ok (ShvMmrHeaderVerifier.state_eq_ok hState).1

--- Runs Of Passes

/-
  Where no accepted batch goes past the last height, the store is empty or at the view's tip after
  every pass, and a pass publishes some of the batches it was first answered to both and nothing
  else to either.
-/
theorem passes_keep_together {worker : ProgressiveSyncWorker H} {passes : List HeaderPass}
    (hTogether : worker.Together) (hFits : Runs.EachStep afterPass PassFits worker passes) :
    Runs.EachState afterPass Together worker passes ∧
    Runs.EachStep afterPass
      (fun worker pass => Passes worker (pass.rounds worker) (worker.afterPass pass)) worker
      passes := by
  have hEach : Runs.EachState afterPass Together worker passes :=
    Runs.eachState_of_eachStep
      (fun worker pass hHere hFit => (@afterPass_passes H _ _ worker pass hHere hFit).together)
      hTogether hFits
  refine ⟨hEach, ?_⟩
  intro done pass rest hSplit
  exact afterPass_passes (hEach done (pass :: rest) hSplit) (hFits done pass rest hSplit)

--- Concrete Passes

/- The digests of three mined headers, one after the other. -/
abbrev PassHash : Type :=
  RecordedHash
    [0x2f0ce5de4633bdbd666702c5124485c711f4f6e80235a9a76582f98beac3b234,
      0x786ea10c42b4498acdcfe9959b75c87efce5ed1234bd8a32aabde3a40832da6a,
      0x375cad98b0f1aefeefbcc05811897caa2bba3568849d64d9e0b49eeeb6326d11]

def passHeader : Nat → BlockHeaderBytes
  | 0 => regtestHeader 0 0 1600000000 2
  | 1 =>
    regtestHeader 0x2f0ce5de4633bdbd666702c5124485c711f4f6e80235a9a76582f98beac3b234 1 1600000600 1
  | _ =>
    regtestHeader 0x786ea10c42b4498acdcfe9959b75c87efce5ed1234bd8a32aabde3a40832da6a 2 1600001200 3

/-
  A worker whose view ends with the first of the headers, and whose store has the hash of that one
  only.
-/
def passWorker (accumulator : MmrAccumulator PassHash) (height batchSize : UInt32) :
    ProgressiveSyncWorker PassHash :=
  { config := { headerBatchSize := batchSize, maxHeaderBatches := 2 }
    reconciliation := .new
    headerView :=
      some (.new .regtest
          { accumulator
            provenance := .shippedReviewed
            lastHash := some (headerLeaf (passHeader 0))
            lastTime := some 1600000000
            lastHeader := some (passHeader 0)
            lastLeafProof := accumulator.peaks.dropLast
            difficulty := some { params := .forNetwork .regtest, anchor := .forNetwork .regtest } })
    accepted := some (RetainedHeaders.new.insertHashOnly height (headerLeaf (passHeader 0))) }

def passRoute : CapabilityRoute :=
  { source := "node"
    protocol := .bip37
    endpoint := none }

/- A pass that is answered with one batch, and then nothing. -/
def passOf (start : UInt32) (batch : List BlockHeaderBytes) : HeaderPass :=
  { walletRoute := passRoute
    routes := [passRoute]
    answers :=
      fun round =>
        if round = 0 then .ok (.headers start batch)
        else .error .exhausted }

/- The chain of the first header alone. -/
def firstWorker : ProgressiveSyncWorker PassHash :=
  passWorker { leafCount := 1, peaks := [headerLeaf (passHeader 0)] } 0 1

/- A pass that publishes one header and then fails. -/
theorem passes_keep_together_one_header :
    Runs.EachState afterPass Together firstWorker [passOf 1 [passHeader 1]] ∧
    Runs.EachStep afterPass
      (fun worker pass => Passes worker (pass.rounds worker) (worker.afterPass pass)) firstWorker
      [passOf 1 [passHeader 1]] ∧
    (firstWorker.afterPass (passOf 1 [passHeader 1])).accepted.bind (·.tip) =
      some (1, headerLeaf (passHeader 1)) := by
  have hTogether : firstWorker.Together := by
    intro headers hHeaders
    cases hHeaders
    right
    decide +kernel
  have hFits : Runs.EachStep afterPass PassFits firstWorker [passOf 1 [passHeader 1]] := by
    rw [Runs.eachStep_cons]
    refine ⟨?_, Runs.eachStep_nil⟩
    intro view hView view' hExtend
    exact ⟨by decide, trivial⟩
  have hRun := passes_keep_together hTogether hFits
  exact ⟨hRun.1, hRun.2, by decide +kernel⟩

/- Next to the last height, a trusted checkpoint away. -/
def lateWorker : ProgressiveSyncWorker PassHash :=
  passWorker
    { leafCount := 2 ^ 32 - 1
      peaks := List.replicate 31 (.digest 0) ++ [headerLeaf (passHeader 0)] }
    0xfffffffe 2

/-
  A batch of two then ends one above the last height: the view has it and no height, the store
  keeps the second header at the height zero.
-/
theorem batch_past_last_height_parts_them :
    lateWorker.Together ∧
    ¬ (lateWorker.afterPass (passOf 0xffffffff [passHeader 1, passHeader 2])).Together ∧
    ((lateWorker.afterPass (passOf 0xffffffff [passHeader 1, passHeader 2])).accepted.bind
          (fun headers => headers.headerAt 0)) = some (passHeader 2) := by
  refine ⟨?_, ?_, by decide +kernel⟩
  · intro headers hHeaders
    cases hHeaders
    right
    decide +kernel
  · have hApart :
        (lateWorker.afterPass (passOf 0xffffffff [passHeader 1, passHeader 2])).accepted.any
          (fun headers =>
            decide
              (headers.tip ≠ none ∧ headers.tip ≠
                  (lateWorker.afterPass
                    (passOf 0xffffffff [passHeader 1, passHeader 2])
                      ).headerView.bind (·.tip))) = true := by
      decide +kernel
    rcases (Option.any_eq_true _ _).mp hApart with ⟨headers, hStore, hTips⟩
    rcases of_decide_eq_true hTips with ⟨hSome, hTip⟩
    intro hTogether
    rcases hTogether headers hStore with hNone | hSame
    · exact hSome hNone
    · exact hTip hSame

end ProgressiveSyncWorker

end OptnWallet
