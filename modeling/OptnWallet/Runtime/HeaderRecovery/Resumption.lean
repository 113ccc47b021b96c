import OptnWallet.Library.Runs
import OptnWallet.Runtime.HeaderRecovery.Replay

/-
  What comes of resuming a replay under the very budget that stopped it.

  A resume record carries the count of headers seen, and the header budget is compared with that
  count.  So the budget is one for the whole replay, not one for each sitting: a chain that it
  covers is reproduced after finitely many turns, and a longer one never is.

  Main declarations:
    * `HonestChain` and `HostState.turn`
    * `HistoricalReplay.Follows`
    * `HistoricalReplay.resumption_progress_iff`
-/

--- A Host And Its Chain

namespace OptnWallet

open StagedUpdate ShvMmrHeaderVerifier

open MmrAccumulator

variable {H : Type} [Hash32 H] [DecidableEq H]

/-
  The headers up to a target, as the accepted chain has them: distinct blocks that the network's
  rules accept, with the commitment and the anchors that the host holds.
-/
structure HonestChain (network : Network) (target : AcceptedCommitment H)
    (anchors : BTreeMap UInt32 H) (chain : List BlockHeaderBytes) : Prop where
  length : chain.length = target.height.toNat + 1
  distinct : (chain.map (headerLeaf (H := H))).Nodup
  verified :
    ∃ final,
    (HistoricalReplay.stagedVerifier network).extend chain = (.ok (), final) ∧
      final.accumulator.root = target.commitment
  anchored :
    ∀ height expected header,
    anchors.get? height = some expected → chain[height.toNat]? = some header →
      headerLeaf header = expected

/- A replay, and what it answered last. -/
structure HostState (H : Type) where
  step : ReplayStep H
  replay : HistoricalReplay H

namespace HistoricalReplay

omit [DecidableEq H] in
/- A replay that waits for its first headers. -/
def started (self : HistoricalReplay H) : HostState H :=
  { step := .needHeaders self.nextHeight, replay := self }

omit [DecidableEq H] in
/- The headers of a chain that come next, `size` at most. -/
def nextBatch (self : HistoricalReplay H) (chain : List BlockHeaderBytes) (size : Nat) :
    List BlockHeaderBytes := (chain.drop self.nextHeight.toNat).take size

/- Encode, and restore under the same terms. -/
def resume (codec : SerdeJson (ReplayResume H)) (self : HistoricalReplay H) :
    Option (HistoricalReplay H) :=
  match self.encode codec with
  | .error _ => none
  | .ok json =>
    match restore codec json self.network self.target self.anchors self.budget with
    | .error _ => none
    | .ok resumed => some resumed

end HistoricalReplay

namespace HostState

section

variable (codec : SerdeJson (ReplayResume H)) (chain : List BlockHeaderBytes)

/-
  One turn of a host that is served `size` headers: it feeds what the replay asks for, and resumes
  a replay that stopped for want of budget.
-/
def turn (host : HostState H) (size : Nat) : Option (HostState H) :=
  match host.step with
  | .needHeaders _ => (host.replay.feed (host.replay.nextBatch chain size)).map
      (fun (step, next) => { step, replay := next })
  | .incomplete (.budgetExhausted _ _) => (host.replay.resume codec).map HistoricalReplay.started
  | _ => some host

/- A turn for each size of a batch. -/
def turns (sizes : List Nat)
    (host : HostState H) : Option (HostState H) := sizes.foldlM (turn codec chain) host

end

end HostState

namespace HistoricalReplay

section

variable (codec : SerdeJson (ReplayResume H)) (chain : List BlockHeaderBytes)
  (origin : HistoricalReplay H)

/-
  Every stop for want of budget can be resumed, and the resumed replay takes in whatever comes
  next.
-/
def ResumesWithProgress : Prop :=
  ∀ sizes host nextHeight headersSeen,
    (∀ size ∈ sizes, 0 < size) → HostState.turns codec chain sizes origin.started = some host →
      host.step = .incomplete (.budgetExhausted nextHeight headersSeen) →
      ∃ json resumed,
        host.replay.encode codec = .ok json ∧
          restore codec json host.replay.network host.replay.target host.replay.anchors
              host.replay.budget = .ok resumed ∧
          ∀ size,
            0 < size → ∃ step next,
                resumed.feed (resumed.nextBatch chain size) = some (step, next) ∧
                  resumed.leafCount < next.leafCount

/-
  However the headers are cut, finitely many turns end with the chain authenticated.
-/
def Completes : Prop :=
  ∀ sizes : Nat → Nat,
    (∀ round, 0 < sizes round) →
    ∃ rounds matched next,
      HostState.turns codec chain ((List.range rounds).map sizes) origin.started =
        some { step := .authenticated origin.target.height matched, replay := next }

end

--- One Budget For The Whole Replay

/- Every leaf of the accumulator was counted. -/
structure Counted (replay : HistoricalReplay H) : Prop where
  seen : replay.headersSeen.toNat = replay.leafCount
  within : replay.leafCount ≤ replay.budget.maxHeaders.toNat

/- What the terms of a replay are judged against. -/
structure SameTerms (replay next : HistoricalReplay H) : Prop where
  network : next.network = replay.network
  target : next.target = replay.target
  anchors : next.anchors = replay.anchors
  budget : next.budget = replay.budget

omit [Hash32 H] [DecidableEq H] in
theorem SameTerms.trans {first second third : HistoricalReplay H} (hFirst : SameTerms first second)
    (hSecond : SameTerms second third) : SameTerms first third :=
  ⟨hSecond.network.trans hFirst.network, hSecond.target.trans hFirst.target,
    hSecond.anchors.trans hFirst.anchors, hSecond.budget.trans hFirst.budget⟩

variable {self next : HistoricalReplay H} {step : ReplayStep H}

theorem judgeTip_replay (hJudged : self.judgeTip = (step, next)) :
    next = self ∨ next = self.finish := by
  unfold judgeTip at hJudged
  split at hJudged
  · cases hJudged
    exact Or.inr rfl
  · split at hJudged
    · split at hJudged
      · cases hJudged
        exact Or.inr rfl
      · cases hJudged
        exact Or.inl rfl
    · split at hJudged
      · cases hJudged
        exact Or.inr rfl
      · cases hJudged
        exact Or.inr rfl

variable {batch : List BlockHeaderBytes}

/- A batch within the budget is counted with its leaves. -/
theorem Counted.replayBatch (hCounted : Counted self) {start : UInt32}
    (hBudget : self.headersSeen.toNat + batch.length ≤ self.budget.maxHeaders.toNat)
    (hReplay : self.replayBatch start batch = some (step, next)) :
    Counted next ∧ SameTerms self next := by
  have hMax := self.budget.maxHeaders.toNat_lt
  unfold HistoricalReplay.replayBatch at hReplay
  split at hReplay
  · cases hReplay
  · rename_i e staged hExtend
    cases hReplay
    have hSame := extend_eq_error hExtend
    subst hSame
    exact ⟨⟨hCounted.seen, hCounted.within⟩, ⟨rfl, rfl, rfl, rfl⟩⟩
  · rename_i staged hExtend
    have hRun := extend_run hExtend
    have hLeaves : staged.accumulator.leafCount = self.leafCount + batch.length := hRun.leafCount
    have hSeen :
        (Word32.saturatingAdd self.headersSeen (UInt32.ofNat batch.length)).toNat =
          self.headersSeen.toNat + batch.length :=
      Word32.toNat_saturatingAdd_ofNat (by omega)
    have hCount := hCounted.seen
    dsimp only at hReplay
    rw [matchAnchors_eq] at hReplay
    -- Both verdicts keep the counter and the accumulator.
    have hAny :
        ∀ matched finished,
          Counted
              { self with
                staged
                headersSeen := Word32.saturatingAdd self.headersSeen (UInt32.ofNat batch.length)
                anchorsMatched := matched
                finished } ∧
            SameTerms self
              { self with
                staged
                headersSeen := Word32.saturatingAdd self.headersSeen (UInt32.ofNat batch.length)
                anchorsMatched := matched
                finished } := by
      intro matched finished
      refine ⟨⟨?_, ?_⟩, ⟨rfl, rfl, rfl, rfl⟩⟩
      · exact hSeen.trans (by rw [hCount]; exact hLeaves.symm)
      · have hWithin : staged.accumulator.leafCount ≤ self.budget.maxHeaders.toNat := by omega
        exact hWithin
    split at hReplay
    · rename_i reason other hMatch
      have hOther := congrArg Prod.snd hMatch
      dsimp only at hOther
      subst hOther
      cases hReplay
      exact hAny _ true
    · rename_i other hMatch
      have hOther := congrArg Prod.snd hMatch
      dsimp only at hOther
      subst hOther
      rcases judgeTip_replay (Option.some.inj hReplay) with rfl | rfl
      · exact hAny _ self.finished
      · exact hAny _ true

variable {headers : List BlockHeaderBytes}

theorem Counted.feed (hCounted : Counted self) (hFeed : self.feed headers = some (step, next)) :
    Counted next ∧ SameTerms self next := by
  have hStop : Counted self.finish ∧ SameTerms self self.finish :=
    ⟨⟨hCounted.seen, hCounted.within⟩, ⟨rfl, rfl, rfl, rfl⟩⟩
  unfold HistoricalReplay.feed at hFeed
  split at hFeed
  · cases hFeed
    exact ⟨hCounted, ⟨rfl, rfl, rfl, rfl⟩⟩
  dsimp only at hFeed
  split at hFeed
  · cases hFeed
    exact hStop
  split at hFeed
  · cases hFeed
    exact hStop
  · rename_i hSpent
    rw [not_or] at hSpent
    have hUnspent := not_le.mp hSpent.2
    have hRemaining := remainingBudget_toNat hUnspent
    have hTake : self.take headers ≤ self.remainingBudget.toNat := min_le_right _ _
    have hLength : (headers.take (self.take headers)).length ≤ self.take headers :=
      List.length_take_le _ _
    rw [UInt32.lt_iff_toNat_lt] at hUnspent
    have hBatch :
        Counted
          { self with
            batchesSeen := Word32.saturatingAdd self.batchesSeen 1 } :=
      ⟨hCounted.seen, hCounted.within⟩
    have hNext := hBatch.replayBatch (by dsimp only; omega) hFeed
    exact ⟨hNext.1, ⟨hNext.2.network, hNext.2.target, hNext.2.anchors, hNext.2.budget⟩⟩

variable {codec : SerdeJson (ReplayResume H)}

/- The position that a record carries over. -/
theorem resume_eq_some (hRoundTrips : codec.RoundTrips) {resumed : HistoricalReplay H}
    (hResume : self.resume codec = some resumed) :
    resumed.leafCount = self.leafCount ∧
    resumed.headersSeen = self.headersSeen ∧
    SameTerms self resumed := by
  unfold resume at hResume
  split at hResume
  · cases hResume
  rename_i json hEncode
  split at hResume
  · cases hResume
  rename_i restored hRestore
  cases hResume
  rcases restore_eq_ok hRestore with ⟨record, hRead, -, -, hCount, -, -⟩
  unfold encode at hEncode
  split at hEncode
  · cases hEncode
  rename_i state hState
  have hTip := (state_eq_ok hState).1
  have hLeaves := tipHeight_eq_ok hTip
  split at hEncode
  · cases hEncode
  dsimp only at hEncode
  split at hEncode
  · cases hEncode
  rename_i written hWritten
  cases hEncode
  rw [hRoundTrips _ _ hWritten] at hRead
  cases hRead
  unfold restore at hRestore
  rw [hRoundTrips _ _ hWritten] at hRestore
  split at hRestore
  · cases hRestore
  dsimp only at hRestore
  split at hRestore
  · cases hRestore
  split at hRestore
  · cases hRestore
  split at hRestore
  · cases hRestore
  split at hRestore
  · cases hRestore
  cases hRestore
  exact ⟨hCount.trans hLeaves.symm, rfl, ⟨rfl, rfl, rfl, rfl⟩⟩

/-
  A record of a replay whose header budget is spent restores one whose budget is spent: no batch
  adds a leaf.
-/
theorem Counted.resumed_stalls (hRoundTrips : codec.RoundTrips) {resumed : HistoricalReplay H}
    (hCounted : Counted self) (hSpent : self.budget.maxHeaders ≤ self.headersSeen)
    (hResume : self.resume codec = some resumed)
    (hFeed : resumed.feed headers = some (step, next)) : next.leafCount ≤ resumed.leafCount := by
  rcases resume_eq_some hRoundTrips hResume with ⟨hCount, hSeen, hTerms⟩
  have hBoth := hCounted.seen
  have hWithin := hCounted.within
  have hAgain : Counted resumed := by
    constructor
    · rw [hSeen, hCount]
      exact hBoth
    · rw [hTerms.budget, hCount]
      exact hWithin
  rcases hAgain.feed hFeed with ⟨hNext, hSame⟩
  have hLimit := hNext.within
  rw [UInt32.le_iff_toNat_le] at hSpent
  rw [hSame.budget, hTerms.budget] at hLimit
  rw [hCount]
  omega

/- A position in a replay that cannot reach its target. -/
structure Beyond (origin : HistoricalReplay H) (host : HostState H) : Prop where
  counted : Counted host.replay
  terms : SameTerms origin host.replay
  unanswered : ∀ through matched, host.step ≠ .authenticated through matched

variable {chain : List BlockHeaderBytes} {origin : HistoricalReplay H} {host : HostState H}
variable {size : Nat}

/- Step: a counted replay stays short of a far target. -/
theorem Beyond.turn (hRoundTrips : codec.RoundTrips)
    (hFar : origin.budget.maxHeaders ≤ origin.target.height) {next : HostState H}
    (hBeyond : Beyond origin host) (hTurn : host.turn codec chain size = some next) :
    Beyond origin next := by
  unfold HostState.turn at hTurn
  split at hTurn
  · rcases Option.map_eq_some_iff.mp hTurn with ⟨⟨step, replay⟩, hFeed, rfl⟩
    rcases hBeyond.counted.feed hFeed with ⟨hCounted, hSame⟩
    have hTerms := hBeyond.terms.trans hSame
    refine ⟨hCounted, hTerms, ?_⟩
    intro through matched hStep
    rcases feed_cases hFeed with hStopped | hAdvanced
    · exact hStopped.unanswered through matched hStep
    · rcases hAdvanced.authenticated through matched hStep with ⟨-, -, height, hTip, hReached⟩
      have hCount : replay.leafCount = height.toNat + 1 := tipHeight_eq_ok hTip
      have hWithin := hCounted.within
      rw [UInt32.le_iff_toNat_le] at hReached hFar
      rw [hTerms.budget] at hWithin
      rw [hBeyond.terms.target] at hReached
      omega
  · rcases Option.map_eq_some_iff.mp hTurn with ⟨resumed, hResume, rfl⟩
    rcases resume_eq_some hRoundTrips hResume with ⟨hCount, hSeen, hSame⟩
    have hCounted := hBeyond.counted
    refine ⟨⟨?_, ?_⟩, hBeyond.terms.trans hSame, ?_⟩
    · have hStarted : resumed.headersSeen.toNat = resumed.leafCount := by
        rw [hSeen, hCount]
        exact hCounted.seen
      exact hStarted
    · have hStarted : resumed.leafCount ≤ resumed.budget.maxHeaders.toNat := by
        rw [hCount, hSame.budget]
        exact hCounted.within
      exact hStarted
    · intro through matched hStep
      cases hStep
  · cases hTurn
    exact hBeyond

/- Run: a chain longer than the budget is never done. -/
theorem not_completes (hRoundTrips : codec.RoundTrips) (hCounted : Counted origin)
    (hFar : origin.budget.maxHeaders ≤ origin.target.height) : ¬ Completes codec chain origin := by
  intro hCompletes
  rcases hCompletes (fun _ => 1) (fun _ => Nat.one_pos) with ⟨rounds, matched, next, hTurns⟩
  have hStart : Beyond origin origin.started := by
    refine ⟨hCounted, ⟨rfl, rfl, rfl, rfl⟩, ?_⟩
    intro through matched hStep
    cases hStep
  have hAny : ∀ size ∈ (List.range rounds).map (fun _ => 1), True := fun _ _ => trivial
  have hEnd :=
    RankedRuns.foldlM_keeps
      (fun host size next hBeyond _ hTurn => hBeyond.turn hRoundTrips hFar hTurn) hAny hStart hTurns
  exact hEnd.unanswered _ _ rfl

--- Following An Honest Chain

/- A replay that has taken in the first `count` headers. -/
structure Follows (chain : List BlockHeaderBytes) (origin : HistoricalReplay H) (count : Nat)
    (replay : HistoricalReplay H) : Prop where
  terms : SameTerms origin replay
  within : count ≤ chain.length
  staged : (chain.take count).foldlM extendOne (stagedVerifier origin.network) = .ok replay.staged
  headersSeen : replay.headersSeen.toNat = count
  anchorsMatched :
    compareAnchors origin.anchors 0 0 (chain.take count) = (.ok (), replay.anchorsMatched)

variable {anchors : BTreeMap UInt32 H} {budget : ReplayBudget} {replay : HistoricalReplay H}

omit [Hash32 H] [DecidableEq H] in
theorem begin_eq_ok {network : Network} {target : AcceptedCommitment H}
    (hBegin : HistoricalReplay.begin network target anchors budget = .ok replay) :
    replay =
      { network
        staged := stagedVerifier network
        target
        anchors
        budget
        headersSeen := 0
        batchesSeen := 0
        anchorsMatched := 0
        finished := false } := by
  unfold HistoricalReplay.begin at hBegin
  split at hBegin
  · cases hBegin
  split at hBegin
  · cases hBegin
  dsimp only at hBegin
  split at hBegin
  · cases hBegin
  cases hBegin
  rfl

omit [Hash32 H] [DecidableEq H] in
theorem leafCount_stagedVerifier (network : Network) :
    (stagedVerifier (H := H) network).accumulator.leafCount = 0 := rfl

variable {count : Nat}

theorem Follows.run (hFollows : Follows chain origin count replay) :
    Run (stagedVerifier origin.network) (chain.take count) replay.staged :=
  run_of_foldlM hFollows.staged

theorem Follows.leafCount (hFollows : Follows chain origin count replay) :
    replay.leafCount = count := by
  have hLeaves := hFollows.run.leafCount
  rw [List.length_take, min_eq_left hFollows.within, leafCount_stagedVerifier, Nat.zero_add]
    at hLeaves
  exact hLeaves

/- Headers that agree with the anchors of their heights. -/
theorem compareAnchors_of_agree {first : Nat} (hWord : first + headers.length ≤ 2 ^ 32)
    (hAgree : ∀ offset header expected,
      headers[offset]? = some header →
        anchors.get? (UInt32.ofNat (first + offset)) = some expected →
        headerLeaf header = expected) (matched : UInt64) :
    ∃ matched',
    compareAnchors anchors matched (UInt32.ofNat first) headers = (.ok (), matched') := by
  induction headers generalizing first matched with
  | nil => exact ⟨matched, rfl⟩
  | cons header headers ih =>
    rw [List.length_cons] at hWord
    have hNext : UInt32.ofNat first + 1 = UInt32.ofNat (first + 1) := by
      rw [UInt32.ofNat_add]
      rfl
    have hRest :
        ∀ offset other expected,
        headers[offset]? = some other →
          anchors.get? (UInt32.ofNat (first + 1 + offset)) = some expected →
          headerLeaf other = expected := by
      intro offset other expected hOther hAnchor
      apply hAgree (offset + 1) other expected
      · rw [List.getElem?_cons_succ]
        exact hOther
      · rw [← Nat.add_assoc, Nat.add_right_comm]
        exact hAnchor
    rw [compareAnchors_cons, hNext]
    cases hAnchor : anchors.get? (UInt32.ofNat first) with
    | none => exact ih (by omega) hRest matched
    | some expected =>
      have hSame := hAgree 0 header expected rfl hAnchor
      dsimp only
      rw [if_neg (not_not.mpr hSame)]
      exact ih (by omega) hRest (matched + 1)

/- The next headers of an honest chain are all accepted. -/
theorem Follows.accepts (hHonest : HonestChain origin.network origin.target origin.anchors chain)
    (hFollows : Follows chain origin count replay) (hBatch : batch <+: chain.drop count) :
    ∃ staged matched,
    batch.foldlM extendOne replay.staged = .ok staged ∧
      compareAnchors replay.anchors replay.anchorsMatched (UInt32.ofNat count) batch =
        (.ok (), matched) ∧
      (chain.take (count + batch.length)).foldlM extendOne
          (stagedVerifier origin.network) = .ok staged ∧
      compareAnchors origin.anchors 0 0 (chain.take (count + batch.length)) =
        (.ok (), matched) := by
  have hSplit : chain.take (count + batch.length) = chain.take count ++ batch := by
    rw [List.take_add, ← List.prefix_iff_eq_take.mp hBatch]
  rcases hHonest.verified with ⟨final, hExtend, -⟩
  have hWhole := extend_eq_ok_iff.mp hExtend
  rw [← List.take_append_drop (count + batch.length) chain, foldlM_append_eq_ok_iff] at hWhole
  rcases hWhole with ⟨staged, hFront, -⟩
  have hBack := hFront
  rw [hSplit, foldlM_append_eq_ok_iff] at hBack
  rcases hBack with ⟨before, hBefore, hBack⟩
  rw [hFollows.staged] at hBefore
  cases hBefore
  have hLength := hHonest.length
  have hWord := origin.target.height.toNat_lt
  have hFit := hBatch.length_le
  rw [List.length_drop] at hFit
  have hWithin := hFollows.within
  have hAgree :
      ∀ offset header expected,
      batch[offset]? = some header →
        replay.anchors.get? (UInt32.ofNat (count + offset)) = some expected →
        headerLeaf header = expected := by
    intro offset header expected hHeader hAnchor
    have hShort : offset < batch.length := (List.getElem?_eq_some_iff.mp hHeader).1
    rw [hFollows.terms.anchors] at hAnchor
    apply hHonest.anchored _ expected header hAnchor
    have hSmall : count + offset < 2 ^ 32 := by omega
    have hIndex : (UInt32.ofNat (count + offset)).toNat = count + offset :=
      UInt32.toNat_ofNat_of_lt hSmall
    rw [hIndex, ← List.getElem?_drop]
    rw [List.prefix_iff_getElem?.mp hBatch offset hShort]
    rw [List.getElem?_eq_getElem hShort] at hHeader
    exact hHeader
  rcases
      compareAnchors_of_agree (by omega) hAgree
        replay.anchorsMatched with
    ⟨matched, hCompare⟩
  refine ⟨staged, matched, hBack, hCompare, hFront, ?_⟩
  rw [hSplit, compareAnchors_append, hFollows.anchorsMatched]
  dsimp only
  rw [List.length_take, min_eq_left hWithin, ← hFollows.terms.anchors]
  have hZero : (0 : UInt32) + UInt32.ofNat count = UInt32.ofNat count := UInt32.zero_add _
  rw [hZero]
  exact hCompare

/- The position behind a batch that was accepted. -/
theorem Follows.after (hFollows : Follows chain origin count replay)
    (hWithin : count + batch.length ≤ chain.length) (hWord : count + batch.length < 2 ^ 32)
    {staged : ShvMmrHeaderVerifier H} {matched : UInt64}
    (hStaged :
      (chain.take (count + batch.length)).foldlM extendOne
          (stagedVerifier origin.network) = .ok staged)
    (hMatched :
        compareAnchors origin.anchors 0 0 (chain.take (count + batch.length)) = (.ok (), matched)) :
    Follows chain origin (count + batch.length) (replay.replayed staged batch.length matched) := by
  have hSeen :
      (Word32.saturatingAdd replay.headersSeen (UInt32.ofNat batch.length)).toNat =
        count + batch.length := by
    rw [← hFollows.headersSeen] at hWord ⊢
    exact Word32.toNat_saturatingAdd_ofNat hWord
  have hTerms := hFollows.terms
  exact ⟨⟨hTerms.network, hTerms.target, hTerms.anchors, hTerms.budget⟩, hWithin, hStaged, hSeen,
    hMatched⟩

/- At the target an honest replay is authenticated. -/
theorem judgeTip_of_reached (hReached : self.leafCount = self.target.height.toNat + 1)
    (hRoot : self.staged.accumulator.root = self.target.commitment) :
    self.judgeTip = (.authenticated self.target.height self.anchorsMatched, self.finish) := by
  unfold judgeTip
  rw [state_of_tipHeight (tipHeight_of_leafCount hReached)]
  dsimp only
  rw [if_neg (lt_irrefl _), if_neg (not_not.mpr hRoot)]

section

variable (hFollows : Follows chain origin count replay)
include hFollows

/- The counters of a sitting are no part of the position. -/
theorem Follows.sitting (batchesSeen : UInt32)
    (finished : Bool) :
    Follows chain origin count { replay with batchesSeen, finished } := by
  have hTerms := hFollows.terms
  exact ⟨⟨hTerms.network, hTerms.target, hTerms.anchors, hTerms.budget⟩, hFollows.within,
    hFollows.staged, hFollows.headersSeen, hFollows.anchorsMatched⟩

theorem Follows.nextBatch (hWord : count < 2 ^ 32) (size : Nat) :
    replay.nextHeight = UInt32.ofNat count ∧
    replay.nextBatch chain size = (chain.drop count).take size := by
  have hLeaves := hFollows.leafCount
  have hNext : replay.nextHeight.toNat = count := by rw [nextHeight_toNat (by omega), hLeaves]
  constructor
  · apply UInt32.toNat_inj.mp
    rw [hNext]
    exact (UInt32.toNat_ofNat_of_lt hWord).symm
  · unfold HistoricalReplay.nextBatch
    rw [hNext]

/- A budget that covers the chain takes every batch whole. -/
theorem Follows.take_eq (hLength : chain.length = origin.target.height.toNat + 1)
    (hCovered : origin.target.height < origin.budget.maxHeaders)
    (hBelow : count ≤ origin.target.height.toNat) (hBatch : batch <+: chain.drop count) :
    replay.take batch = batch.length := by
  have hMax := origin.budget.maxHeaders.toNat_lt
  have hSeen := hFollows.headersSeen
  have hLeaves := hFollows.leafCount
  rw [UInt32.lt_iff_toNat_lt] at hCovered
  have hFit := hBatch.length_le
  rw [List.length_drop] at hFit
  rw [← hFollows.terms.target] at hBelow hCovered hLength
  have hCount : replay.leafCount ≤ replay.target.height.toNat := by omega
  have hWanted := (wanted_toNat hCount).2
  have hUnspent : replay.headersSeen < replay.budget.maxHeaders := by
    rw [UInt32.lt_iff_toNat_lt, hFollows.terms.budget]
    omega
  have hRemaining := remainingBudget_toNat hUnspent
  rw [hFollows.terms.budget] at hRemaining
  unfold HistoricalReplay.take
  omega

end

/- The two answers to a batch of an honest chain. -/
inductive HonestAnswer (origin : HistoricalReplay H) (count : Nat) :
    ReplayStep H → HistoricalReplay H → Prop where
  | more {fromHeight : UInt32} {next : HistoricalReplay H} (hUnfinished : next.finished = false)
      (hBelow : count ≤ origin.target.height.toNat) :
      HonestAnswer origin count (.needHeaders fromHeight) next
  | authenticated {matched : UInt64} {next : HistoricalReplay H} :
      HonestAnswer origin count (.authenticated origin.target.height matched) next

theorem Follows.feed (hHonest : HonestChain origin.network origin.target origin.anchors chain)
    (hCovered : origin.target.height < origin.budget.maxHeaders)
    (hFollows : Follows chain origin count replay) (hUnfinished : replay.finished = false)
    (hBelow : count ≤ origin.target.height.toNat)
    (hBatches : replay.batchesSeen < replay.budget.maxBatches) (hSize : 0 < size) :
    ∃ gained step next,
    replay.feed (replay.nextBatch chain size) = some (step, next) ∧ 0 < gained ∧
      Follows chain origin (count + gained) next ∧
      HonestAnswer origin (count + gained) step next := by
  have hMax := origin.budget.maxHeaders.toNat_lt
  have hTarget := origin.target.height.toNat_lt
  have hLength := hHonest.length
  have hTerms := hFollows.terms
  have hLeaves := hFollows.leafCount
  rcases hFollows.nextBatch (by omega) size with ⟨hStart, hNextBatch⟩
  rw [hNextBatch]
  have hBatch : (chain.drop count).take size <+: chain.drop count := List.take_prefix _ _
  have hTake := hFollows.take_eq hLength hCovered hBelow hBatch
  have hSome : (chain.drop count).take size ≠ [] := by
    intro hNil
    have hNone := congrArg List.length hNil
    rw [List.length_take, List.length_drop, List.length_nil] at hNone
    omega
  generalize (chain.drop count).take size = batch at hBatch hTake hSome
  have hPositive := List.length_pos_iff.mpr hSome
  have hFit := hBatch.length_le
  rw [List.length_drop] at hFit
  rw [UInt32.lt_iff_toNat_lt] at hCovered
  have hUnspent : replay.headersSeen < replay.budget.maxHeaders := by
    rw [UInt32.lt_iff_toNat_lt, hTerms.budget, hFollows.headersSeen]
    omega
  rcases hFollows.accepts hHonest hBatch with ⟨staged, matched, hFold, hCompare, hFront, hMatched⟩
  have hAfter := hFollows.after (by omega) (by omega) hFront hMatched
  rw [← hStart] at hCompare
  have hFeed := feed_active hUnfinished hSome hBatches hUnspent
  rw [hTake, List.take_length, replayBatch_of_match hFold hCompare] at hFeed
  have hRun := run_of_foldlM hFold
  by_cases hShort : count + batch.length ≤ origin.target.height.toNat
  · rw [judgeTip_of_short hRun hSome
      (by rw [hTerms.target, hLeaves]; exact hShort)
      (by rw [hTerms.budget, hFollows.headersSeen]; omega)
      matched] at hFeed
    refine ⟨batch.length, _, _, hFeed, hPositive, ?_, ?_⟩
    · exact hAfter.sitting _ _
    · exact .more hUnfinished hShort
  · -- The batch reaches the target, so it ends the chain.
    have hEnd : count + batch.length = chain.length := by omega
    have hRoot : staged.accumulator.root = replay.target.commitment := by
      rcases hHonest.verified with ⟨final, hExtend, hFinal⟩
      have hWhole := extend_eq_ok_iff.mp hExtend
      rw [hEnd, List.take_length, hWhole] at hFront
      cases hFront
      rw [hTerms.target]
      exact hFinal
    have hReached :
        (replay.replayed staged batch.length matched).leafCount =
          replay.target.height.toNat + 1 := by
      rw [hAfter.leafCount, hTerms.target]
      omega
    rw [judgeTip_of_reached hReached hRoot] at hFeed
    refine ⟨batch.length, _, _, hFeed, hPositive, ?_, ?_⟩
    · exact hAfter.sitting _ _
    · have hSame : (replay.replayed staged batch.length matched).target = origin.target :=
        hTerms.target
      rw [hSame]
      exact .authenticated

--- Resuming On An Honest Chain

omit [Hash32 H] [DecidableEq H] in
/- The same position, at the start of a sitting. -/
def reopened (self : HistoricalReplay H) : HistoricalReplay H :=
  { self with batchesSeen := 0, finished := false }

/- What `encode` writes for a tip. -/
def resumeRecord (self : HistoricalReplay H) (height : UInt32) (header : BlockHeaderBytes) :
    ReplayResume H :=
  { schema := resumeSchema
    network := self.network.toString
    height
    commitment := self.staged.accumulator.root
    header := header.bytes.toList
    proof := self.staged.lastLeafProof
    headersSeen := self.headersSeen
    anchorsMatched := self.anchorsMatched }

/-
  The JSON writer writes the records of this chain, each within the size that is read back: a
  header is 80 bytes, and no proof has more than 32 hashes.
-/
def WritesRecordsOf (codec : SerdeJson (ReplayResume H)) (chain : List BlockHeaderBytes)
    (origin : HistoricalReplay H) : Prop :=
  ∀ count replay height header,
    Follows chain origin count replay → height < origin.target.height →
      replay.staged.tipHeight = .ok height →
      replay.staged.lastHeader = some header →
      ∃ json,
        codec.toString (replay.resumeRecord height header) = some json ∧
          json.utf8ByteSize ≤ maxResumeBytes

omit [DecidableEq H] in
theorem encode_of_record {height : UInt32} {header : BlockHeaderBytes} {json : String}
    (hTip : self.staged.tipHeight = .ok height) (hHeader : self.staged.lastHeader = some header)
    (hWritten : codec.toString (self.resumeRecord height header) = some json) :
    self.encode codec = .ok json := by
  unfold resumeRecord at hWritten
  unfold encode tipCheckpointProof
  rw [state_of_tipHeight hTip, hHeader]
  dsimp only [Option.map_some]
  rw [hWritten]

/- The record of a restorable tip restores the position. -/
theorem restore_of_record {height : UInt32} {header : BlockHeaderBytes} {json : String}
    (hTip : self.staged.tipHeight = .ok height)
    (hContext : TipContext self.staged header)
    (hProvenance : self.staged.provenance = .selfDerived)
    (hDifficulty :
      self.staged.difficulty =
        some { params := .forNetwork self.network, anchor := .forNetwork self.network })
    (hBelow : height < self.target.height)
    (hRead : codec.fromStr json = some (self.resumeRecord height header))
    (hSize : json.utf8ByteSize ≤ maxResumeBytes) :
    restore codec json self.network self.target self.anchors self.budget = .ok self.reopened := by
  have hRestores := hContext.restores
  rw [tipHeight_eq_ok hTip] at hRestores
  have hProof : self.staged.lastLeafProof.length ≤ 32 := by
    have hWord := height.toNat_lt
    rw [length_of_bootstrap hRestores, Nat.add_sub_cancel]
    exact Word64.bitWidth_le_of_lt (by omega) hWord
  have hRebuilt :
      fromCheckpointProof height header self.staged.lastLeafProof
          self.staged.accumulator.root .selfDerived =
        .ok { self.staged with difficulty := none } := by
    rw [fromCheckpointProof_eq_ok_iff]
    refine ⟨hContext.pow, self.staged.accumulator, hRestores, rfl, ?_⟩
    rw [← hContext.lastHash, ← hContext.lastTime, ← hContext.lastHeader, ← hProvenance]
  have hAllowed :
      ¬ (resumeSchema ≠ resumeSchema ∨ self.network.toString ≠ self.network.toString ∨
          32 < self.staged.lastLeafProof.length) := by
    rw [not_or, not_or]
    exact ⟨not_not.mpr rfl, not_not.mpr rfl, not_lt.mpr hProof⟩
  unfold restore
  rw [if_neg (not_lt.mpr hSize), hRead]
  dsimp only [resumeRecord]
  rw [if_neg hAllowed, if_neg (not_le.mpr hBelow), BlockHeaderBytes.tryFrom_toList]
  dsimp only
  rw [hRebuilt]
  dsimp only [withAsert]
  rw [← hDifficulty]
  rfl

/- Wherever it stops, an honest replay can be resumed. -/
theorem Follows.resume (hPair : Function.Injective2 (sha256dPair : H → H → H))
    (hRoundTrips : codec.RoundTrips) (hWrites : WritesRecordsOf codec chain origin)
    (hHonest : HonestChain origin.network origin.target origin.anchors chain)
    (hFollows : Follows chain origin count replay) (hSome : 0 < count)
    (hBelow : count ≤ origin.target.height.toNat) :
    ∃ json,
    replay.encode codec = .ok json ∧
      restore codec json replay.network replay.target replay.anchors replay.budget =
        .ok replay.reopened := by
  have hTarget := origin.target.height.toNat_lt
  have hTerms := hFollows.terms
  have hRun := hFollows.run
  have hWord : count - 1 < 2 ^ 32 := by omega
  have hHeight : (UInt32.ofNat (count - 1)).toNat = count - 1 := UInt32.toNat_ofNat_of_lt hWord
  have hTip : replay.staged.tipHeight = .ok (UInt32.ofNat (count - 1)) := by
    apply tipHeight_of_leafCount
    have hLeaves : replay.staged.accumulator.leafCount = count := hFollows.leafCount
    rw [hLeaves, hHeight]
    omega
  have hReachable : Reachable replay.staged ([] ++ (chain.take count).map headerLeaf) :=
    .extend (.withAsert _ _ (.empty .selfDerived)) (extend_eq_ok_iff.mpr hFollows.staged)
  have hDistinct : ([] ++ (chain.take count).map (headerLeaf (H := H))).Nodup := by
    rw [List.nil_append]
    apply List.Sublist.nodup _ hHonest.distinct
    exact (List.take_sublist count chain).map _
  have hRestores := hReachable.tipRestores hPair hDistinct
  have hNonempty : ([] ++ (chain.take count).map (headerLeaf (H := H))) ≠ [] := by
    intro hNil
    have hNone := congrArg List.length hNil
    rw [List.nil_append, List.length_map, List.length_take, min_eq_left hFollows.within,
      List.length_nil] at hNone
    omega
  rcases hRestores.tip hNonempty with ⟨header, hContext⟩
  have hShort : UInt32.ofNat (count - 1) < origin.target.height := by
    rw [UInt32.lt_iff_toNat_lt, hHeight]
    omega
  rcases hWrites count replay _ header hFollows hShort hTip hContext.lastHeader with
    ⟨json, hWritten, hSize⟩
  refine ⟨json, encode_of_record hTip hContext.lastHeader hWritten, ?_⟩
  apply restore_of_record hTip hContext hRun.provenance _ _ (hRoundTrips _ _ hWritten) hSize
  · rw [hTerms.network]
    exact hRun.difficulty
  · rw [hTerms.target]
    exact hShort

--- Progress

/- What a host holds while it drives an honest replay. -/
inductive OnCourse (chain : List BlockHeaderBytes) (origin : HistoricalReplay H) :
    HostState H → Prop where
  | waiting {fromHeight : UInt32} {replay : HistoricalReplay H} {count : Nat}
      (hFollows : Follows chain origin count replay)
      (hUnfinished : replay.finished = false)
      (hBelow : count ≤ origin.target.height.toNat)
      (hSitting : replay.batchesSeen = 0 ∨ 0 < count) :
      OnCourse chain origin { step := .needHeaders fromHeight, replay }
  | stopped {nextHeight headersSeen : UInt32} {replay : HistoricalReplay H} {count : Nat}
      (hFollows : Follows chain origin count replay)
      (hBelow : count ≤ origin.target.height.toNat)
      (hSome : 0 < count) :
      OnCourse chain origin
        { step := .incomplete (.budgetExhausted nextHeight headersSeen), replay }
  | done {matched : UInt64} {replay : HistoricalReplay H} :
      OnCourse chain origin { step := .authenticated origin.target.height matched, replay }

omit [Hash32 H] [DecidableEq H] in
def IsDone (origin : HistoricalReplay H) (host : HostState H) : Prop :=
  ∃ matched, host.step = .authenticated origin.target.height matched

/-
  Headers to go, and the turns until the next of them: a sitting without batches left first stops
  and then resumes.
-/
def rank (origin : HistoricalReplay H) (host : HostState H) : Nat :=
  3 * (origin.target.height.toNat + 1 - host.replay.leafCount) +
    match host.step with
    | .needHeaders _ =>
      if host.replay.batchesSeen < origin.budget.maxBatches then 0 else 2
    | .incomplete _ => 1
    | _ => 0

section

variable (hPair : Function.Injective2 (sha256dPair : H → H → H)) (hRoundTrips : codec.RoundTrips)
variable (hWrites : WritesRecordsOf codec chain origin)
variable (hHonest : HonestChain origin.network origin.target origin.anchors chain)
variable (hCovered : origin.target.height < origin.budget.maxHeaders)
variable (hBatches : 1 ≤ origin.budget.maxBatches) (hCourse : OnCourse chain origin host)
variable (hSize : 0 < size)
include hPair hRoundTrips hWrites hHonest hCovered hBatches hCourse hSize

/- Step: every turn leads on. -/
theorem OnCourse.turn (hGoing : ¬ IsDone origin host) :
    ∃ next,
    host.turn codec chain size = some next ∧ OnCourse chain origin next ∧
      (IsDone origin next ∨ rank origin next < rank origin host) := by
  have hTarget := origin.target.height.toNat_lt
  have hOne : (1 : UInt32).toNat = 1 := rfl
  cases hCourse with
  | @waiting fromHeight replay count hFollows hUnfinished
      hBelow hSitting =>
      have hTerms := hFollows.terms
      have hLeaves := hFollows.leafCount
      by_cases hLeft : replay.batchesSeen < origin.budget.maxBatches
      · rcases
            hFollows.feed hHonest hCovered hUnfinished hBelow
              (by rw [hTerms.budget]; exact hLeft) hSize with
          ⟨gained, step, next, hFeed, hGained, hNext, hAnswer⟩
        refine ⟨{ step, replay := next }, ?_, ?_⟩
        · unfold HostState.turn
          dsimp only
          rw [hFeed]
          rfl
        · cases hAnswer with
          | more hOpen hShort =>
            refine ⟨.waiting hNext hOpen hShort (Or.inr (by omega)), Or.inr ?_⟩
            unfold rank
            dsimp only
            rw [if_pos hLeft, hLeaves, hNext.leafCount]
            split
            · omega
            · omega
          | @authenticated matched => exact ⟨.done, Or.inl ⟨matched, rfl⟩⟩
      · have hSpent : replay.budget.maxBatches ≤ replay.batchesSeen := by
          rw [hTerms.budget]
          exact not_lt.mp hLeft
        have hSome : 0 < count := by
          rcases hSitting with hFresh | hSome
          · rw [hFresh] at hLeft
            rw [UInt32.lt_iff_toNat_lt] at hLeft
            rw [UInt32.le_iff_toNat_le, hOne] at hBatches
            exact absurd hBatches hLeft
          · exact hSome
        have hNonempty : replay.nextBatch chain size ≠ [] := by
          have hLength := hHonest.length
          rw [(hFollows.nextBatch (by omega) size).2]
          intro hNil
          have hNone := congrArg List.length hNil
          rw [List.length_take, List.length_drop, List.length_nil] at hNone
          omega
        have hStopped :
            OnCourse chain origin
              { step := .incomplete (.budgetExhausted replay.nextHeight replay.headersSeen)
                replay := replay.finish } :=
          .stopped (hFollows.sitting _ true) hBelow hSome
        refine ⟨_, ?_, hStopped, Or.inr ?_⟩
        · unfold HostState.turn
          dsimp only
          rw [feed_exhausted hUnfinished hNonempty (Or.inl hSpent)]
          rfl
        · unfold rank
          dsimp only
          rw [if_neg hLeft]
          have hKept : replay.finish.leafCount = replay.leafCount := rfl
          rw [hKept]
          omega
  | @stopped nextHeight headersSeen replay count hFollows
      hBelow hSome =>
      rcases hFollows.resume hPair hRoundTrips hWrites hHonest hSome hBelow with
        ⟨json, hEncode, hRestore⟩
      have hWaiting : OnCourse chain origin replay.reopened.started :=
        .waiting (hFollows.sitting 0 false) rfl hBelow (Or.inl rfl)
      refine ⟨_, ?_, hWaiting, Or.inr ?_⟩
      · unfold HostState.turn HistoricalReplay.resume
        dsimp only
        rw [hEncode]
        dsimp only
        rw [hRestore]
        rfl
      · have hFresh : (0 : UInt32) < origin.budget.maxBatches := by
          rw [UInt32.lt_iff_toNat_lt]
          rw [UInt32.le_iff_toNat_le, hOne] at hBatches
          exact hBatches
        have hSitting : replay.reopened.batchesSeen < origin.budget.maxBatches := hFresh
        have hKept : replay.reopened.leafCount = replay.leafCount := rfl
        unfold rank started
        dsimp only
        rw [if_pos hSitting, hKept]
        omega
  | done => exact absurd ⟨_, rfl⟩ hGoing

theorem OnCourse.keeps {next : HostState H} (hTurn : host.turn codec chain size = some next) :
    OnCourse chain origin next := by
  by_cases hDone : IsDone origin host
  · rcases hDone with ⟨matched, hStep⟩
    unfold HostState.turn at hTurn
    rw [hStep] at hTurn
    cases hTurn
    exact hCourse
  · rcases hCourse.turn hPair hRoundTrips hWrites hHonest hCovered hBatches hSize hDone with
      ⟨other, hOther, hKept, -⟩
    rw [hTurn] at hOther
    cases hOther
    exact hKept

end

/- A replay that has just begun is on course. -/
theorem onCourse_begin {network : Network} {target : AcceptedCommitment H}
    (hBegin : HistoricalReplay.begin network target anchors budget = .ok origin)
    (chain : List BlockHeaderBytes) : OnCourse chain origin origin.started := by
  have hOrigin := begin_eq_ok hBegin
  have hFollows : Follows chain origin 0 origin := by
    rw [hOrigin]
    exact ⟨⟨rfl, rfl, rfl, rfl⟩, Nat.zero_le _, rfl, rfl, rfl⟩
  have hOpen : origin.finished = false := by rw [hOrigin]
  have hSitting : origin.batchesSeen = 0 := by rw [hOrigin]
  exact .waiting hFollows hOpen (Nat.zero_le _) (Or.inl hSitting)

/-
  A replay of an honest chain resumes with progress after every stop, and completes, exactly when
  its header budget covers all headers of the chain.
-/
theorem resumption_progress_iff (hPair : Function.Injective2 (sha256dPair : H → H → H))
    {codec : SerdeJson (ReplayResume H)} (hRoundTrips : codec.RoundTrips) {network : Network}
    {target : AcceptedCommitment H} {anchors : BTreeMap UInt32 H} {budget : ReplayBudget}
    {chain : List BlockHeaderBytes} (hHonest : HonestChain network target anchors chain)
    {origin : HistoricalReplay H}
    (hBegin : HistoricalReplay.begin network target anchors budget = .ok origin)
    (hWrites : WritesRecordsOf codec chain origin) (hBatches : 1 ≤ budget.maxBatches) :
    (ResumesWithProgress codec chain origin ∧ Completes codec chain origin) ↔
    target.height < budget.maxHeaders := by
  have hOrigin := begin_eq_ok hBegin
  have hTarget : origin.target = target := by rw [hOrigin]
  have hBudget : origin.budget = budget := by rw [hOrigin]
  have hStart := onCourse_begin hBegin chain
  constructor
  · intro hProgress
    by_contra hFar
    have hCounted : Counted origin := by
      rw [hOrigin]
      exact ⟨rfl, Nat.zero_le _⟩
    apply not_completes hRoundTrips hCounted _ hProgress.2
    rw [hTarget, hBudget]
    exact not_lt.mp hFar
  · intro hCovered
    rw [← hBudget] at hBatches hCovered
    rw [← hTarget] at hCovered
    have hChain : HonestChain origin.network origin.target origin.anchors chain := by
      rw [hOrigin]
      exact hHonest
    constructor
    · intro sizes host nextHeight headersSeen hSizes hTurns hStep
      have hCourse :=
        RankedRuns.foldlM_keeps
          (fun host size next hCourse hSize hTurn =>
            hCourse.keeps hPair hRoundTrips hWrites hChain hCovered hBatches hSize hTurn) hSizes
          hStart hTurns
      cases hCourse with
      | waiting hFollows hOpen hBelow hSitting => cases hStep
      | done => cases hStep
      | @stopped _ _ replay count hFollows hBelow hSome =>
        rcases hFollows.resume hPair hRoundTrips hWrites hChain hSome hBelow with
          ⟨json, hEncode, hRestore⟩
        refine ⟨json, replay.reopened, hEncode, hRestore, ?_⟩
        intro size hSize
        have hResumed : Follows chain origin count replay.reopened := hFollows.sitting 0 false
        have hFresh : replay.reopened.batchesSeen < replay.reopened.budget.maxBatches := by
          rw [hResumed.terms.budget, UInt32.lt_iff_toNat_lt]
          rw [UInt32.le_iff_toNat_le] at hBatches
          exact hBatches
        rcases hResumed.feed hChain hCovered rfl hBelow hFresh hSize with
          ⟨gained, step, next, hFeed, hGained, hNext, -⟩
        refine ⟨step, next, hFeed, ?_⟩
        rw [hResumed.leafCount, hNext.leafCount]
        omega
    · intro sizes hSizes
      rcases RankedRuns.exists_done
        (fun host size hCourse hSize hGoing =>
          hCourse.turn hPair hRoundTrips hWrites hChain hCovered hBatches hSize hGoing) hStart
        hSizes with ⟨rounds, ⟨step, replay⟩, hTurns, -, matched, hStep⟩
      cases hStep
      exact ⟨rounds, matched, replay, hTurns⟩

--- Two Headers

open ShvMmrHeaderVerifier (ResumedHash resumedHeader resumedNext resumedFields)

/- The record of a replay that was fed the first header. -/
def resumedOnceRecord : ReplayResume ResumedHash := { resumedRecord with headersSeen := 1 }

def resumedOnceJson : String :=
  "\x7b" ++ resumedFields ++
  ",\"headers_seen\":1,\"anchors_matched\":0\x7d"

def resumedOnceCodec : SerdeJson (ReplayResume ResumedHash) :=
  .single resumedOnceRecord resumedOnceJson

theorem honestChain_resumed :
    HonestChain .regtest resumedTarget .new [resumedHeader, resumedNext] := by
  have hRun :
      ∃ final : ShvMmrHeaderVerifier ResumedHash,
      [resumedHeader, resumedNext].foldlM extendOne (stagedVerifier .regtest) = .ok final ∧
        final.accumulator.root = resumedTarget.commitment :=
    exists_ok_of_check (by decide +kernel)
  rcases hRun with ⟨final, hFold, hRoot⟩
  refine ⟨rfl, by decide +kernel, ⟨final, ?_, hRoot⟩, ?_⟩
  · exact extend_eq_ok_iff.mpr hFold
  · intro height expected header hAnchor
    cases hAnchor

/- The codec writes the one record that this chain needs. -/
theorem writesRecordsOf_resumed {origin : HistoricalReplay ResumedHash}
    (hBegin : HistoricalReplay.begin .regtest resumedTarget .new budget = .ok origin) :
    WritesRecordsOf resumedOnceCodec [resumedHeader, resumedNext] origin := by
  intro count replay height header hFollows hBelow hTip hHeader
  rw [begin_eq_ok hBegin] at hFollows hBelow
  have hOne : count = 1 := by
    have hCount := hFollows.leafCount
    have hLeaves := tipHeight_eq_ok hTip
    have hLimit : height.toNat < 1 := hBelow
    unfold HistoricalReplay.leafCount at hCount
    omega
  subst hOne
  have hZero : height = 0 := by
    apply UInt32.toNat_inj.mp
    have hLimit : height.toNat < 1 := hBelow
    have hNone : (0 : UInt32).toNat = 0 := rfl
    omega
  have hRun :
      ∃ staged : ShvMmrHeaderVerifier ResumedHash,
      [resumedHeader].foldlM extendOne (stagedVerifier .regtest) = .ok staged ∧
        staged.lastHeader = some resumedHeader ∧
        staged.accumulator.root = headerLeaf resumedHeader ∧
        staged.lastLeafProof = [] :=
    exists_ok_of_check (by decide +kernel)
  rcases hRun with ⟨staged, hFold, hLast, hRoot, hProof⟩
  have hStaged : replay.staged = staged := by
    have hSame := hFollows.staged
    exact Except.ok.inj (hSame.symm.trans hFold)
  have hSeen : replay.headersSeen = 1 := UInt32.toNat_inj.mp hFollows.headersSeen
  have hMatched : replay.anchorsMatched = 0 := (congrArg Prod.snd hFollows.anchorsMatched).symm
  have hNetwork : replay.network = .regtest := hFollows.terms.network
  have hRecord : replay.resumeRecord height header = resumedOnceRecord := by
    rw [hStaged, hLast] at hHeader
    cases hHeader
    unfold resumeRecord
    rw [hStaged, hRoot, hProof, hSeen, hMatched, hNetwork, hZero]
    rfl
  refine ⟨resumedOnceJson, ?_, by decide +kernel⟩
  rw [hRecord]
  exact SerdeJson.single_toString _ _

/- A budget of both headers is resumed once and completes. -/
theorem resumption_completes_two_headers :
    ∃ origin : HistoricalReplay ResumedHash,
      HistoricalReplay.begin .regtest resumedTarget .new { maxHeaders := 2, maxBatches := 1 } =
        .ok origin ∧
        ResumesWithProgress resumedOnceCodec [resumedHeader, resumedNext] origin ∧
        Completes resumedOnceCodec [resumedHeader, resumedNext] origin := by
  have hRun :
      ∃ origin : HistoricalReplay ResumedHash,
        HistoricalReplay.begin .regtest resumedTarget .new { maxHeaders := 2, maxBatches := 1 } =
          .ok origin ∧ True :=
    exists_ok_of_check (by decide +kernel)
  rcases hRun with ⟨origin, hBegin, -⟩
  refine ⟨origin, hBegin, ?_⟩
  exact (resumption_progress_iff RecordedHash.pair_injective
      (SerdeJson.single_roundTrips resumedOnceRecord resumedOnceJson)
      honestChain_resumed hBegin
      (writesRecordsOf_resumed hBegin) (by decide)).mpr
      (by decide)

/-
  A budget of one header stops after the first of them, and again at once after every resumption.
-/
theorem resumption_stalls_after_first_header :
    HonestChain .regtest resumedTarget .new [resumedHeader, resumedNext] ∧
      ∃ origin : HistoricalReplay ResumedHash,
        HistoricalReplay.begin .regtest resumedTarget .new { maxHeaders := 1, maxBatches := 1 } =
          .ok origin ∧
          WritesRecordsOf resumedOnceCodec [resumedHeader, resumedNext] origin ∧
          ¬ ResumesWithProgress resumedOnceCodec [resumedHeader, resumedNext] origin ∧
          ¬ Completes resumedOnceCodec [resumedHeader, resumedNext] origin := by
  have hRoundTrips := SerdeJson.single_roundTrips resumedOnceRecord resumedOnceJson
  have hRun :
      ∃ origin : HistoricalReplay ResumedHash,
        HistoricalReplay.begin .regtest resumedTarget .new { maxHeaders := 1, maxBatches := 1 } =
          .ok origin ∧
          (HostState.turns resumedOnceCodec [resumedHeader, resumedNext] [1] origin.started).map
              (fun host => (host.step, host.replay.headersSeen)) =
            some (.incomplete (.budgetExhausted 1 1), 1) :=
    exists_ok_of_check (by decide +kernel)
  rcases hRun with ⟨origin, hBegin, hTurns⟩
  have hOrigin := begin_eq_ok hBegin
  have hCounted : Counted origin := by
    rw [hOrigin]
    exact ⟨rfl, Nat.zero_le _⟩
  have hFar : origin.budget.maxHeaders ≤ origin.target.height := by
    rw [hOrigin]
    decide
  refine ⟨honestChain_resumed, origin, hBegin, writesRecordsOf_resumed hBegin, ?_,
    not_completes hRoundTrips hCounted hFar⟩
  intro hProgress
  rcases Option.map_eq_some_iff.mp hTurns with ⟨host, hHost, hStopped⟩
  rcases Prod.mk.inj hStopped with ⟨hStep, hSeen⟩
  have hStart : Beyond origin origin.started := by
    refine ⟨hCounted, ⟨rfl, rfl, rfl, rfl⟩, ?_⟩
    intro through matched hStep
    cases hStep
  have hAny : ∀ size ∈ [1], 0 < size := by decide
  have hBeyond :=
    RankedRuns.foldlM_keeps
      (fun host size next hBeyond _ hTurn => hBeyond.turn hRoundTrips hFar hTurn) hAny hStart hHost
  rcases hProgress [1] host 1 1 hAny hHost hStep with ⟨json, resumed, hEncode, hRestore, hFeeds⟩
  have hResume : host.replay.resume resumedOnceCodec = some resumed := by
    unfold HistoricalReplay.resume
    rw [hEncode]
    dsimp only
    rw [hRestore]
  have hSpent : host.replay.budget.maxHeaders ≤ host.replay.headersSeen := by
    rw [hBeyond.terms.budget, hSeen, hOrigin]
  rcases hFeeds 1 Nat.one_pos with ⟨step, next, hFeed, hGained⟩
  have hStalled := hBeyond.counted.resumed_stalls hRoundTrips hSpent hResume hFeed
  omega

end HistoricalReplay

end OptnWallet
