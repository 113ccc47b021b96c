import OptnWallet.Runtime.HeaderRecovery.Batches

/-
  A replay is believed only for the history that was accepted.

  Whatever record a replay was restored from, an answer that authenticates it means that the
  headers replayed since make the accumulator of the target out of the one it started from.
  Without collisions that accumulator was already the chain's, and the headers are the rest of the
  chain.

  Main declarations:
    * `HistoricalReplay.Reproduces`
    * `HistoricalReplay.replay_sound`
-/

--- Authenticated Replays

namespace OptnWallet

open StagedUpdate

open MmrAccumulator MerkleTree

variable {H : Type} [Hash32 H] [DecidableEq H]

namespace HistoricalReplay

/-
  A replay that reproduces its target: the replayed headers extend `start` to the committed height
  and root, and on any chain with that root they are what follows `start`.
-/
structure Reproduces (start : MmrAccumulator H) (fed : List BlockHeaderBytes)
    (replay : HistoricalReplay H) : Prop where
  accumulator : start.extendAll (fed.map headerLeaf) = some replay.staged.accumulator
  height : replay.staged.tipHeight = .ok replay.target.height
  root : replay.staged.accumulator.root = replay.target.commitment
  tip : replay.staged.lastHash = (fed.map headerLeaf).getLast?
  chain :
    ∀ chain : List H,
    chain.length = replay.target.height.toNat + 1 →
      merkleRoot sha256dPair chain = some replay.target.commitment →
      Represents start (chain.take start.leafCount) ∧
        fed.map headerLeaf = chain.drop start.leafCount

/- The words that a batch is measured with do not underflow. -/
structure InRange (replay : HistoricalReplay H) : Prop where
  start : replay.nextHeight ≤ replay.target.height
  wanted : replay.wanted.toNat = (replay.target.height.toNat - replay.nextHeight.toNat + 1) % 2 ^ 32
  remaining :
    replay.headersSeen < replay.budget.maxHeaders →
    replay.remainingBudget.toNat = replay.budget.maxHeaders.toNat - replay.headersSeen.toNat

variable {start : MmrAccumulator H} {fed : List BlockHeaderBytes} {replay : HistoricalReplay H}

omit [DecidableEq H] in
theorem Staged.active (hStaged : Staged start fed replay) (hUnfinished : replay.finished = false) :
    Active replay := ⟨hStaged.current, hUnfinished, hStaged.unfinished hUnfinished⟩

omit [DecidableEq H] in
theorem Active.inRange (hActive : Active replay) : InRange replay := by
  have hWord := replay.target.height.toNat_lt
  have hBelow := hActive.below
  rcases wanted_toNat hBelow with ⟨hStart, hWanted⟩
  refine ⟨hStart, ?_, remainingBudget_toNat⟩
  rw [nextHeight_toNat (by omega)]
  exact hWanted

/- A reachable replay answers every batch. -/
theorem Staged.feed_isSome (hStaged : Staged start fed replay) (headers : List BlockHeaderBytes) :
    (replay.feed headers).isSome := by
  unfold HistoricalReplay.feed
  by_cases hFinished : replay.finished = true
  · rw [if_pos hFinished]
    rfl
  rw [if_neg hFinished]
  dsimp only
  split
  · rfl
  split
  · rfl
  have hBelow := hStaged.unfinished (Bool.eq_false_iff.mpr hFinished)
  have hTake := take_le headers hBelow
  have hWord := replay.target.height.toNat_lt
  have hLength : (headers.take (replay.take headers)).length = replay.take headers := by
    rw [List.length_take, min_eq_left hTake.1]
  have hRoom :
      replay.staged.accumulator.leafCount + (headers.take (replay.take headers)).length <
        2 ^ 64 := by
    rw [hLength]
    unfold leafCount at hTake
    omega
  have hNotAborted := ShvMmrHeaderVerifier.extend_not_aborted hStaged.current hRoom
  unfold replayBatch
  dsimp only
  split
  · rename_i hExtend
    rw [hExtend] at hNotAborted
    exact absurd rfl hNotAborted
  · rfl
  · split
    · rfl
    · rfl

/- What an authenticating answer says. -/
theorem Staged.reproduces (hPair : Function.Injective2 (sha256dPair : H → H → H))
    {next : HistoricalReplay H} (hStaged : Staged start fed replay)
    {headers : List BlockHeaderBytes} {through : UInt32} {matched : UInt64}
    (hFeed : replay.feed headers = some (.authenticated through matched, next)) :
    through = replay.target.height ∧ Reproduces start (fed ++ fedBy replay next headers) next := by
  have hNext := hStaged.feed hFeed
  rcases feed_cases hFeed with hStopped | hAdvanced
  · exact absurd rfl (hStopped.unanswered through matched)
  rcases hAdvanced.authenticated through matched rfl with ⟨hThrough, hRoot, height, hTip, hReached⟩
  have hBelow := hStaged.unfinished hAdvanced.active
  have hRun := (hAdvanced.run hBelow).1
  have hWithin := hNext.within
  have hCount : next.leafCount = height.toNat + 1 := ShvMmrHeaderVerifier.tipHeight_eq_ok hTip
  rw [UInt32.le_iff_toNat_le] at hReached
  rw [hAdvanced.target] at hWithin
  have hHeight : height = replay.target.height := by
    apply UInt32.toNat_inj.mp
    omega
  have hGained : fedBy replay next headers ≠ [] := by
    intro hNone
    have hLeaves := hRun.leafCount
    rw [hNone, List.length_nil] at hLeaves
    have hSame : next.leafCount = replay.leafCount := hLeaves
    omega
  refine ⟨hThrough, hNext.accumulator, ?_, ?_, ?_, ?_⟩
  · rw [hAdvanced.target, ← hHeight]
    exact hTip
  · rw [hAdvanced.target]
    exact hRoot
  · rcases List.eq_nil_or_concat' (fedBy replay next headers) with hNone | ⟨front, last, hSplit⟩
    · exact absurd hNone hGained
    · rcases hRun.last front last hSplit with ⟨-, -, -, hLast, -⟩
      rw [hLast, hSplit, ← List.append_assoc, List.map_append, List.map_singleton,
        List.getLast?_concat]
  · intro chain hLength hChain
    rw [hAdvanced.target] at hLength hChain
    apply chain_of_root hPair hStaged.shaped hNext.accumulator
    · rw [hLength, ← hHeight]
      exact hCount
    · rw [hRoot]
      exact hChain

/-
  Over every interleaving of calls: a replay answers every batch, never passes its target,
  reproduces its target when it says so, and answers alike however non-empty batches are cut,
  while its batch budget lasts.
-/
theorem replay_sound (hPair : Function.Injective2 (sha256dPair : H → H → H))
    {codec : SerdeJson (ReplayResume H)} (hRoundTrips : codec.RoundTrips) {start : MmrAccumulator H}
    {fed : List BlockHeaderBytes} {replay : HistoricalReplay H}
    (hReaches : Reaches codec start fed replay) :
    (∀ headers through matched next,
        replay.feed headers = some (.authenticated through matched, next) →
          through = replay.target.height ∧ Reproduces start (fed ++ fedBy replay next headers) next)
      ∧
    replay.leafCount ≤ replay.target.height.toNat + 1 ∧
    (replay.finished = false → InRange replay) ∧
    (∀ headers, (replay.feed headers).isSome) ∧
    ∀ batch batches,
      replay.finished = false →
        batch ≠ [] →
        (∀ other ∈ batches, other ≠ []) →
        replay.batchesSeen.toNat + (batches.length + 1) ≤ replay.budget.maxBatches.toNat →
        answered (replay.feedBatches batch batches) =
          answered (replay.feed (batch ++ batches.flatten)) := by
  have hStaged := hReaches.staged hPair hRoundTrips
  refine ⟨?_, hStaged.within, ?_, ?_, ?_⟩
  · intro headers through matched next hFeed
    exact hStaged.reproduces hPair hFeed
  · intro hUnfinished
    exact (hStaged.active hUnfinished).inRange
  · exact hStaged.feed_isSome
  · intro batch batches hUnfinished hFirst hRest hBudget
    exact (hStaged.active hUnfinished).feedBatches_answer hFirst hRest hBudget

--- Two Headers

open ShvMmrHeaderVerifier

/- The commitment to a chain of two mined headers. -/
def resumedTarget : AcceptedCommitment ResumedHash :=
  { height := 1, commitment := .node (headerLeaf resumedHeader) (headerLeaf resumedNext) }

/- The resume record of a replay of the first header. -/
def resumedRecord : ReplayResume ResumedHash :=
  { schema := 1
    network := "regtest"
    height := 0
    commitment := headerLeaf resumedHeader
    header := resumedHeader.bytes.toList
    proof := []
    headersSeen := 0
    anchorsMatched := 0 }

def resumedReplayJson : String :=
  "\x7b" ++ resumedFields ++
  ",\"headers_seen\":0,\"anchors_matched\":0\x7d"

def resumedCodec : SerdeJson (ReplayResume ResumedHash) := .single resumedRecord resumedReplayJson

/- A replay of both headers reproduces their commitment. -/
theorem replay_sound_two_headers :
    ∃ replay next : HistoricalReplay ResumedHash,
      HistoricalReplay.begin .regtest resumedTarget .new { maxHeaders := 10, maxBatches := 10 } =
        .ok replay ∧
        replay.feed [resumedHeader, resumedNext] = some (.authenticated 1 0, next) ∧
        Reproduces .new ([] ++ fedBy replay next [resumedHeader, resumedNext])
          next := by
  have hRun :
      ∃ replay : HistoricalReplay ResumedHash,
        HistoricalReplay.begin .regtest resumedTarget .new { maxHeaders := 10, maxBatches := 10 } =
          .ok replay ∧
          (replay.feed [resumedHeader, resumedNext]).map Prod.fst = some (.authenticated 1 0) :=
    exists_ok_of_check (by decide +kernel)
  rcases hRun with ⟨replay, hBegin, hStep⟩
  rcases Option.map_eq_some_iff.mp hStep with ⟨⟨step, next⟩, hFeed, rfl⟩
  have hSound :=
    (replay_sound RecordedHash.pair_injective
        (SerdeJson.single_roundTrips resumedRecord resumedReplayJson) (.begin hBegin)).1 _ _ _ _
      hFeed
  exact ⟨replay, next, hBegin, hFeed, hSound.2⟩

/-
  With a budget of one batch the same headers are believed in one piece and not in two.  The
  reason of a divergence can depend on the cut as well.  And a record from elsewhere can stand for
  headers that were never fed.
-/
theorem answer_depends_on_cuts_and_records :
    (∃ replay : HistoricalReplay ResumedHash,
      HistoricalReplay.begin .regtest resumedTarget .new { maxHeaders := 10, maxBatches := 1 } =
        .ok replay ∧
        (replay.feed [resumedHeader, resumedNext]).map Prod.fst = some (.authenticated 1 0) ∧
        (replay.feedBatches [resumedHeader] [[resumedNext]]).map Prod.fst =
          some (.incomplete (.budgetExhausted 1 1))) ∧
      (∃ replay : HistoricalReplay ResumedHash,
        HistoricalReplay.begin .regtest resumedTarget (.singleton 0 (.digest 0))
            { maxHeaders := 10, maxBatches := 10 } =
          .ok replay ∧
          (replay.feed [resumedHeader, resumedHeader]).map Prod.fst = some (.diverged
                (.verification (.header (.linkMismatch (headerLeaf resumedHeader) (.digest 0))))) ∧
          (replay.feedBatches [resumedHeader] [[resumedHeader]]).map Prod.fst =
            some (.diverged (.anchorMismatch 0 (.digest 0) (headerLeaf resumedHeader)))) ∧
      ∃ replay : HistoricalReplay ResumedHash,
        restore resumedCodec resumedReplayJson .regtest resumedTarget .new
            { maxHeaders := 10, maxBatches := 10 } =
          .ok replay ∧
          (replay.feed [resumedNext]).map Prod.fst = some (.authenticated 1 0) := by
  refine ⟨?_, ?_, ?_⟩
  · exact exists_ok_of_check (by decide +kernel)
  · exact exists_ok_of_check (by decide +kernel)
  · exact exists_ok_of_check (by decide +kernel)

end HistoricalReplay

end OptnWallet
