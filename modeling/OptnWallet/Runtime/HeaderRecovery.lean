import OptnWallet.Library.BTreeMap
import OptnWallet.Runtime.HeaderVerifier

/-
  Replaying history that is no longer retained: a staged verifier is rebuilt from genesis, or from
  a resume record that is not trusted, and believed only when it reproduces the commitment that
  the host holds.

  Arithmetic on 32-bit words wraps, as in a release build.

  Main declarations:
    * `HistoricalReplay.begin`
    * `HistoricalReplay.feed`
    * `HistoricalReplay.encode` and `restore`
-/

--- Targets, Budgets And Answers

namespace OptnWallet

open StagedUpdate

structure AcceptedCommitment (H : Type) where
  height : UInt32
  commitment : H
deriving DecidableEq

structure ReplayBudget where
  maxHeaders : UInt32
  maxBatches : UInt32
deriving DecidableEq

inductive IncompleteReplay where
  | budgetExhausted (nextHeight headersSeen : UInt32)
  | cancelled (nextHeight headersSeen : UInt32)
  | sourceExhausted (nextHeight headersSeen : UInt32)
deriving DecidableEq

inductive DivergenceReason (H : Type) where
  | anchorMismatch (height : UInt32) (expected found : H)
  | commitmentMismatch (height : UInt32) (expected found : H)
  | verification (error : ShvMmrError H)
deriving DecidableEq

inductive ReplayStep (H : Type) where
  | needHeaders (fromHeight : UInt32)
  | authenticated (throughHeight : UInt32) (anchorsMatched : UInt64)
  | incomplete (reason : IncompleteReplay)
  | diverged (reason : DivergenceReason H)
deriving DecidableEq

inductive ReplayError (H : Type) where
  | missingDifficultyContext
  | targetTooLow (height : UInt32)
  | anchorOutsideTarget (height : UInt32)
  | invalidResumeRecord
  | verification (error : ShvMmrError H)
deriving DecidableEq

structure ReplayResume (H : Type) where
  schema : UInt32
  network : String
  height : UInt32
  commitment : H
  header : List UInt8
  proof : List H
  headersSeen : UInt32
  anchorsMatched : UInt64
deriving DecidableEq

def resumeSchema : UInt32 := 1

def maxResumeBytes : Nat := 64 * 1024

--- Replay State

structure HistoricalReplay (H : Type) where
  network : Network
  staged : ShvMmrHeaderVerifier H
  target : AcceptedCommitment H
  anchors : BTreeMap UInt32 H
  budget : ReplayBudget
  headersSeen : UInt32
  batchesSeen : UInt32
  anchorsMatched : UInt64
  finished : Bool

variable {H : Type} [Hash32 H]

namespace HistoricalReplay

omit [Hash32 H] in
/- An empty accumulator under the network's difficulty rule. -/
def stagedVerifier (network : Network) : ShvMmrHeaderVerifier H :=
  (ShvMmrHeaderVerifier.empty .selfDerived).withAsert (.forNetwork network) (.forNetwork network)

omit [Hash32 H] in
def begin (network : Network) (target : AcceptedCommitment H) (anchors : BTreeMap UInt32 H)
    (budget : ReplayBudget) : Except (ReplayError H) (HistoricalReplay H) :=
  if target.height = 0 then .error (.targetTooLow target.height)
  else
    match anchors.lastKey?.filter
        (fun height => target.height ≤ height) with
    | some height => .error (.anchorOutsideTarget height)
    | none =>
      let staged := stagedVerifier network
      if !staged.hasDifficultyContext then .error .missingDifficultyContext
      else .ok
          { network
            staged
            target
            anchors
            budget
            headersSeen := 0
            batchesSeen := 0
            anchorsMatched := 0
            finished := false }

/- The height the replay wants next. -/
def nextHeight (self : HistoricalReplay H) : UInt32 :=
  match self.staged.state with
  | .ok state => Word32.saturatingAdd state.height 1
  | .error _ => 0

omit [Hash32 H] in
def finish (self : HistoricalReplay H) : HistoricalReplay H := { self with finished := true }

/- Stop without an answer. -/
def cancel (self : HistoricalReplay H) : ReplayStep H × HistoricalReplay H :=
  (.incomplete (.cancelled self.finish.nextHeight self.headersSeen), self.finish)

--- Feeding Headers

/- Headers up to and including the target. -/
def wanted (self : HistoricalReplay H) : UInt32 := self.target.height - self.nextHeight + 1

omit [Hash32 H] in
def remainingBudget (self : HistoricalReplay H) : UInt32 :=
  self.budget.maxHeaders - self.headersSeen

/- How many headers of a batch are replayed. -/
def take (self : HistoricalReplay H) (headers : List BlockHeaderBytes) : Nat :=
  min (min headers.length self.wanted.toNat) self.remainingBudget.toNat

/- Compare the anchors of a batch that starts at `height`. -/
def matchAnchors [DecidableEq H] (self : HistoricalReplay H) :
    UInt32 → List BlockHeaderBytes → Outcome (DivergenceReason H) (HistoricalReplay H)
  | _, [] => (.ok (), self)
  | height, header :: headers =>
    match self.anchors.get? height with
    | none => self.matchAnchors (height + 1) headers
    | some expected =>
      let found := headerLeaf header
      if found ≠ expected then (.error (.anchorMismatch height expected found), self)
      else matchAnchors { self with anchorsMatched := self.anchorsMatched + 1 } (height + 1) headers

section

variable (self : HistoricalReplay H)

/- Judge the height and the commitment that were reached. -/
def judgeTip [DecidableEq H] : ReplayStep H × HistoricalReplay H :=
  match self.staged.state with
  | .error e => (.diverged (.verification e), self.finish)
  | .ok state =>
    if state.height < self.target.height then
      if self.budget.maxHeaders ≤ self.headersSeen then
        (.incomplete (.budgetExhausted self.finish.nextHeight self.headersSeen), self.finish)
      else (.needHeaders self.nextHeight, self)
    else if state.commitment ≠ self.target.commitment then
      (.diverged (.commitmentMismatch self.target.height self.target.commitment state.commitment),
        self.finish)
    else (.authenticated self.target.height self.anchorsMatched, self.finish)

/-
  Replay a batch that lies within the target and the budget; `none` is the abort of the verifier.
-/
def replayBatch [DecidableEq H] (start : UInt32)
    (batch : List BlockHeaderBytes) : Option (ReplayStep H × HistoricalReplay H) :=
  match self.staged.extend batch with
  | (.error .aborted, _) => none
  | (.error (.returned e), staged) =>
    let self := { self with staged }
    some (.diverged (.verification e), self.finish)
  | (.ok (), staged) =>
    let self :=
      { self with
        staged
        headersSeen := Word32.saturatingAdd self.headersSeen (UInt32.ofNat batch.length) }
    match self.matchAnchors start batch with
    | (.error reason, self) => some (.diverged reason, self.finish)
    | (.ok (), self) => some self.judgeTip

/- Judge one batch of acquired headers. -/
def feed [DecidableEq H] (headers : List BlockHeaderBytes) :
    Option (ReplayStep H × HistoricalReplay H) :=
  if self.finished then some (.incomplete (.cancelled self.nextHeight self.headersSeen), self)
  else
    let start := self.nextHeight
    if headers.isEmpty then
      some (.incomplete (.sourceExhausted start self.headersSeen), self.finish)
    else if self.budget.maxBatches ≤ self.batchesSeen ∨
        self.budget.maxHeaders ≤ self.headersSeen then
      some (.incomplete (.budgetExhausted start self.headersSeen), self.finish)
    else
      let batch := headers.take (self.take headers)
      let self := { self with batchesSeen := Word32.saturatingAdd self.batchesSeen 1 }
      self.replayBatch start batch

end

--- Resuming

/- Write resume material. -/
def encode (codec : SerdeJson (ReplayResume H)) (self : HistoricalReplay H) :
    Except (ReplayError H) String :=
  match self.staged.state with
  | .error e => .error (.verification e)
  | .ok state =>
    match self.staged.tipCheckpointProof with
    | none => .error (.verification .emptyAccumulator)
    | some (header, proof) =>
      let record :=
        { schema := resumeSchema
          network := self.network.toString
          height := state.height
          commitment := state.commitment
          header := header.bytes.toList
          proof
          headersSeen := self.headersSeen
          anchorsMatched := self.anchorsMatched }
      match codec.toString record with
      | none => .error .invalidResumeRecord
      | some json => .ok json

/-
  Continue from resume material; target and anchors come from the caller again.
-/
def restore [DecidableEq H] (codec : SerdeJson (ReplayResume H)) (json : String) (network : Network)
    (target : AcceptedCommitment H) (anchors : BTreeMap UInt32 H) (budget : ReplayBudget) :
    Except (ReplayError H) (HistoricalReplay H) :=
  if maxResumeBytes < json.utf8ByteSize then .error .invalidResumeRecord
  else
    match codec.fromStr json with
    | none => .error .invalidResumeRecord
    | some record =>
      if record.schema ≠ resumeSchema ∨
          record.network ≠ network.toString ∨
          32 < record.proof.length then
        .error .invalidResumeRecord
      else if target.height ≤ record.height then .error .invalidResumeRecord
      else
        match BlockHeaderBytes.tryFrom record.header with
        | none => .error .invalidResumeRecord
        | some header =>
          match ShvMmrHeaderVerifier.fromCheckpointProof record.height header record.proof
              record.commitment .selfDerived with
          | .error e => .error (.verification e)
          | .ok staged => .ok
              { network
                staged := staged.withAsert (.forNetwork network) (.forNetwork network)
                target
                anchors
                budget
                headersSeen := record.headersSeen
                batchesSeen := 0
                anchorsMatched := record.anchorsMatched
                finished := false }

end HistoricalReplay

end OptnWallet
