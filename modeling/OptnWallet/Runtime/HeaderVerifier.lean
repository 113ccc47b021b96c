import OptnWallet.Core.Asert
import OptnWallet.Core.HeaderMmr.Accumulator
import OptnWallet.Core.Text
import OptnWallet.Library.StagedUpdate
import OptnWallet.Library.Words

/-
  What providers and verifiers exchange about chains, and the header verifier of simplified header
  verification: the accumulator's peaks with the tip context that linkage and difficulty checks
  need.

  Main declarations:
    * `ShvMmrHeaderVerifier.fromCheckpointProof`
    * `ShvMmrHeaderVerifier.extend`
    * `ShvMmrHeaderVerifier.encodeCheckpointJson`
    * `ShvMmrHeaderVerifier.fromCheckpointJson`
-/

--- Checkpoints And Proofs

namespace OptnWallet

inductive CheckpointProvenance where
  | selfDerived
  | shippedReviewed
  | sampledIndependentSources
  | userProvided
deriving DecidableEq

structure HeaderAccumulatorState (H : Type) where
  height : UInt32
  peaks : List H
  commitment : H
deriving DecidableEq

structure HeaderCheckpoint (H : Type) where
  height : UInt32
  commitment : H
  provenance : CheckpointProvenance
deriving DecidableEq

structure HistoricalHeaderProof (H : Type) where
  height : UInt32
  header : BlockHeaderBytes
  proof : List H
  target : H
deriving DecidableEq

--- Failures

/- A call aborts on a broken internal invariant, or it returns an error to its caller. -/
inductive Failure (ε : Type) where
  | aborted
  | returned (error : ε)
deriving DecidableEq

def Failure.map {ε ε' : Type} (f : ε → ε') : Failure ε → Failure ε'
  | aborted => aborted
  | returned error => returned (f error)

--- Verifier State

open StagedUpdate

def maxCheckpointBytes : Nat := 16 * 1024

structure StoredCheckpoint (H : Type) where
  schema : UInt32
  network : String
  height : UInt32
  commitment : H
  header : List UInt8
  proof : List H
deriving DecidableEq

inductive ShvMmrError (H : Type) where
  | invalidCheckpointProof
  | checkpointCommitmentMismatch (expected actual : H)
  | header (error : HeaderPowError H)
  | difficulty (error : AsertError H)
  | historicalTargetMismatch (expected actual : H)
  | historicalProofInvalid
  | heightOverflow
  | emptyAccumulator
  | invalidStoredCheckpoint
  | storedCheckpointTooLarge
  | storedCheckpointNetworkMismatch
  | storedCheckpointTrustMismatch
deriving DecidableEq

def ShvMmrError.ofExtension {H : Type} : HeaderExtensionError H → ShvMmrError H
  | .pow error => .header error
  | .difficulty error => .difficulty error

structure DifficultyContext where
  params : AsertParams
  anchor : AsertAnchor
deriving DecidableEq

structure ShvMmrHeaderVerifier (H : Type) where
  accumulator : MmrAccumulator H
  provenance : CheckpointProvenance
  lastHash : Option H
  lastTime : Option UInt32
  lastHeader : Option BlockHeaderBytes
  lastLeafProof : List H
  difficulty : Option DifficultyContext
deriving DecidableEq

variable {H : Type} [Hash32 H]

/- The leaf of a serialized header. -/
def headerLeaf (header : BlockHeaderBytes) : H := sha256d header.bytes.toList

namespace ShvMmrHeaderVerifier

omit [Hash32 H] in
def empty (provenance : CheckpointProvenance) : ShvMmrHeaderVerifier H :=
  { accumulator := .new
    provenance
    lastHash := none
    lastTime := none
    lastHeader := none
    lastLeafProof := []
    difficulty := none }

--- Checkpoints

/- Bootstrap from a trusted commitment and a tip proof. -/
def fromCheckpointProof [DecidableEq H] (checkpointHeight : UInt32)
    (checkpointHeader : BlockHeaderBytes) (proof : List H) (trustedCommitment : H)
    (provenance : CheckpointProvenance) : Except (ShvMmrError H) (ShvMmrHeaderVerifier H) :=
  match verifyDeclaredPow checkpointHeader with
  | .error e => .error (.header e)
  | .ok parsed =>
    let leafCount := checkpointHeight.toNat + 1
    match MmrAccumulator.bootstrapFromLastLeafProof leafCount parsed.hash proof with
    | none => .error .invalidCheckpointProof
    | some accumulator =>
      let actual := accumulator.root
      if actual ≠ trustedCommitment then
        .error (.checkpointCommitmentMismatch trustedCommitment actual)
      else .ok
          { accumulator
            provenance
            lastHash := some parsed.hash
            lastTime := some parsed.time
            lastHeader := some checkpointHeader
            lastLeafProof := proof
            difficulty := none }

section

variable (self : ShvMmrHeaderVerifier H)

/- Enable expected-difficulty checks from here on. -/
def withAsert (params : AsertParams) (anchor : AsertAnchor) : ShvMmrHeaderVerifier H :=
  { self with difficulty := some { params, anchor } }

/- The height of the last leaf. -/
def tipHeight : Except (ShvMmrError H) UInt32 :=
  if self.accumulator.leafCount = 0 then .error .emptyAccumulator
  else
    match Word32.tryFrom (self.accumulator.leafCount - 1) with
    | none => .error .heightOverflow
    | some height => .ok height

def state : Except (ShvMmrError H) (HeaderAccumulatorState H) :=
  match self.tipHeight with
  | .error e => .error e
  | .ok height =>
    .ok { height, peaks := self.accumulator.peaks, commitment := self.accumulator.root }

def hasDifficultyContext : Bool := self.difficulty.isSome

def checkpoint : HeaderCheckpoint H :=
  { height := UInt32.ofNat (min (self.accumulator.leafCount - 1) (2 ^ 32 - 1))
    commitment := self.accumulator.root
    provenance := self.provenance }

def tipCheckpointProof : Option (BlockHeaderBytes × List H) :=
  self.lastHeader.map (fun header => (header, self.lastLeafProof))

end

def encodeCheckpointJson (codec : SerdeJson (StoredCheckpoint H)) (self : ShvMmrHeaderVerifier H)
    (network : Network) : Except (ShvMmrError H) String :=
  match self.state with
  | .error e => .error e
  | .ok state =>
    match self.tipCheckpointProof with
    | none => .error .emptyAccumulator
    | some (header, proof) =>
      let record :=
        { schema := 1
          network := network.toString
          height := state.height
          commitment := state.commitment
          header := header.bytes.toList
          proof }
      match codec.toString record with
      | none => .error .invalidStoredCheckpoint
      | some json => .ok json

/-
  Rebuild a verifier against an independently trusted checkpoint; the difficulty context is not in
  the record.
-/
def fromCheckpointJson [DecidableEq H] (codec : SerdeJson (StoredCheckpoint H)) (json : String)
    (network : Network) (trusted : HeaderCheckpoint H) :
    Except (ShvMmrError H) (ShvMmrHeaderVerifier H) :=
  if maxCheckpointBytes < json.utf8ByteSize then .error .storedCheckpointTooLarge
  else
    match codec.fromStr json with
    | none => .error .invalidStoredCheckpoint
    | some record =>
      if record.schema ≠ 1 ∨ 32 < record.proof.length then .error .invalidStoredCheckpoint
      else if record.network ≠ network.toString then .error .storedCheckpointNetworkMismatch
      else if record.height ≠ trusted.height ∨ record.commitment ≠ trusted.commitment then
        .error .storedCheckpointTrustMismatch
      else
        match BlockHeaderBytes.tryFrom record.header with
        | none => .error .invalidStoredCheckpoint
        | some header => fromCheckpointProof record.height header record.proof trusted.commitment
            trusted.provenance

--- Extension

/- The difficulty check that the tip context calls for. -/
def asertCheck (candidate : ShvMmrHeaderVerifier H) (previousHeight : UInt32) : Option AsertCheck :=
  match candidate.difficulty, candidate.lastTime with
  | some context, some previousTime => some
      { params := context.params
        anchor := context.anchor
        previousHeight
        previousTime := previousTime.toNat }
  | _, _ => none

/- Judge the header that would follow the tip. -/
def judge [DecidableEq H] (candidate : ShvMmrHeaderVerifier H) (header : BlockHeaderBytes) :
    Except (ShvMmrError H) (ParsedHeader H) :=
  match candidate.lastHash with
  | some expectedPrev =>
    match candidate.tipHeight with
    | .error e => .error e
    | .ok previousHeight =>
      (verifyHeaderExtension expectedPrev header (candidate.asertCheck previousHeight)).mapError
        .ofExtension
  | none => (verifyDeclaredPow header).mapError .header

/- Append a judged header; `none` is the abort of `extend`. -/
def append (candidate : ShvMmrHeaderVerifier H) (header : BlockHeaderBytes)
    (parsed : ParsedHeader H) : Option (ShvMmrHeaderVerifier H) :=
  match candidate.accumulator.extend parsed.hash with
  | none => none
  | some accumulator => some
      { candidate with
        accumulator
        lastHash := some parsed.hash
        lastTime := some parsed.time
        lastHeader := some header
        lastLeafProof := candidate.accumulator.proofForNextLeaf parsed.hash }

/- One round of the loop over a batch. -/
def extendOne [DecidableEq H] (candidate : ShvMmrHeaderVerifier H) (header : BlockHeaderBytes) :
    Except (Failure (ShvMmrError H)) (ShvMmrHeaderVerifier H) :=
  match candidate.judge header with
  | .error e => .error (.returned e)
  | .ok parsed =>
    match candidate.append header parsed with
    | none => .error .aborted
    | some next => .ok next

/- A rejected batch leaves the verifier as it was. -/
def extend [DecidableEq H] (self : ShvMmrHeaderVerifier H) (headers : List BlockHeaderBytes) :
    Outcome (Failure (ShvMmrError H)) (ShvMmrHeaderVerifier H) :=
  assign self (headers.foldlM extendOne self)

/- Check a header against the accumulator's own root. -/
def verifyHistorical [DecidableEq H] (self : ShvMmrHeaderVerifier H)
    (proof : HistoricalHeaderProof H) : Except (ShvMmrError H) Unit :=
  let expected := self.accumulator.root
  if proof.target ≠ expected then .error (.historicalTargetMismatch expected proof.target)
  else
    match verifyDeclaredPow proof.header with
    | .error e => .error (.header e)
    | .ok parsed =>
      if self.accumulator.verifyProofToRoot
          proof.height.toNat parsed.hash proof.proof then
        .ok ()
      else .error .historicalProofInvalid

end ShvMmrHeaderVerifier

end OptnWallet
