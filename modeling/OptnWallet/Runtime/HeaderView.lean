import OptnWallet.Core.HeaderTime.SparseIndex
import OptnWallet.Runtime.HeaderVerifier

/-
  The verified header view of one network: the verifier, the sparse time index and the trailing
  timestamps of the median-time-past window, advanced together.

  Main declarations:
    * `VerifiedHeaderView.extend`
    * `VerifiedHeaderView.restoreStartForTime`
    * `VerifiedHeaderView.encode` and `restore`
-/

--- View State

namespace OptnWallet

open StagedUpdate

/- Blocks between retained time anchors. -/
def defaultAnchorInterval : UInt32 := 2016

def maxPersistedViewBytes : Nat := 1024 * 1024

def persistedViewSchema : UInt32 := 2

structure PersistedAnchor (H : Type) where
  height : UInt32
  blockHash : H
  medianTimePast : UInt32
deriving DecidableEq

structure PersistedHeaderView (H : Type) where
  schema : UInt32
  network : String
  checkpoint : String
  anchors : List (PersistedAnchor H)
  window : List UInt32
  anchorInterval : UInt32
deriving DecidableEq

inductive HeaderViewError (H : Type) where
  | verification (error : ShvMmrError H)
  | timeIndex (error : HeaderIndexError)
  | invalidPersistedView
deriving DecidableEq

inductive RestoreStartUnavailable where
  | nothingVerified
  | anchorsNotReauthenticated (retainedAnchors : Nat)
  | olderThanRetained (oldestHeight oldestMedianTimePast : UInt32)
deriving DecidableEq

inductive RestoreStart where
  | height (height lookback : UInt32)
  | unavailable (reason : RestoreStartUnavailable)
deriving DecidableEq

/- The window holds the oldest timestamp first. -/
structure VerifiedHeaderView (H : Type) where
  network : Network
  verifier : ShvMmrHeaderVerifier H
  times : SparseHeaderIndex H
  window : List UInt32
  anchorInterval : UInt32
deriving DecidableEq

variable {H : Type}

namespace VerifiedHeaderView

section

variable (network : Network) (verifier : ShvMmrHeaderVerifier H)

def withAnchorInterval (anchorInterval : UInt32) : VerifiedHeaderView H :=
  { network, verifier, times := .new, window := [], anchorInterval := max anchorInterval 1 }

def new : VerifiedHeaderView H :=
  withAnchorInterval network verifier defaultAnchorInterval

end

--- Extension

/- Append a timestamp, dropping the oldest of a full window. -/
def slideWindow (window : List UInt32) (timestamp : UInt32) : List UInt32 :=
  if window.length = medianTimeSpan then window.tail ++ [timestamp]
  else window ++ [timestamp]

/-
  Account for the timestamp of an accepted block.  Only a full window has a median, and a median
  equal to the newest anchor's is not recorded again.
-/
def recordAnchor (self : VerifiedHeaderView H) (height : Nat) (blockHash : H) (timestamp : UInt32) :
    Outcome (HeaderViewError H) (VerifiedHeaderView H) :=
  let self := { self with window := slideWindow self.window timestamp }
  if self.window.length < medianTimeSpan then (.ok (), self)
  else
    match Word32.tryFrom height with
    | none => (.ok (), self)
    | some height =>
      if height % self.anchorInterval ≠ 0 then (.ok (), self)
      else
        match medianTimePast self.window with
        | none => (.ok (), self)
        | some median =>
          if self.times.newest.any
              (fun last => median = last.medianTimePast)
          then (.ok (), self)
          else
            let (result, times) :=
              self.times.insert
                { height, blockHash, medianTimePast := median, trust := .authenticated }
            (result.mapError .timeIndex, { self with times })

variable [Hash32 H]

/- Record consecutive blocks, the first one at `height`. -/
def recordAnchors (self : VerifiedHeaderView H) :
    Nat → List BlockHeaderBytes → Except (HeaderViewError H) (VerifiedHeaderView H)
  | _, [] => .ok self
  | height, header :: headers =>
    match self.recordAnchor height (headerLeaf header) (headerTimestamp header) with
    | (.error e, _) => .error e
    | (.ok (), self) => self.recordAnchors (height + 1) headers

/- An empty accumulator starts at the genesis leaf. -/
def firstHeight (self : VerifiedHeaderView H) : Except (ShvMmrError H) Nat :=
  match self.verifier.state with
  | .ok state => .ok (state.height.toNat + 1)
  | .error .emptyAccumulator => .ok 0
  | .error e => .error e

/-
  Verify the whole batch, then index its timestamps, on a staged copy of the view.
-/
def stagedExtend [DecidableEq H] (staged : VerifiedHeaderView H) (firstHeight : Nat)
    (headers : List BlockHeaderBytes) :
    Except (Failure (HeaderViewError H)) (VerifiedHeaderView H) :=
  match staged.verifier.extend headers with
  | (.error e, _) => .error (e.map .verification)
  | (.ok (), verifier) =>
    (recordAnchors { staged with verifier } firstHeight headers).mapError .returned

def extend [DecidableEq H] (self : VerifiedHeaderView H) (headers : List BlockHeaderBytes) :
    Outcome (Failure (HeaderViewError H)) (VerifiedHeaderView H) :=
  if headers.isEmpty then (.ok (), self)
  else
    match self.firstHeight with
    | .error e => (.error (.returned (.verification e)), self)
    | .ok firstHeight => assign self (self.stagedExtend firstHeight headers)

--- Lookups

def tip (self : VerifiedHeaderView H) : Option (UInt32 × H) :=
  match self.verifier.state, self.verifier.lastHash with
  | .ok state, some lastHash => some (state.height, lastHash)
  | _, _ => none

omit [Hash32 H] in
def restoreStartForTime (self : VerifiedHeaderView H) (targetTime lookback : UInt32) :
    RestoreStart :=
  match self.times.conservativeHeightForTime targetTime lookback with
  | .height height => .height height lookback
  | .beforeIndex oldestHeight oldestMedianTimePast =>
    .unavailable (.olderThanRetained oldestHeight oldestMedianTimePast)
  | .unauthenticated retainedAnchors => .unavailable (.anchorsNotReauthenticated retainedAnchors)
  | .empty => .unavailable .nothingVerified

omit [Hash32 H] in
def getheadersLocator (self : VerifiedHeaderView H) (height : UInt32) : List H :=
  self.times.locator height

--- Persistence

def encode (checkpointCodec : SerdeJson (StoredCheckpoint H))
    (viewCodec : SerdeJson (PersistedHeaderView H)) (self : VerifiedHeaderView H) :
    Except (HeaderViewError H) String :=
  match self.verifier.encodeCheckpointJson checkpointCodec self.network with
  | .error e => .error (.verification e)
  | .ok checkpoint =>
    let record :=
      { schema := persistedViewSchema
        network := self.network.toString
        checkpoint
        anchors :=
          self.times.anchors.map
            (fun anchor =>
              { height := anchor.height
                blockHash := anchor.blockHash
                medianTimePast := anchor.medianTimePast })
        window := self.window
        anchorInterval := self.anchorInterval }
    match viewCodec.toString record with
    | none => .error .invalidPersistedView
    | some json => .ok json

/- A stored anchor comes back without its authentication. -/
omit [Hash32 H] in
def provisional (anchor : PersistedAnchor H) : HeaderAnchor H :=
  { height := anchor.height
    blockHash := anchor.blockHash
    medianTimePast := anchor.medianTimePast
    trust := .provisional }

/- Replay stored anchors through the index's own checks. -/
omit [Hash32 H] in
def replayAnchors (times : SparseHeaderIndex H) :
    List (PersistedAnchor H) → Except (HeaderViewError H) (SparseHeaderIndex H)
  | [] => .ok times
  | anchor :: anchors =>
    match times.insert (provisional anchor) with
    | (.error e, _) => .error (.timeIndex e)
    | (.ok (), times) => replayAnchors times anchors

/-
  Restore a view against an independently trusted checkpoint.  The stored window is not restored.
-/
def restore [DecidableEq H] (checkpointCodec : SerdeJson (StoredCheckpoint H))
    (viewCodec : SerdeJson (PersistedHeaderView H)) (json : String) (network : Network)
    (trusted : HeaderCheckpoint H) : Except (HeaderViewError H) (VerifiedHeaderView H) :=
  if maxPersistedViewBytes < json.utf8ByteSize then .error .invalidPersistedView
  else
    match viewCodec.fromStr json with
    | none => .error .invalidPersistedView
    | some record =>
      if record.schema ≠ persistedViewSchema ∨ record.network ≠ network.toString then
        .error .invalidPersistedView
      else if medianTimeSpan < record.window.length then .error .invalidPersistedView
      else
        match ShvMmrHeaderVerifier.fromCheckpointJson checkpointCodec record.checkpoint network
            trusted with
        | .error e => .error (.verification e)
        | .ok verifier =>
          let verifier := verifier.withAsert (.forNetwork network) (.forNetwork network)
          let view := withAnchorInterval network verifier record.anchorInterval
          match replayAnchors view.times record.anchors with
          | .error e => .error e
          | .ok times => .ok { view with times, window := [] }

--- Pruning And Rollback

omit [Hash32 H] in
def pruneBelow (self : VerifiedHeaderView H) (height : UInt32) : VerifiedHeaderView H :=
  { self with times := self.times.pruneBelow height }

omit [Hash32 H] in
def rewindTo (self : VerifiedHeaderView H) (height : UInt32) : VerifiedHeaderView H :=
  { self with times := self.times.rewindTo height, window := [] }

end VerifiedHeaderView

end OptnWallet
