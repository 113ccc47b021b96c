import OptnWallet.Runtime.HeaderStore
import OptnWallet.Runtime.HeaderView
import OptnWallet.Runtime.Reconciliation
import OptnWallet.Runtime.SyncWorker

/-
  The header pass of the sync worker.  Every batch that the verified view accepts is published to
  the dense store that providers read back, and then becomes the worker's view.

  Arithmetic on 32-bit words wraps where the source does not check it, as in a release build.

  Main declarations:
    * `ProgressiveSyncWorker`
    * `ProgressiveSyncWorker.publishHeaders`
    * `ProgressiveSyncWorker.primeHeadersOnSameRoute`
-/

--- Routes And Answers

namespace OptnWallet

open StagedUpdate

inductive ProtocolFamily where
  | electrum
  | bip37
  | neutrino
  | bchnRpc
  | bchnZmq
deriving DecidableEq

inductive EndpointKind where
  | bchP2p
  | electrumTls
  | electrumTcp
  | bchnRpc
  | bchnZmq
  | explorerHttp
  | explorerHttps
deriving DecidableEq

structure Endpoint where
  kind : EndpointKind
  host : String
  port : Option UInt16
deriving DecidableEq

structure CapabilityRoute where
  source : SourceId
  protocol : ProtocolFamily
  endpoint : Option Endpoint
deriving DecidableEq

inductive ChainServiceError where
  | noEligibleProvider
  | routeUnavailable
  | exhausted
deriving DecidableEq

/- The payloads that a refresh tells apart. -/
inductive ChainPayload where
  | walletRefresh (transactions : List ObservedTransaction) (tip : Option ChainTip)
  | headers (startHeight : UInt32) (headers : List BlockHeaderBytes)
  | other
deriving DecidableEq

inductive ProgressiveSyncError (H : Type) where
  | noWalletRoute
  | missingHeaderRoute (source : SourceId) (protocol : ProtocolFamily)
  | headerSafetyLimit
  | missingTrustedHeaderVerifier
  | missingRefreshBaseline
  | inconsistentRefreshScope
  | headerVerification (error : ShvMmrError H)
  | headerView (error : HeaderViewError H)
  | headerStore (error : HeaderStoreError)
  | invalidHeaderRange
  | chain (error : ChainServiceError)
  | unexpectedPayload
  | exhausted
deriving DecidableEq

--- The Worker

structure ProgressiveSyncConfig where
  headerBatchSize : UInt32
  maxHeaderBatches : UInt32
deriving DecidableEq

def ProgressiveSyncConfig.new : ProgressiveSyncConfig :=
  { headerBatchSize := 2000, maxHeaderBatches := 1000 }

structure ProgressiveSyncWorker (H : Type) where
  config : ProgressiveSyncConfig
  reconciliation : ReconciliationState WalletNetworkSnapshot
  headerView : Option (VerifiedHeaderView H)
  accepted : Option (RetainedHeaders H)

--- Publishing A Batch

namespace RetainedHeaders

variable {H : Type}

/- The highest retained height and its hash. -/
def tip (headers : RetainedHeaders H) : Option (UInt32 × H) :=
  headers.byHeight.entries.getLast?.map (fun entry => (entry.1, entry.2.hash))

variable [DecidableEq H] [Hash32 H]

/- Insert headers one by one, up to the first refusal. -/
def insertStaged (headers : RetainedHeaders H) :
    List (UInt32 × BlockHeaderBytes) → Outcome HeaderStoreError (RetainedHeaders H)
  | [] => (.ok (), headers)
  | (height, header) :: staged =>
    match headers.insertVerified height header with
    | .error e => (.error e, headers)
    | .ok inserted => inserted.insertStaged staged

/-
  The join with what is retained is checked before anything is written.
-/
def publish (headers : RetainedHeaders H) (staged : List (UInt32 × BlockHeaderBytes)) :
    Outcome HeaderStoreError (RetainedHeaders H) :=
  match staged.head? with
  | none => headers.insertStaged staged
  | some (height, header) =>
    match (Word32.checkedSub height 1).bind headers.hashAt
    with
    | none => headers.insertStaged staged
    | some parent =>
      if prevHash header ≠ parent then (.error (.linkage height), headers)
      else headers.insertStaged staged

end RetainedHeaders

namespace ProgressiveSyncWorker

variable {H : Type} [DecidableEq H] [Hash32 H]

/- A refused publication leaves the view behind. -/
def publishHeaders (worker : ProgressiveSyncWorker H) (view : VerifiedHeaderView H)
    (staged : List (UInt32 × BlockHeaderBytes)) :
    Outcome (ProgressiveSyncError H) (ProgressiveSyncWorker H) :=
  match worker.accepted with
  | none => (.ok (), { worker with headerView := some view })
  | some headers =>
    match headers.publish staged with
    | (.error e, headers) => (.error (.headerStore e), { worker with accepted := some headers })
    | (.ok (), headers) =>
      (.ok (), { worker with headerView := some view, accepted := some headers })

--- The Pass

omit [DecidableEq H] [Hash32 H] in
def batchSize (worker : ProgressiveSyncWorker H) : UInt32 := max worker.config.headerBatchSize 1

/- The heights of a batch, which may wrap around. -/
def stage (startHeight : UInt32) (batch : List BlockHeaderBytes) :
    List (UInt32 × BlockHeaderBytes) :=
  batch.mapIdx (fun offset header => (startHeight + UInt32.ofNat offset, header))

/- What a service answers to the requests of a pass. -/
abbrev HeaderAnswer : Type := Except ChainServiceError ChainPayload

/- One round of the pass for each answer. -/
def headerRounds (worker : ProgressiveSyncWorker H) (view : VerifiedHeaderView H) (start : UInt32) :
    List HeaderAnswer → Outcome (Failure (ProgressiveSyncError H)) (ProgressiveSyncWorker H)
  | [] => (.error (.returned .headerSafetyLimit), worker)
  | .error e :: _ => (.error (.returned (.chain e)), worker)
  | .ok (.headers startHeight headers) :: answers =>
    if startHeight ≠ start ∨ worker.batchSize.toNat < headers.length then
      (.error (.returned .invalidHeaderRange), worker)
    else if headers.isEmpty then (.ok (), worker)
    else
      match Word32.tryFrom headers.length with
      | none => (.error (.returned .headerSafetyLimit), worker)
      | some returned =>
        match view.extend headers with
        | (.error e, _) => (.error (e.map .headerView), worker)
        | (.ok (), view) =>
          match worker.publishHeaders view (stage startHeight headers)
          with
          | (.error e, worker) => (.error (.returned e), worker)
          | (.ok (), worker) =>
            match Word32.tryFrom (startHeight.toNat + returned.toNat)
            with
            | none => (.error (.returned .headerSafetyLimit), worker)
            | some start =>
              if returned < worker.batchSize then (.ok (), worker)
              else headerRounds worker view start answers
  | .ok _ :: _ => (.error (.returned .unexpectedPayload), worker)

/- The routes on offer, and what the service will answer. -/
structure HeaderPass where
  walletRoute : CapabilityRoute
  routes : List CapabilityRoute
  answers : Nat → HeaderAnswer

/- The answers that a worker asks for at most. -/
def HeaderPass.rounds (pass : HeaderPass) (worker : ProgressiveSyncWorker H) : List HeaderAnswer :=
  (List.range worker.config.maxHeaderBatches.toNat).map pass.answers

section

variable (worker : ProgressiveSyncWorker H) (pass : HeaderPass)

/-
  Verify each batch before publishing it.  A later failure leaves both authorities at the last
  verified batch.
-/
def primeHeadersOnSameRoute :
    Outcome (Failure (ProgressiveSyncError H)) (ProgressiveSyncWorker H) :=
  match worker.headerView with
  | none => (.error (.returned .missingTrustedHeaderVerifier), worker)
  | some view =>
    match pass.routes.find?
        (fun candidate =>
          decide
            (candidate.source = pass.walletRoute.source ∧
              candidate.protocol = pass.walletRoute.protocol ∧
              candidate.endpoint = pass.walletRoute.endpoint))
    with
    | none =>
      (.error (.returned (.missingHeaderRoute pass.walletRoute.source pass.walletRoute.protocol)),
        worker)
    | some _ =>
      match view.verifier.state with
      | .error e => (.error (.returned (.headerVerification e)), worker)
      | .ok state =>
        match Word32.tryFrom (state.height.toNat + 1) with
        | none => (.error (.returned .headerSafetyLimit), worker)
        | some start => headerRounds worker view start (pass.rounds worker)

/- The worker that a pass leaves behind. -/
def afterPass : ProgressiveSyncWorker H :=
  (worker.primeHeadersOnSameRoute pass).2

end

end ProgressiveSyncWorker

end OptnWallet
