import OptnWallet.Core.WalletProjection

/-
  How candidate snapshots replace the authoritative one: a complete candidate whose evidence is no
  weaker is accepted, and anything else keeps what was there.

  Main declarations:
    * `ReconciliationState.reconcileCandidate`
    * `ReconciliationState.recordFailure`
    * `reconcileCandidate_accepted` and `reconcileCandidate_preserved`
-/

--- Evidence

namespace OptnWallet

/- The name of a source. -/
abbrev SourceId : Type := String

inductive Evidence where
  | serverAssertion
  | mempoolObservation
  | headerLinked (blockHash : TxId) (height : UInt32)
  | headerPowVerified (blockHash : TxId) (height : UInt32)
  | headerMmrProven (blockHash : TxId) (height : UInt32)
  | merkleTransactionIncluded (txid : TxId) (blockHash : TxId) (height : UInt32)
  | fullNodeValidated (source : SourceId)
deriving DecidableEq

inductive VerificationState where
  | unknown
  | discovered
  | partiallyVerified
  | verified
  | degraded
deriving DecidableEq

def evidenceStrength : Evidence → UInt8
  | .serverAssertion => 0
  | .mempoolObservation => 1
  | .headerLinked _ _ => 2
  | .headerPowVerified _ _ => 3
  | .headerMmrProven _ _ => 4
  | .merkleTransactionIncluded _ _ _ => 5
  | .fullNodeValidated _ => 6

def verificationStateFor : Evidence → VerificationState
  | .serverAssertion => .discovered
  | .mempoolObservation => .discovered
  | .headerLinked _ _ => .partiallyVerified
  | .headerPowVerified _ _ => .partiallyVerified
  | .headerMmrProven _ _ => .verified
  | .merkleTransactionIncluded _ _ _ => .verified
  | .fullNodeValidated _ => .verified

/- How evidence is displayed. -/
def Evidence.display : Evidence → String
  | serverAssertion => "Server assertion"
  | mempoolObservation => "Mempool observation"
  | headerLinked _ _ => "Header linked"
  | headerPowVerified _ _ => "Header proof of work"
  | headerMmrProven _ _ => "Header MMR proof"
  | merkleTransactionIncluded _ _ _ => "Transaction inclusion proof"
  | fullNodeValidated _ => "Full node validation"

--- Reconciliation

structure WalletSyncState where
  primarySource : Option SourceId
  historyFresh : Bool
  utxosFresh : Bool
  chainTip : Option (UInt32 × TxId)
  verification : VerificationState
  degradedReason : Option String
deriving DecidableEq

def WalletSyncState.new : WalletSyncState :=
  { primarySource := none
    historyFresh := false
    utxosFresh := false
    chainTip := none
    verification := .unknown
    degradedReason := none }

structure ReconciledSnapshot (α : Type) where
  value : α
  source : SourceId
  evidence : Evidence
  chainTip : Option (UInt32 × TxId)
deriving DecidableEq

structure ReconciliationState (α : Type) where
  authoritative : Option (ReconciledSnapshot α)
  sync : WalletSyncState
deriving DecidableEq

inductive ReconciliationDecision where
  | accepted
  | preservedIncomplete
  | preservedWeakerEvidence
  | preservedFailure
deriving DecidableEq

namespace ReconciliationState

variable {α : Type}

def new : ReconciliationState α := { authoritative := none, sync := WalletSyncState.new }

section

variable (state : ReconciliationState α)

def reconcileCandidate (candidate : α) (source : SourceId)
    (evidence : Evidence) (chainTip : Option (UInt32 × TxId)) (complete : Bool) :
    ReconciliationState α × ReconciliationDecision :=
  if complete = false then ({ state with
        sync :=
          { state.sync with
            historyFresh := false
            utxosFresh := false
            verification := .degraded
            degradedReason := some "provider response incomplete" } },
      .preservedIncomplete)
  else if state.authoritative.any
      (fun current => decide (evidenceStrength evidence < evidenceStrength current.evidence))
  then ({ state with
        sync :=
          { state.sync with
            historyFresh := false
            utxosFresh := false
            degradedReason := some "candidate evidence is weaker than the retained snapshot" } },
      .preservedWeakerEvidence)
  else
    ({ authoritative := some { value := candidate, source, evidence, chainTip }
       sync :=
         { primarySource := some source
           historyFresh := true
           utxosFresh := true
           chainTip
           verification := verificationStateFor evidence
           degradedReason := none } },
      .accepted)

/- The last snapshot stays, but nothing is fresh. -/
def recordFailure (reason : String) : ReconciliationState α :=
  { state with
    sync :=
      { state.sync with
        historyFresh := false
        utxosFresh := false
        verification := .degraded
        degradedReason := some reason } }

/- Both parts of what a wallet knows are fresh. -/
def isFresh : Bool :=
  state.sync.historyFresh && state.sync.utxosFresh

end

/- An accepted candidate is the authoritative snapshot. -/
theorem reconcileCandidate_accepted {state next : ReconciliationState α} {candidate : α}
    {source : SourceId} {evidence : Evidence} {chainTip : Option (UInt32 × TxId)} {complete : Bool}
    (hReconcile :
        state.reconcileCandidate candidate source evidence chainTip complete = (next, .accepted)) :
    next.authoritative = some ⟨candidate, source, evidence, chainTip⟩ ∧ next.isFresh = true := by
  unfold reconcileCandidate at hReconcile
  split at hReconcile
  · cases hReconcile
  split at hReconcile
  · cases hReconcile
  · cases hReconcile
    exact ⟨rfl, rfl⟩

/- Any other decision keeps the snapshot, which is stale. -/
theorem reconcileCandidate_preserved {state next : ReconciliationState α} {candidate : α}
    {source : SourceId} {evidence : Evidence} {chainTip : Option (UInt32 × TxId)} {complete : Bool}
    {decision : ReconciliationDecision}
    (hReconcile :
      state.reconcileCandidate candidate source evidence chainTip complete = (next, decision))
    (hPreserved : decision ≠ .accepted) :
    next.authoritative = state.authoritative ∧ next.isFresh = false := by
  unfold reconcileCandidate at hReconcile
  split at hReconcile
  · cases hReconcile
    exact ⟨rfl, rfl⟩
  split at hReconcile
  · cases hReconcile
    exact ⟨rfl, rfl⟩
  · cases hReconcile
    exact absurd rfl hPreserved

end ReconciliationState

end OptnWallet
