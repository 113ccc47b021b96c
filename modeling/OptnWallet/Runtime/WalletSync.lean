import OptnWallet.Runtime.HdSync
import OptnWallet.Runtime.WalletCheckpoint

/-
  Synchronization of the opened wallet.  A refresh runs under a lease, and what it found is
  published only by the session that issued the lease, while the lease is the current one.

  Main declarations:
    * `WalletSyncSession.begin` and `WalletSyncSession.beginHd`
    * `WalletSyncSession.finish`
    * `WalletSyncSession.installCheckpoint`
    * `AppRuntimeDriver.handle` and `AppRuntimeDriver.publish`
    * `AppRuntimeDriver.step`
-/

--- Leases And Sessions

namespace OptnWallet

inductive WalletSyncError where
  | noWallet
  | invalidScope (reason : String)
  | superseded
  | invalidSnapshot (reason : String)
  | persistence (reason : String)
deriving DecidableEq

inductive TransportError where
  | closed
  | authenticationRequired
  | unsupported
  | invalidData (reason : String)
  | other (reason : String)
deriving DecidableEq

/- A call returns an error, or it panics. -/
inductive SyncFailure where
  | error (error : WalletSyncError)
  | panic
deriving DecidableEq

/- Its identity is all that the session knows it by. -/
structure WalletSyncLease where
  id : Nat
  network : Network
  addresses : List String
  interests : List WalletInterest
  baseline : WalletReconciliation
deriving DecidableEq

/- The identities below `issued` are taken. -/
structure WalletSyncSession where
  active : Option Nat
  issued : Nat
  state : WalletReconciliation
deriving DecidableEq

/-
  Whether a result may still be published, at each moment this is asked: somebody waits for it,
  nothing was revoked and the session is not idle.
-/
structure PublicationChecks where
  onReceipt : Bool
  beforePersistence : Bool
  afterPersistence : Bool
deriving DecidableEq

/- Storage of a checkpoint. -/
abbrev Persist : Type := AppState → WalletReconciliation → Except TransportError Unit

namespace WalletSyncSession

def new : WalletSyncSession := { active := none, issued := 0, state := ReconciliationState.new }

def coinsAreFresh (session : WalletSyncSession) : Bool := session.state.isFresh

def recordFailure (session : WalletSyncSession) (reason : String) : WalletSyncSession :=
  { session with state := session.state.recordFailure reason }

section

variable (session : WalletSyncSession)

def invalidate (reason : String) : WalletSyncSession :=
  { session with active := none, state := session.state.recordFailure reason }

def cancelAbandoned : WalletSyncSession :=
  session.invalidate "wallet refresh cancelled before completion"

def onEvent : AppEvent → WalletSyncSession
  | .walletOpened | .walletLocked | .networkChanged _ =>
    { session with active := none, state := ReconciliationState.new }
  | .serversChanged | .walletRebuilt => session.invalidate "wallet or chain settings changed"
  | .coinsChanged | .noticeChanged | .other => session

/- What is shown without an authoritative snapshot is blank but for the status. -/
def projectStatus (app : AppState) : AppState :=
  let view :=
    if session.state.authoritative.isNone then WalletSyncView.empty
    else app.walletSync
  { app with
    walletSync :=
      { view with
        refreshing := session.active.isSome
        historyFresh := session.state.sync.historyFresh
        utxosFresh := session.state.sync.utxosFresh
        error := session.state.sync.degradedReason
        source := session.state.authoritative.map (fun snapshot => snapshot.source)
        evidence := session.state.authoritative.map (fun snapshot => snapshot.evidence.display)
        tipHeight :=
          session.state.authoritative.bind (fun snapshot => snapshot.chainTip.map Prod.fst) } }

end

variable (codecs : WalletCodecs)

--- Checkpoints And Annotations

/- The view of the stored snapshot, blank without one. -/
def restoredView (checkpoint : WalletCheckpoint) : Option WalletSyncView :=
  match checkpoint.state.authoritative with
  | none => some WalletSyncView.empty
  | some snapshot => (snapshot.value.walletView codecs.sha256).toOption

/- A wallet with an allocation has the key that it is of. -/
def restoredWallet (checkpoint : WalletCheckpoint) (app : AppState) :
    Option (Option OpenedWallet) :=
  if checkpoint.allocation.isNone then some app.wallet
  else app.wallet.map
      (fun wallet => some { wallet with accountXpub := some checkpoint.accountXpub })

variable (session : WalletSyncSession)

/- Nothing where the checkpoint was not validated before: the call panics. -/
def installCheckpoint (checkpoint : WalletCheckpoint) (app : AppState) :
    Option (WalletSyncSession × AppState) := do
  let view ← restoredView codecs checkpoint
  let wallet ← restoredWallet checkpoint app
  let app ← (updateReceiveAddress codecs
      { app with
        walletSync := view
        coins := checkpoint.coins
        hdAddresses := checkpoint.allocation
        wallet }).toOption
  let session :=
    { session with
      state :=
        checkpoint.state.recordFailure
          "restored wallet state requires a live refresh" }
  some (session, session.projectStatus { app with spendPrepared := false })

/- Unless it is stored, an annotation is undone. -/
def persistAnnotation (app previous : AppState) (persist : Persist) (checks : PublicationChecks) :
    (WalletSyncSession × AppState) × AppEvent :=
  if checks.beforePersistence = true ∧
      (persist app session.state).toOption.isSome ∧
      checks.afterPersistence = true
  then ((session, app), .coinsChanged)
  else ((session.invalidate
          "wallet annotation save failed or was cancelled; reopen before continuing",
        { previous with
          spendPrepared := false
          notice :=
            some
              "Wallet annotation could not be saved or publication was cancelled. Reopen the wallet before continuing." }),
      .noticeChanged)

--- Beginning

/- An interest that the scripts do not cover. -/
def omitted (watched : BTreeMap (List UInt8) String) (interest : WalletInterest) : Bool :=
  match interest.script? with
  | some script => (watched.get? script).isNone
  | none => true

variable (app : AppState)

def begin (addresses : List String) :
    Except WalletSyncError (WalletSyncSession × WalletSyncLease) :=
  match app.wallet with
  | none => .error .noWallet
  | some wallet => do
      let watched ← (walletScripts codecs app.network addresses app.coins).mapError
          (fun error => .invalidScope error.toString)
      let receive ←
        (codecs.decodeAddress wallet.receiveAddress).mapError WalletSyncError.invalidScope
      if receive.addressPrefix ≠ app.network.addressPrefix ∨
          (watched.get? receive.scriptPubkey).isNone
      then .error (.invalidScope "wallet receive address is outside the selected sync scope")
      else if
        -- branches without coins are part of the scope too
        session.state.authoritative.any
          (fun previous => previous.value.interests.any (omitted watched))
      then .error (.invalidScope "wallet refresh cannot omit previously watched scripts")
      else
        .ok
          ({ active := some session.issued
             issued := session.issued + 1
             state :=
               { session.state with
                 sync :=
                   { session.state.sync with
                     historyFresh := false
                     utxosFresh := false
                     degradedReason := some "wallet refresh in progress" } } },
            { id := session.issued
              network := app.network
              addresses := watched.values
              interests := watched.keys.map WalletInterest.script
              baseline := session.state })

/- The script of an address that a scan has to find. -/
def requiredScript (address : String) : Except WalletSyncError (List UInt8) := do
  let parsed ← (codecs.decodeAddress address).mapError WalletSyncError.invalidScope
  .ok parsed.scriptPubkey

/- The script of the last index of a branch. -/
def allocatedScript (network : Network) (xpub : String) (allocation : HdAddressAllocation)
    (slot : Fin 3) : Except WalletSyncError (List UInt8) := do
  let preview ← (codecs.addressUnderAccount network xpub (hdScanBranches.get slot.castSucc)
        (allocation.next.get slot - 1)).mapError (fun error => .invalidScope error.toString)
  requiredScript codecs preview.address

/- The last index of each branch that has any, issued or reserved. -/
def allocatedScripts (xpub : String) : Except WalletSyncError (List (List UInt8)) :=
  match app.hdAddresses with
  | none => .ok []
  | some allocation =>
    ((List.finRange 3).filter (fun slot => decide (allocation.next.get slot ≠ 0))).mapM
      (allocatedScript codecs app.network xpub allocation)

def previousScripts (session : WalletSyncSession) : Except WalletSyncError (List (List UInt8)) :=
  match session.state.authoritative with
  | none => .ok []
  | some previous => previous.value.interests.mapM
      (fun interest =>
        match interest.script? with
        | some script => .ok script
        | none => .error (.invalidScope
              "HD discovery cannot discard a non-script wallet scope"))

/- Everything that a scan must not leave out. -/
def requiredScripts (wallet : OpenedWallet) (xpub : String) :
    Except WalletSyncError (Finset (List UInt8)) := do
  let allocated ← allocatedScripts codecs app xpub
  let receive ← requiredScript codecs wallet.receiveAddress
  let coins ← app.coins.coins.mapM (fun coin => requiredScript codecs coin.address)
  let previous ← session.previousScripts
  .ok (allocated ++ receive :: coins ++ previous).toFinset

/- What a scan reports, as an error of the session. -/
def scanFailure : ScanFailure → SyncFailure
  | .error message => .error (.invalidScope message)
  | .panic => .panic

def beginHd (xpub : String) (limits : HdSyncLimits) :
    Except SyncFailure (WalletSyncSession × WalletSyncLease × HdAccountScan) :=
  match app.wallet with
  | none => .error (.error .noWallet)
  | some wallet =>
    if wallet.multisigPolicy.isSome then
      .error (.error (.invalidScope "multisig discovery requires its complete public descriptor"))
    else if wallet.accountXpub.any (fun known => Text.trim known ≠ Text.trim xpub)
    then .error (.error (.invalidScope "HD account differs from the opened wallet"))
    else do
      let account ← (codecs.parseAccountPath wallet.accountPath).mapError
          (fun error => .error (.invalidScope error.toString))
      let required ← (requiredScripts codecs session app wallet xpub).mapError SyncFailure.error
      let scan ←
        (HdAccountScan.new codecs app.network xpub account limits required).mapError scanFailure
      let addresses ← scan.addresses.mapError scanFailure
      let (session, lease) ← (session.begin codecs app addresses).mapError SyncFailure.error
      .ok (session, lease, scan)

--- Finishing

variable (lease : WalletSyncLease)

/- The application state that the candidate leads to. -/
def candidateApp (snapshot : WalletNetworkSnapshot) (next : WalletReconciliation) :
    Except String AppState := do
  let coins ← (snapshot.reconcileCoins codecs lease.network lease.addresses app.coins).mapError
      CliError.toString
  let app ← observeAllocation codecs { app with coins } next
  let view ← (snapshot.walletView codecs.sha256).mapError CliError.toString
  .ok { app with walletSync := view }

/- A failure that the state remembers. -/
def refuse (error : String → WalletSyncError) (reason : String) :
    (WalletSyncSession × AppState) × Except WalletSyncError ReconciliationDecision :=
  ((session.recordFailure reason, app), .error (error reason))

/- The work may have been cancelled while it waited. -/
def supersede (reason : String) :
    (WalletSyncSession × AppState) × Except WalletSyncError ReconciliationDecision :=
  ((session.invalidate reason, app), .error .superseded)

def persistenceReason : TransportError → String
  | .other reason => reason
  | .closed | .authenticationRequired | .unsupported |
    .invalidData _ => "wallet state could not be saved"

/- A candidate that is accepted is stored before it is published. -/
def publishCandidate (snapshot : WalletNetworkSnapshot) (next : WalletReconciliation)
    (persist : Persist) (checks : PublicationChecks) :
    (WalletSyncSession × AppState) × Except WalletSyncError ReconciliationDecision :=
  match candidateApp codecs app lease snapshot next with
  | .error reason => session.refuse app .invalidSnapshot reason
  | .ok candidate =>
    if checks.beforePersistence = false then
      session.supersede app "wallet refresh cancelled before persistence"
    else
      match persist candidate next with
      | .error error => session.refuse app .persistence (persistenceReason error)
      | .ok () =>
        -- what was saved may be restored, but is not fresh
        if checks.afterPersistence = false then
          session.supersede app "wallet refresh cancelled during persistence"
        else (({ session with state := next },
              { app with
                coins := candidate.coins
                hdAddresses := candidate.hdAddresses
                wallet := candidate.wallet
                walletSync := candidate.walletSync
                spendPrepared := false }),
            .ok .accepted)

def finish (result : WalletReconciliation) (persist : Persist) (checks : PublicationChecks) :
    (WalletSyncSession × AppState) × Except WalletSyncError ReconciliationDecision :=
  if session.active ≠ some lease.id then ((session, app), .error .superseded)
  else if checks.onReceipt = false then
    session.supersede app "wallet refresh cancelled before publication"
  else
    let session := { session with active := none }
    match result.authoritative.filter (fun _ => result.isFresh)
    with
    | none =>
      ((session.recordFailure (result.sync.degradedReason.getD "wallet refresh incomplete"), app),
        .ok .preservedFailure)
    | some candidate =>
      let tip := candidate.value.tip.map (fun tip => (tip.height, tip.hash))
      if candidate.value.hd.isNone ∧
          session.state.authoritative.any (fun previous => previous.value.hd.isSome)
      then session.refuse app .invalidSnapshot "an HD wallet requires account-wide synchronization"
      else if candidate.value.interests ≠ lease.interests ∨ tip ≠ candidate.chainTip
      then session.refuse app .invalidSnapshot
          "wallet snapshot scope or chain tip differs from its request"
      else
        match session.state.reconcileCandidate candidate.value candidate.source candidate.evidence
            candidate.chainTip true
        with
        | (next, .accepted) =>
          session.publishCandidate codecs app lease candidate.value next persist checks
        | (next, decision) => (({ session with state := next }, app), .ok decision)

end WalletSyncSession

--- The Runtime

inductive WalletSyncRequest where
  | checkpoint
  | restore (checkpoint : WalletCheckpoint)
  | beginHd (xpub : String) (limits : HdSyncLimits)
  | begin (addresses : List String)
  | finish (lease : WalletSyncLease) (result : WalletReconciliation) (persist : Persist)
      (checks : PublicationChecks)
  | invalidate (reason : String)

/- What is sent back, if anything is. -/
inductive WalletSyncReply where
  | checkpoint (outcome : Except WalletSyncError WalletCheckpoint)
  | restored (outcome : Except WalletSyncError Unit)
  | scanning (outcome : Except WalletSyncError (WalletSyncLease × HdAccountScan))
  | began (outcome : Except WalletSyncError WalletSyncLease)
  | finished (outcome : Except WalletSyncError ReconciliationDecision)
  | invalidated
  | annotated (event : AppEvent)
  | nothing
  | panicked
deriving DecidableEq

/- The actor that owns the application state. -/
structure AppRuntimeDriver where
  state : AppState
  walletSync : WalletSyncSession
deriving DecidableEq

/-
  What the actor does between two turns: a request, an event with the state that was reduced to it
  and the checkpoint that an opened wallet brings, an annotation of coins with the state it leads
  to, or the end of a refresh nobody waits for.
-/
inductive DriverInput where
  | walletSync (request : WalletSyncRequest)
  | event (app : AppState) (event : AppEvent) (restored : Option WalletCheckpoint)
  | annotate (app : AppState) (persist : Persist) (checks : PublicationChecks)
  | abandoned

namespace AppRuntimeDriver

variable (codecs : WalletCodecs)

def new (app : AppState) : AppRuntimeDriver := { state := app, walletSync := WalletSyncSession.new }

def publishApp (session : WalletSyncSession) (app : AppState) : AppRuntimeDriver :=
  { state := session.projectStatus app, walletSync := session }

/- A wallet that only watches single addresses. -/
def watchesAddresses (wallet : OpenedWallet) : Bool :=
  decide (wallet.kind = .watchOnly) && wallet.accountXpub.isNone && wallet.multisigPolicy.isNone

/- A failed request publishes nothing, unless it finishes a refresh. -/
def handle (driver : AppRuntimeDriver) : WalletSyncRequest → AppRuntimeDriver × WalletSyncReply
  | .checkpoint => (driver,
      .checkpoint
        ((WalletCheckpoint.capture codecs driver.state driver.walletSync.state).mapError
          WalletSyncError.invalidSnapshot))
  | .restore checkpoint =>
    if driver.walletSync.active.isSome ∨
        driver.walletSync.state.authoritative.isSome ∨
        driver.state.coins.coins ≠ []
    then (driver,
        .restored (.error (.invalidSnapshot "cannot replace a running wallet with stored state")))
    else
      match checkpoint.validateWallet codecs driver.state
      with
      | .error reason => (driver, .restored (.error (.invalidSnapshot reason)))
      | .ok () =>
        match driver.walletSync.installCheckpoint codecs checkpoint driver.state
        with
        | none => (driver, .panicked)
        | some (session, app) => (publishApp session app, .restored (.ok ()))
  | .beginHd xpub limits =>
    match driver.walletSync.beginHd codecs driver.state xpub limits
    with
    | .error .panic => (driver, .panicked)
    | .error (.error error) => (driver, .scanning (.error error))
    | .ok (session, lease, scan) =>
      (publishApp session { driver.state with spendPrepared := false },
        .scanning (.ok (lease, scan)))
  | .begin addresses =>
    if driver.state.wallet.any (fun wallet => !watchesAddresses wallet) ||
        driver.walletSync.state.authoritative.any (fun snapshot => snapshot.value.hd.isSome)
    then
      (driver, .began (.error (.invalidScope "an HD wallet requires account-wide synchronization")))
    else
      match driver.walletSync.begin codecs driver.state addresses
      with
      | .error error => (driver, .began (.error error))
      | .ok (session, lease) =>
        (publishApp session { driver.state with spendPrepared := false }, .began (.ok lease))
  | .finish lease result persist checks =>
    let finished := driver.walletSync.finish codecs driver.state lease result persist checks
    (publishApp finished.1.1 finished.1.2, .finished finished.2)
  | .invalidate reason =>
    (publishApp (driver.walletSync.invalidate reason) { driver.state with spendPrepared := false },
      .invalidated)

section

variable (session : WalletSyncSession) (app : AppState) (event : AppEvent)
  (restored : Option WalletCheckpoint)

/- An opened wallet brings its stored state. -/
def restoreOpened : Option (WalletSyncSession × AppState) :=
  match restored.filter (fun _ => event = .walletOpened) with
  | none => some (session, app)
  | some checkpoint => session.installCheckpoint codecs checkpoint app

/- A panic ends the actor, with nothing more to see. -/
def publish : Option AppRuntimeDriver := do
  let (session, app) ← restoreOpened codecs (session.onEvent event) app event restored
  some (publishApp session { app with spendPrepared := session.coinsAreFresh && app.spendPrepared })

end

def step (driver : AppRuntimeDriver) : DriverInput → AppRuntimeDriver × WalletSyncReply
  | .walletSync request => driver.handle codecs request
  | .event app event restored =>
    match publish codecs driver.walletSync app event restored
    with
    | none => (driver, .panicked)
    | some driver => (driver, .nothing)
  | .annotate app persist checks =>
    let annotated := driver.walletSync.persistAnnotation app driver.state persist checks
    match publish codecs annotated.1.1 annotated.1.2 annotated.2 none
    with
    | none => (driver, .panicked)
    | some driver => (driver, .annotated annotated.2)
  | .abandoned => (publishApp driver.walletSync.cancelAbandoned driver.state, .nothing)

variable {codecs}

end AppRuntimeDriver

end OptnWallet
