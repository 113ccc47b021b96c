import OptnWallet.Runtime.Reconciliation
import OptnWallet.Runtime.SyncWorker.Projection

/-
  Stored wallet state, the checks that tie it to the opened wallet, and the allocation of receive
  addresses.

  Main declarations:
    * `observeAllocation`
    * `WalletCheckpoint.capture`
    * `WalletCheckpoint.validateWallet`
-/

--- Allocation

namespace OptnWallet

open StagedUpdate

abbrev WalletReconciliation : Type := ReconciliationState WalletNetworkSnapshot

variable (codecs : WalletCodecs)

/- The wallet shows the receive address that was issued last. -/
def updateReceiveAddress (app : AppState) : Except String AppState :=
  match app.hdAddresses.bind HdAddressAllocation.currentReceive
  with
  | none => .ok app
  | some index =>
    match app.wallet with
    | none => .error "open an HD wallet first"
    | some wallet =>
      match wallet.accountXpub with
      | none => .error "the wallet has no HD account"
      | some xpub => do
          let preview ←
            (codecs.addressUnderAccount app.network xpub 0 index).mapError CliError.toString
          .ok { app with wallet := some { wallet with receiveAddress := preview.address } }

def allocationHistory (state : WalletReconciliation) : Vector (Option UInt32) 3 :=
  match state.authoritative.bind (fun snapshot => snapshot.value.hd)
  with
  | some book => book.allocationLastUsed
  | none => Vector.replicate 3 none

/- Another receive address is issued where there is none or the last one was used. -/
def issueReceive (allocation : HdAddressAllocation) (used : Vector (Option UInt32) 3) :
    Except CliError HdAddressAllocation :=
  let wasUsed :=
    match allocation.currentReceive with
    | none => true
    | some current => (used.get HdBranch.receive.slot).any (fun last => decide (current ≤ last))
  if wasUsed then (allocation.allocate .receive used false).map Prod.fst
  else .ok allocation

def observeAllocation (app : AppState) (state : WalletReconciliation) : Except String AppState :=
  match app.hdAddresses with
  | none => .ok app
  | some allocation => do
      let used := allocationHistory state
      let observed ← (allocation.observe used).mapError CliError.toString
      let issued ← (issueReceive observed used).mapError CliError.toString
      updateReceiveAddress codecs { app with hdAddresses := some issued }

variable {codecs}

theorem updateReceiveAddress_coins {app app' : AppState}
    (hUpdate : updateReceiveAddress codecs app = .ok app') : app'.coins = app.coins := by
  unfold updateReceiveAddress at hUpdate
  split at hUpdate
  · cases hUpdate
    rfl
  split at hUpdate
  · cases hUpdate
  split at hUpdate
  · cases hUpdate
  rcases bind_eq_ok_iff.mp hUpdate with ⟨preview, -, hUpdate⟩
  cases hUpdate
  rfl

/- Allocation follows the coins and does not change them. -/
theorem observeAllocation_coins {app app' : AppState} {state : WalletReconciliation}
    (hObserve : observeAllocation codecs app state = .ok app') : app'.coins = app.coins := by
  unfold observeAllocation at hObserve
  split at hObserve
  · cases hObserve
    rfl
  · rcases bind_eq_ok_iff.mp hObserve with ⟨observed, -, hObserve⟩
    rcases bind_eq_ok_iff.mp hObserve with ⟨allocated, -, hObserve⟩
    rw [updateReceiveAddress_coins hObserve]

variable (codecs)

--- Checkpoints

structure WalletCheckpoint where
  network : Network
  account : AccountPath
  accountXpub : String
  allocation : Option HdAddressAllocation
  state : WalletReconciliation
  coins : CoinSet
deriving DecidableEq

namespace WalletCheckpoint

/- The derived addresses of the authoritative snapshot. -/
def book (checkpoint : WalletCheckpoint) : Option HdAddressBook :=
  checkpoint.state.authoritative.bind (fun snapshot => snapshot.value.hd)

/- The stored state is of this network, account and key. -/
def belongsTo (checkpoint : WalletCheckpoint) (network : Network) (account : AccountPath)
    (wallet : OpenedWallet) : Bool :=
  let xpub := Text.trim checkpoint.accountXpub
  decide (network = checkpoint.network) &&
    wallet.multisigPolicy.isNone &&
    decide (account = checkpoint.account) &&
    wallet.accountXpub.all (fun key => decide (Text.trim key = xpub)) &&
    checkpoint.book.all
      (fun book =>
        decide (book.account = checkpoint.account) && decide (Text.trim book.accountXpub = xpub))

/- The index of the receive address that was issued last. -/
def currentReceive (checkpoint : WalletCheckpoint) : Option UInt32 :=
  checkpoint.allocation.bind HdAddressAllocation.currentReceive

section

variable (checkpoint : WalletCheckpoint)

/- The receive address is the first one, the current one or one of the address book. -/
def ownsReceive (receiveAddress : String) (receive : Address) : Bool :=
  ([some 0, checkpoint.currentReceive].reduceOption.any
      (fun index =>
        match codecs.addressUnderAccount checkpoint.network checkpoint.accountXpub 0 index
        with
        | .ok preview => decide (preview.address = receiveAddress)
        | .error _ => false)) ||
    checkpoint.book.any
      (fun book => (book.branches.get HdBranch.receive.slot.castSucc).any
          (fun entry =>
            match codecs.decodeAddress entry.address with
            | .ok parsed => decide (parsed.scriptPubkey = receive.scriptPubkey)
            | .error _ => false))

/- That address can be derived, if there is one. -/
def derivesReceive : Except String Unit :=
  match checkpoint.currentReceive with
  | none => .ok ()
  | some index => discard
      ((codecs.addressUnderAccount checkpoint.network checkpoint.accountXpub 0 index).mapError
        CliError.toString)

def validateWallet (app : AppState) : Except String Unit :=
  match app.wallet with
  | none => .error "open a wallet before restoring its state"
  | some wallet =>
    -- the path is parsed where what comes before agrees
    if app.network ≠ checkpoint.network ∨ wallet.multisigPolicy.isSome
    then .error "checkpoint belongs to a different wallet, account, or network"
    else do
      let account ← (codecs.parseAccountPath wallet.accountPath).mapError CliError.toString
      if !checkpoint.belongsTo app.network account wallet then
        .error "checkpoint belongs to a different wallet, account, or network"
      else do
        let receive ← codecs.decodeAddress wallet.receiveAddress
        checkpoint.derivesReceive codecs
        if receive.addressPrefix ≠ checkpoint.network.addressPrefix ∨
            ownsReceive codecs checkpoint wallet.receiveAddress receive = false
        then .error "checkpoint does not own the opened wallet's receive address"
        else
          match checkpoint.state.authoritative with
          | none => .ok ()
          | some snapshot =>
            discard ((snapshot.value.walletView codecs.sha256).mapError CliError.toString)

end

def capture (app : AppState) (state : WalletReconciliation) : Except String WalletCheckpoint :=
  match app.wallet with
  | none => .error "open a wallet before saving its state"
  | some wallet => do
      let book := state.authoritative.bind (fun snapshot => snapshot.value.hd)
      let account ← (codecs.parseAccountPath wallet.accountPath).mapError CliError.toString
      match wallet.accountXpub.or (book.map HdAddressBook.accountXpub)
      with
      | none => .error "the wallet has no HD account"
      | some xpub =>
        let checkpoint :=
          { network := app.network
            account
            accountXpub := xpub
            allocation := app.hdAddresses
            state
            coins := app.coins }
        if state.authoritative.isSome ∧ book.isNone then
          .error "an HD checkpoint requires an account-wide snapshot"
        else if state.authoritative.isNone ∧ (app.hdAddresses.isNone ∨ app.coins.coins ≠ [])
        then .error "local allocation cannot invent chain observations"
        else do
          validateWallet codecs checkpoint app
          .ok checkpoint

variable {codecs}

/- What validation promises to those who restore. -/
structure Restorable (codecs : WalletCodecs) (checkpoint : WalletCheckpoint) (app : AppState) :
    Prop where
  network : app.network = checkpoint.network
  wallet : ∃ wallet, app.wallet = some wallet
  receive : checkpoint.derivesReceive codecs = .ok ()
  view :
    ∀ snapshot,
    checkpoint.state.authoritative = some snapshot →
      ∃ view, snapshot.value.walletView codecs.sha256 = .ok view

end WalletCheckpoint

end OptnWallet
