import Mathlib.Data.List.Sort
import OptnWallet.App.State
import OptnWallet.Runtime.SyncWorker

/-
  What a snapshot says of a wallet: its coins, its balances and its history, each a projection of
  the transactions of one exact set of scripts.

  Main declarations:
    * `walletScripts`
    * `WalletNetworkSnapshot.reconcileCoins` and `WalletNetworkSnapshot.walletView`
    * `WalletNetworkSnapshot.ProjectedCoins`
    * `reconcileCoins_projected`
-/

--- Watched Scripts

namespace OptnWallet

variable (codecs : WalletCodecs)

/- The scripts of these addresses, each with its address. -/
def watchAddresses (network : Network) :
    BTreeMap (List UInt8) String → List String → Except CliError (BTreeMap (List UInt8) String)
  | watched, [] => .ok watched
  | watched, address :: rest => do
      let parsed ← (codecs.decodeAddress address).mapError CliError.protocol
      if parsed.addressPrefix ≠ network.addressPrefix then
        .error (.protocol "projection address belongs to another network")
      else
        watchAddresses network (watched.insert parsed.scriptPubkey (codecs.encodeAddress parsed))
          rest

/- No coin of the wallet is left outside the scripts. -/
def coinsInScope (network : Network) (watched : BTreeMap (List UInt8) String) :
    List Coin → Except CliError Unit
  | [] => .ok ()
  | coin :: rest => do
      let parsed ← (codecs.decodeAddress coin.address).mapError CliError.protocol
      if parsed.addressPrefix ≠ network.addressPrefix ∨ (watched.get? parsed.scriptPubkey).isNone
      then .error (.protocol "partial or cross-network projection cannot replace wallet coins")
      else coinsInScope network watched rest

def walletScripts (network : Network) (addresses : List String) (coins : CoinSet) :
    Except CliError (BTreeMap (List UInt8) String) := do
  let watched ← watchAddresses codecs network BTreeMap.new addresses
  if watched.keys = [] then .error (.protocol "wallet script scope is empty")
  else do
    coinsInScope codecs network watched coins.coins
    .ok watched

--- Coins

namespace WalletNetworkSnapshot

open StagedUpdate

/- The bytes of the transactions. -/
def raws (snapshot : WalletNetworkSnapshot) : List (List UInt8) :=
  snapshot.transactions.map ObservedTransaction.raw

/- An output as a coin.  It pays a watched script. -/
def observedCoin (watched : BTreeMap (List UInt8) String) (output : UnspentOutput) :
    Except CoinError Coin :=
  Coin.fromObservation
    { txid := output.txid.reverse, vout := output.vout }
    output.output.value
    ((watched.get? output.output.scriptPubkey).getD "")
    output.output.token

def reconcileCoins (snapshot : WalletNetworkSnapshot) (network : Network) (addresses : List String)
    (coins : CoinSet) : Except CliError CoinSet := do
  let watched ← walletScripts codecs network addresses coins
  if snapshot.interests.any
      (fun interest =>
        match interest with
        | .script script => (watched.get? script).isNone
        | .outpoint _ _ => true
        | .rpaPrefix _ => true)
  then .error (.protocol "coin projection requires an exact nonempty script scope")
  else if
    watched.keys.any (fun script => decide (WalletInterest.script script ∉ snapshot.interests))
  then .error (.protocol "coin projection has an unscanned script")
  else do
    validateScriptScope codecs.sha256 snapshot (watched.keys.head?.getD [])
    let outputs ← unspentOutputs codecs.sha256 snapshot.raws watched.keys
    let replacement ←
      (outputs.mapM (observedCoin watched)).mapError (fun error => CliError.protocol error.toString)
    (coins.replaceChainOutputs replacement).mapError (fun error => CliError.protocol error.toString)

--- View

/- The scripts, where nothing else is watched. -/
def viewScripts (snapshot : WalletNetworkSnapshot) : Except CliError (List (List UInt8)) :=
  snapshot.interests.mapM
    (fun interest =>
      match interest.script? with
      | some script => .ok script
      | none => .error (.protocol "wallet projection requires scripts"))

def historyEntryView (heights : BTreeMap TxId (Option UInt32)) (entry : WalletTransaction) :
    HistoryEntry :=
  { kind :=
      if entry.spentSats < entry.receivedSats then .received
      else if entry.receivedSats < entry.spentSats then .sent
      else .transfer
    txid := Text.hexEncode entry.txid.reverse.toList
    amountSats :=
      if entry.receivedSats < entry.spentSats then entry.spentSats - entry.receivedSats
      else entry.receivedSats - entry.spentSats
    address := ""
    reserved := false
    blockHeight := (heights.get? entry.txid).getD none }

/- Unconfirmed first, then from the tip down. -/
def HistoryOrder (a b : HistoryEntry) : Prop :=
  let heightA := a.blockHeight.getD 0xffffffff
  let heightB := b.blockHeight.getD 0xffffffff
  heightB < heightA ∨ (heightA = heightB ∧ a.txid ≤ b.txid)

instance instDecidableHistoryOrder : DecidableRel HistoryOrder :=
  fun a b => inferInstanceAs
      (Decidable
        (b.blockHeight.getD 0xffffffff < a.blockHeight.getD 0xffffffff ∨
          (a.blockHeight.getD 0xffffffff = b.blockHeight.getD 0xffffffff ∧ a.txid ≤ b.txid)))

/- Sums that fit a signed word. -/
def checkedTotal : Nat → List UnspentOutput → Except CliError Nat
  | sum, [] => .ok sum
  | sum, output :: rest =>
    if sum + output.output.value.toNat < 2 ^ 63 then
      checkedTotal (sum + output.output.value.toNat) rest
    else .error (.protocol "wallet balance exceeds supported range")

def balance (sha256 : List UInt8 → Vector UInt8 32) (scripts : List (List UInt8))
    (transactions : List ObservedTransaction) : Except CliError Nat := do
  let outputs ← unspentOutputs sha256 (transactions.map ObservedTransaction.raw) scripts
  checkedTotal 0 outputs

def walletView (sha256 : List UInt8 → Vector UInt8 32) (snapshot : WalletNetworkSnapshot) :
    Except CliError WalletSyncView := do
  let scripts ← snapshot.viewScripts
  match scripts.head? with
  | none => .error (.protocol "wallet scope is empty")
  | some first => do
      validateScriptScope sha256 snapshot first
      let heights :=
        snapshot.transactions.foldl
          (fun heights transaction => heights.insert transaction.txid transaction.blockHeight)
          BTreeMap.new
      let history ← walletHistory sha256 snapshot.raws scripts
      let confirmed ← balance sha256 scripts
          (snapshot.transactions.filter (fun transaction => transaction.blockHeight.isSome))
      let all ← balance sha256 scripts snapshot.transactions
      .ok
        { WalletSyncView.empty with
          confirmedSats := some (UInt64.ofNat confirmed)
          pendingSats := (all : Int) - confirmed
          history := (history.map (historyEntryView heights)).insertionSort HistoryOrder }

--- Projected Coins

/- The scripts among the interests. -/
def watchedScripts (snapshot : WalletNetworkSnapshot) : List (List UInt8) :=
  snapshot.interests.filterMap WalletInterest.script?

/- The address is how one of these displays the script. -/
def Displays (addresses : List String) (script : List UInt8) (address : String) : Prop :=
  ∃ listed ∈ addresses,
    ∃ parsed,
      codecs.decodeAddress listed = .ok parsed ∧
        parsed.scriptPubkey = script ∧
        codecs.encodeAddress parsed = address

/- The coin is the output, under an address of its script. -/
def IsCoinOf (addresses : List String) (coin : Coin) (output : UnspentOutput) : Prop :=
  coin.outpoint = ⟨output.txid.reverse, output.vout⟩ ∧
    coin.valueSats = output.output.value ∧
    coin.token = output.output.token ∧
    Displays codecs addresses output.output.scriptPubkey coin.address

/- The coins are, in order, what the transactions leave unspent of the watched scripts. -/
def ProjectedCoins (snapshot : WalletNetworkSnapshot) (addresses : List String) (coins : CoinSet) :
    Prop :=
  ∃ unspent,
    unspentOutputs codecs.sha256 snapshot.raws snapshot.watchedScripts = .ok unspent ∧
      List.Forall₂ (IsCoinOf codecs addresses) coins.coins unspent

variable {codecs}

variable {network : Network} {watched : BTreeMap (List UInt8) String} {addresses : List String}

/- By induction over the addresses. -/
theorem watchAddresses_displays {watched' : BTreeMap (List UInt8) String} {rest : List String}
    (hRest : rest ⊆ addresses)
    (hWatched : ∀ script address,
      watched.get? script = some address → Displays codecs addresses script address)
    (hWatch : watchAddresses codecs network watched rest = .ok watched') :
    ∀ script address,
    watched'.get? script = some address → Displays codecs addresses script address := by
  induction rest generalizing watched with
  | nil =>
    cases hWatch
    exact hWatched
  | cons listed rest ih =>
    rw [List.cons_subset] at hRest
    unfold watchAddresses at hWatch
    rcases bind_eq_ok_iff.mp hWatch with ⟨parsed, hDecode, hWatch⟩
    rw [mapError_eq_ok_iff] at hDecode
    split at hWatch
    · cases hWatch
    · apply ih hRest.2 _ hWatch
      intro script address hFound
      rw [BTreeMap.get?_insert] at hFound
      split at hFound
      · rename_i hScript
        cases hFound
        exact ⟨listed, hRest.1, parsed, hDecode, hScript.symm, rfl⟩
      · exact hWatched script address hFound

theorem walletScripts_displays {coins : CoinSet}
    (hScripts : walletScripts codecs network addresses coins = .ok watched) {script : List UInt8}
    {address : String} (hFound : watched.get? script = some address) :
    Displays codecs addresses script address := by
  unfold walletScripts at hScripts
  rcases bind_eq_ok_iff.mp hScripts with ⟨watched', hWatch, hScripts⟩
  split at hScripts
  · cases hScripts
  · rcases bind_eq_ok_iff.mp hScripts with ⟨scope, -, hScripts⟩
    cases hScripts
    apply watchAddresses_displays (List.Subset.refl _) _ hWatch script address hFound
    intro script address hNone
    cases hNone

/- What was asked for and what is watched are one set. -/
theorem mem_watchedScripts_iff {snapshot : WalletNetworkSnapshot}
    (hScope : ∀ interest ∈ snapshot.interests, ∃ script ∈ watched.keys,
      interest = WalletInterest.script script)
    (hScanned : ∀ script ∈ watched.keys, WalletInterest.script script ∈ snapshot.interests)
    (script : List UInt8) : script ∈ watched.keys ↔ script ∈ snapshot.watchedScripts := by
  unfold watchedScripts
  rw [List.mem_filterMap]
  constructor
  · intro hKey
    exact ⟨.script script, hScanned script hKey, rfl⟩
  · rintro ⟨interest, hInterest, hScript⟩
    rcases hScope interest hInterest with ⟨key, hKey, rfl⟩
    cases hScript
    exact hKey

/- By induction over the outputs. -/
theorem observedCoins_fields
    (hDisplays : ∀ script address,
      watched.get? script = some address → Displays codecs addresses script address)
    {unspent : List UnspentOutput}
    (hPay : ∀ output ∈ unspent, output.output.scriptPubkey ∈ watched.keys)
    {replacement coins : List Coin} (hCoins : unspent.mapM (observedCoin watched) = .ok replacement)
    (hFields : coins.map Coin.chainFields = replacement.map Coin.chainFields) :
    List.Forall₂ (IsCoinOf codecs addresses) coins unspent := by
  induction unspent generalizing replacement coins with
  | nil =>
    cases hCoins
    rw [List.reverse_nil, List.map_nil, List.map_eq_nil_iff] at hFields
    rw [hFields]
    exact List.Forall₂.nil
  | cons output unspent ih =>
    rw [List.mapM_cons] at hCoins
    rcases bind_eq_ok_iff.mp hCoins with ⟨coin, hCoin, hCoins⟩
    rcases bind_eq_ok_iff.mp hCoins with ⟨replacement', hRest, hCoins⟩
    cases hCoins
    rw [List.map_cons, List.map_eq_cons_iff] at hFields
    rcases hFields with ⟨coin', coins', rfl, hHere, hFields⟩
    rw [List.forall_mem_cons] at hPay
    constructor
    · rcases BTreeMap.mem_keys_iff.mp hPay.1 with ⟨address, hFound⟩
      unfold observedCoin at hCoin
      rw [hFound, Option.getD_some] at hCoin
      rw [Coin.chainFields_fromObservation hCoin] at hHere
      unfold Coin.chainFields at hHere
      rw [ChainFields.mk.injEq] at hHere
      rcases hHere with ⟨hOutpoint, hValue, hAddress, hToken⟩
      refine ⟨hOutpoint, hValue, hToken, ?_⟩
      rw [hAddress]
      exact hDisplays _ _ hFound
    · exact ih hPay.2 hRest hFields

/- The coins of a refresh are those of the snapshot. -/
theorem reconcileCoins_projected {snapshot : WalletNetworkSnapshot} {coins coins' : CoinSet}
    (hReconcile : reconcileCoins codecs snapshot network addresses coins = .ok coins') :
    ProjectedCoins codecs snapshot addresses coins' := by
  unfold reconcileCoins at hReconcile
  rcases bind_eq_ok_iff.mp hReconcile with ⟨watched, hScripts, hReconcile⟩
  split at hReconcile
  · cases hReconcile
  rename_i hScope
  split at hReconcile
  · cases hReconcile
  rename_i hScanned
  rcases bind_eq_ok_iff.mp hReconcile with ⟨scope, -, hReconcile⟩
  rcases bind_eq_ok_iff.mp hReconcile with ⟨unspent, hUnspent, hReconcile⟩
  rcases bind_eq_ok_iff.mp hReconcile with ⟨replacement, hObserved, hReconcile⟩
  rw [mapError_eq_ok_iff] at hObserved hReconcile
  have hSame : ∀ script, script ∈ watched.keys ↔ script ∈ snapshot.watchedScripts := by
    apply mem_watchedScripts_iff
    · intro interest hInterest
      rw [List.any_eq_true] at hScope
      cases interest with
      | script script =>
        refine ⟨script, ?_, rfl⟩
        by_contra hMissing
        apply hScope
        refine ⟨_, hInterest, ?_⟩
        rw [BTreeMap.mem_keys_iff] at hMissing
        simpa [Option.eq_none_iff_forall_ne_some] using hMissing
      | outpoint txid vout => exact absurd ⟨_, hInterest, rfl⟩ hScope
      | rpaPrefix text => exact absurd ⟨_, hInterest, rfl⟩ hScope
    · simpa using hScanned
  refine ⟨unspent, ?_, ?_⟩
  · rw [← unspentOutputs_scripts_congr hSame]
    exact hUnspent
  · apply observedCoins_fields _ _ hObserved (CoinSet.replaceChainOutputs_chainFields hReconcile)
    · intro script address hFound
      exact walletScripts_displays hScripts hFound
    · intro output hOutput
      exact unspentOutputs_pay hUnspent hOutput

end WalletNetworkSnapshot

end OptnWallet
