import OptnWallet.Core.Coins.Operations
import OptnWallet.Core.WalletProjection.Laws
import OptnWallet.Runtime.HdSync
import OptnWallet.Runtime.SyncWorker.Projection

/-
  The coins of a wallet after a refresh: all that a snapshot leaves unspent of its addresses, or
  what they were before.

  Main declarations:
    * `WalletNetworkSnapshot.reconcileInto`
    * `WalletNetworkSnapshot.Complete`
    * `reconcile_completes_or_keeps`
-/

--- The Method

namespace OptnWallet.WalletNetworkSnapshot

open StagedUpdate

variable (codecs : WalletCodecs)

section

variable (snapshot : WalletNetworkSnapshot) (network : Network) (addresses : List String)
  (coins : CoinSet)

/- The coins that the snapshot has for these addresses. -/
def projectedReplacement : Except CliError (List Coin) := do
  let watched ← walletScripts codecs network addresses coins
  if snapshot.interests.any
      (fun interest =>
        match interest with
        | .script script => (watched.get? script).isNone
        | .outpoint _ _ => true
        | .rpaPrefix _ => true)
  then .error (.protocol "coin projection requires an exact nonempty script scope")
  else if
    watched.keys.any (fun script => decide (WalletInterest.script script ∉ snapshot.interests))
  then .error (.protocol "coin projection has an unscanned script")
  else do
    validateScriptScope codecs.sha256 snapshot (watched.keys.head?.getD [])
    let outputs ← unspentOutputs codecs.sha256 snapshot.raws watched.keys
    (outputs.mapM (observedCoin watched)).mapError (fun error => CliError.protocol error.toString)

/-
  The method on mutable coins: what it answers and the coins that it leaves.  They are written by
  its last step.
-/
def reconcileInto : StagedUpdate.Outcome CliError CoinSet :=
  match projectedReplacement codecs snapshot network addresses coins
  with
  | .error error => (.error error, coins)
  | .ok replacement =>
    let answer := coins.replace replacement
    (answer.1.mapError (fun error => CliError.protocol error.toString), answer.2)

/- The staged form is the projection and a replacement. -/
theorem reconcileCoins_eq :
    reconcileCoins codecs snapshot network addresses coins =
      (projectedReplacement codecs snapshot network addresses coins).bind
        (fun replacement => (coins.replaceChainOutputs replacement).mapError
            (fun error => CliError.protocol error.toString)) := by
  unfold reconcileCoins projectedReplacement
  cases walletScripts codecs network addresses coins with
  | error error => rfl
  | ok watched =>
    simp only [bind, Except.bind]
    by_cases hScope :
        snapshot.interests.any
          (fun interest =>
            match interest with
            | .script script => (watched.get? script).isNone
            | .outpoint _ _ => true
            | .rpaPrefix _ => true)
    · refine (if_pos hScope).trans ?_
      simp only [if_pos hScope]
    refine (if_neg hScope).trans ?_
    simp only [if_neg hScope]
    by_cases hScanned :
      watched.keys.any (fun script => decide (WalletInterest.script script ∉ snapshot.interests))
    · simp only [if_pos hScanned]
    simp only [if_neg hScanned]
    cases validateScriptScope codecs.sha256 snapshot (watched.keys.head?.getD []) with
    | error error => rfl
    | ok scope =>
      cases unspentOutputs codecs.sha256 snapshot.raws watched.keys <;>
        rfl

/- What the method leaves is what the staged form returns. -/
theorem reconcileInto_eq :
    reconcileInto codecs snapshot network addresses coins =
      assign coins (reconcileCoins codecs snapshot network addresses coins) := by
  rw [reconcileCoins_eq]
  unfold reconcileInto
  cases projectedReplacement codecs snapshot network addresses coins with
  | error error => rfl
  | ok replacement =>
    simp only [Except.bind, CoinSet.replace]
    cases coins.replaceChainOutputs replacement <;> rfl

end

--- Checked Snapshots

/- Each transaction has the id of its bytes, and one height that is on the chain of the snapshot. -/
structure ChecksOut (sha256 : List UInt8 → Vector UInt8 32) (tip : Option ChainTip)
    (transactions : List ObservedTransaction) : Prop where
  identity : ∀ transaction ∈ transactions, doubleSha256 sha256 transaction.raw = transaction.txid
  consistent :
    ∀ transaction ∈ transactions,
    ∀ transaction' ∈ transactions,
      transaction.txid = transaction'.txid → transaction.blockHeight = transaction'.blockHeight
  onChain :
    ∀ transaction ∈ transactions,
    ∀ height,
      transaction.blockHeight = some height →
        height ≠ 0 ∧ ∃ tip', tip = some tip' ∧ height ≤ tip'.height

variable {codecs}

theorem heightInScope_iff {tip : Option ChainTip} {height : UInt32} :
    heightInScope tip height = true ↔
    height ≠ 0 ∧ ∃ tip', tip = some tip' ∧ height ≤ tip'.height := by
  unfold heightInScope
  cases tip with
  | none => simp
  | some tip => simp

/- By induction over the transactions.  The heights agree with what the rest may still have. -/
theorem validateTransactions_checksOut {sha256 : List UInt8 → Vector UInt8 32}
    {tip : Option ChainTip} {heights : BTreeMap TxId (Option UInt32)}
    {transactions : List ObservedTransaction}
    (hValid : validateTransactions sha256 tip heights transactions = .ok ()) :
    (∀ transaction ∈ transactions,
        ∀ height, heights.get? transaction.txid = some height → height = transaction.blockHeight) ∧
    ChecksOut sha256 tip transactions := by
  induction transactions generalizing heights with
  | nil => exact ⟨by simp, by simp, by simp, by simp⟩
  | cons transaction rest ih =>
    unfold validateTransactions at hValid
    split at hValid
    · cases hValid
    rename_i hHeights
    split at hValid
    · cases hValid
    rename_i hIdentity
    split at hValid
    · cases hValid
    rename_i hScope
    rcases ih hValid with ⟨hSeen, hRest⟩
    have hFirst :
        ∀ height,
        heights.get? transaction.txid = some height → height = transaction.blockHeight := by
      intro height hHeight
      rw [hHeight] at hHeights
      simpa using hHeights
    have hLater :
        ∀ transaction' ∈ rest,
        transaction.txid = transaction'.txid →
          transaction.blockHeight = transaction'.blockHeight := by
      intro transaction' hMem hSame
      apply hSeen transaction' hMem
      rw [BTreeMap.get?_insert, if_pos hSame.symm]
    refine ⟨?_, ?_, ?_, ?_⟩
    · intro transaction' hMem height hHeight
      rcases List.mem_cons.mp hMem with rfl | hMem
      · exact hFirst height hHeight
      · by_cases hSame : transaction.txid = transaction'.txid
        · rw [← hLater transaction' hMem hSame]
          apply hFirst
          rw [hSame]
          exact hHeight
        · apply hSeen transaction' hMem
          rw [BTreeMap.get?_insert, if_neg (fun hEq => hSame hEq.symm)]
          exact hHeight
    · intro transaction' hMem
      rcases List.mem_cons.mp hMem with rfl | hMem
      · simpa using hIdentity
      · exact hRest.identity transaction' hMem
    · intro one hOne other hOther hSame
      rcases List.mem_cons.mp hOne with hOne | hOne <;>
        rcases List.mem_cons.mp hOther with hOther | hOther
      · rw [hOne, hOther]
      · rw [hOne] at hSame ⊢
        exact hLater other hOther hSame
      · rw [hOther] at hSame ⊢
        exact (hLater one hOne hSame.symm).symm
      · exact hRest.consistent one hOne other hOther hSame
    · intro transaction' hMem height hHeight
      rcases List.mem_cons.mp hMem with rfl | hMem
      · rw [hHeight] at hScope
        apply heightInScope_iff.mp
        simpa using hScope
      · exact hRest.onChain transaction' hMem height hHeight

--- Scopes

/- The script of one of these addresses. -/
def Lists (codecs : WalletCodecs) (addresses : List String) (script : List UInt8) : Prop :=
  ∃ listed ∈ addresses,
    ∃ parsed, codecs.decodeAddress listed = .ok parsed ∧ parsed.scriptPubkey = script

variable {network : Network} {watched : BTreeMap (List UInt8) String} {addresses : List String}

/- By induction over the addresses. -/
theorem mem_watchAddresses_iff {watched' : BTreeMap (List UInt8) String}
    (hWatch : watchAddresses codecs network watched addresses = .ok watched')
    {script : List UInt8} :
    script ∈ watched'.keys ↔ script ∈ watched.keys ∨ Lists codecs addresses script := by
  induction addresses generalizing watched with
  | nil =>
    cases hWatch
    simp [Lists]
  | cons listed rest ih =>
    unfold watchAddresses at hWatch
    rcases bind_eq_ok_iff.mp hWatch with ⟨parsed, hDecode, hWatch⟩
    rw [mapError_eq_ok_iff] at hDecode
    split at hWatch
    · cases hWatch
    have hInsert :
        script ∈ (watched.insert parsed.scriptPubkey (codecs.encodeAddress parsed)).keys ↔
        script ∈ watched.keys ∨ parsed.scriptPubkey = script := by
      simp only [BTreeMap.mem_keys_iff, BTreeMap.get?_insert]
      by_cases hSame : script = parsed.scriptPubkey
      · simp [hSame]
      · simp [hSame, Ne.symm hSame]
    rw [ih hWatch, hInsert]
    unfold Lists
    rw [List.exists_mem_cons_iff, hDecode]
    simp only [Except.ok.injEq, exists_eq_left', or_assoc]

/- By induction over the coins. -/
theorem coinsInScope_listed {coins : List Coin}
    (hScope : coinsInScope codecs network watched coins = .ok ()) :
    ∀ coin ∈ coins,
    ∃ parsed,
      codecs.decodeAddress coin.address = .ok parsed ∧
        parsed.addressPrefix = network.addressPrefix ∧
        parsed.scriptPubkey ∈ watched.keys := by
  induction coins with
  | nil => simp
  | cons coin rest ih =>
    unfold coinsInScope at hScope
    rcases bind_eq_ok_iff.mp hScope with ⟨parsed, hDecode, hScope⟩
    rw [mapError_eq_ok_iff] at hDecode
    split at hScope
    · cases hScope
    rename_i hInside
    intro coin' hMem
    rcases List.mem_cons.mp hMem with rfl | hMem
    · rw [not_or, not_not] at hInside
      refine ⟨parsed, hDecode, hInside.1, ?_⟩
      rw [BTreeMap.mem_keys_iff]
      simpa [Option.eq_none_iff_forall_ne_some] using hInside.2
    · exact ih hScope coin' hMem

theorem walletScripts_spec {coins : CoinSet}
    (hScripts : walletScripts codecs network addresses coins = .ok watched) :
    (∀ script, script ∈ watched.keys ↔ Lists codecs addresses script) ∧
    watched.keys ≠ [] ∧
    ∀ coin ∈ coins.coins,
      ∃ parsed,
        codecs.decodeAddress coin.address = .ok parsed ∧
          parsed.addressPrefix = network.addressPrefix ∧
          Lists codecs addresses parsed.scriptPubkey := by
  unfold walletScripts at hScripts
  rcases bind_eq_ok_iff.mp hScripts with ⟨watched', hWatch, hScripts⟩
  split at hScripts
  · cases hScripts
  rename_i hNonempty
  rcases bind_eq_ok_iff.mp hScripts with ⟨_, hScope, hScripts⟩
  cases hScripts
  have hKeys : ∀ script, script ∈ watched.keys ↔ Lists codecs addresses script := by
    intro script
    rw [mem_watchAddresses_iff hWatch]
    simp [BTreeMap.mem_keys_iff, BTreeMap.get?_new]
  refine ⟨hKeys, hNonempty, ?_⟩
  intro coin hCoin
  rcases coinsInScope_listed hScope coin hCoin with ⟨parsed, hDecode, hNetwork, hKey⟩
  exact ⟨parsed, hDecode, hNetwork, (hKeys _).mp hKey⟩

--- Complete Coins

/- Some transaction of the snapshot makes the output for one of the addresses, and none of them
   spends it. -/
def LeavesUnspent (codecs : WalletCodecs) (snapshot : WalletNetworkSnapshot)
    (addresses : List String) (output : UnspentOutput) : Prop :=
  Lists codecs addresses output.output.scriptPubkey ∧
    (∃ transaction ∈ snapshot.transactions,
        ∃ decoded,
          decode transaction.raw = .ok decoded ∧
            output.txid = transaction.txid ∧
            decoded.outputs[output.vout.toNat]? = some output.output) ∧
    ∀ transaction ∈ snapshot.transactions, output.key ∉ spendsOf transaction.raw

/-
  What a refresh may replace coins by: what was scanned is the scripts of the addresses, what was
  answered is checked, no coin was outside of the addresses, and the coins are the unspent
  outputs, one for each.
-/
structure Complete (codecs : WalletCodecs) (snapshot : WalletNetworkSnapshot) (network : Network)
    (addresses : List String) (coins coins' : CoinSet) : Prop where
  scanned :
    ∀ interest,
    interest ∈ snapshot.interests ↔
      ∃ script, Lists codecs addresses script ∧ interest = .script script
  checked : ChecksOut codecs.sha256 snapshot.tip snapshot.transactions
  covered :
    ∀ coin ∈ coins.coins,
    ∃ parsed,
      codecs.decodeAddress coin.address = .ok parsed ∧
        parsed.addressPrefix = network.addressPrefix ∧
        Lists codecs addresses parsed.scriptPubkey
  exact : ∃ unspent : List UnspentOutput, unspent.Nodup ∧
    (∀ output, output ∈ unspent ↔ LeavesUnspent codecs snapshot addresses output) ∧ List.Forall₂
    (IsCoinOf codecs addresses) coins'.coins unspent

variable {snapshot : WalletNetworkSnapshot}

/- The interests are the scripts of the addresses. -/
theorem mem_interests_iff (hKeys : ∀ script, script ∈ watched.keys ↔ Lists codecs addresses script)
    (hScope :
      ¬ snapshot.interests.any
        (fun interest =>
          match interest with
          | .script script => (watched.get? script).isNone
          | .outpoint _ _ => true
          | .rpaPrefix _ => true))
    (hScanned :
        ¬ watched.keys.any
          (fun script => decide (WalletInterest.script script ∉ snapshot.interests)))
    (interest : WalletInterest) :
    interest ∈ snapshot.interests ↔
      ∃ script, Lists codecs addresses script ∧ interest = .script script := by
  constructor
  · intro hInterest
    rw [List.any_eq_true] at hScope
    cases interest with
    | script script =>
      refine ⟨script, ?_, rfl⟩
      rw [← hKeys]
      by_contra hMissing
      apply hScope
      refine ⟨_, hInterest, ?_⟩
      rw [BTreeMap.mem_keys_iff] at hMissing
      simpa [Option.eq_none_iff_forall_ne_some] using hMissing
    | outpoint txid vout => exact absurd ⟨_, hInterest, rfl⟩ hScope
    | rpaPrefix text => exact absurd ⟨_, hInterest, rfl⟩ hScope
  · rintro ⟨script, hListed, rfl⟩
    have hAll : ∀ script ∈ watched.keys, WalletInterest.script script ∈ snapshot.interests := by
      simpa using hScanned
    exact hAll script ((hKeys script).mpr hListed)

/- Ids are digests, so the outputs of the projection are those of the transactions. -/
theorem leavesUnspent_iff {scripts : List (List UInt8)}
    (hChecked : ChecksOut codecs.sha256 snapshot.tip snapshot.transactions)
    (hScripts : ∀ script, script ∈ scripts ↔ Lists codecs addresses script)
    (output : UnspentOutput) :
    ((∃ raw ∈ snapshot.raws, Owns codecs.sha256 scripts raw output) ∧ ∀ raw ∈ snapshot.raws,
        output.key ∉ spendsOf raw) ↔
    LeavesUnspent codecs snapshot addresses output := by
  unfold LeavesUnspent raws Owns
  simp only
    [List.mem_map, exists_exists_and_eq_and, forall_exists_index, and_imp, forall_apply_eq_imp_iff₂]
  constructor
  · rintro ⟨⟨transaction, hMem, decoded, hDecode, hTxid, hPays, hPlace⟩, hFresh⟩
    rw [hChecked.identity transaction hMem] at hTxid
    exact ⟨(hScripts _).mp hPays, ⟨transaction, hMem, decoded, hDecode, hTxid, hPlace⟩, hFresh⟩
  · rintro ⟨hListed, ⟨transaction, hMem, decoded, hDecode, hTxid, hPlace⟩, hFresh⟩
    refine ⟨⟨transaction, hMem, decoded, hDecode, ?_, (hScripts _).mpr hListed, hPlace⟩, hFresh⟩
    rw [hChecked.identity transaction hMem]
    exact hTxid

/- What each step of the staged form has checked. -/
theorem reconcileCoins_checks {coins coins' : CoinSet}
    (hReconcile : reconcileCoins codecs snapshot network addresses coins = .ok coins') :
    (∀ interest,
        interest ∈ snapshot.interests ↔
          ∃ script, Lists codecs addresses script ∧ interest = .script script) ∧
    ChecksOut codecs.sha256 snapshot.tip snapshot.transactions ∧
    ∀ coin ∈ coins.coins,
      ∃ parsed,
        codecs.decodeAddress coin.address = .ok parsed ∧
          parsed.addressPrefix = network.addressPrefix ∧
          Lists codecs addresses parsed.scriptPubkey := by
  unfold reconcileCoins at hReconcile
  rcases bind_eq_ok_iff.mp hReconcile with ⟨watched, hScripts, hReconcile⟩
  rcases walletScripts_spec hScripts with ⟨hKeys, -, hCovered⟩
  split at hReconcile
  · cases hReconcile
  rename_i hScope
  split at hReconcile
  · cases hReconcile
  rename_i hScanned
  rcases bind_eq_ok_iff.mp hReconcile with ⟨_, hValid, -⟩
  refine ⟨mem_interests_iff hKeys hScope hScanned, ?_, hCovered⟩
  unfold validateScriptScope at hValid
  split at hValid
  · cases hValid
  · exact (validateTransactions_checksOut hValid).2

/-
  A refresh that succeeds leaves exactly the unspent outputs of the addresses, and one that fails
  leaves the coins alone.
-/
theorem reconcile_completes_or_keeps (codecs : WalletCodecs) (snapshot : WalletNetworkSnapshot)
    (network : Network) (addresses : List String) (coins : CoinSet)
    (hFree : CollisionFree codecs.sha256 {raw | raw ∈ snapshot.raws}) :
    match reconcileInto codecs snapshot network addresses coins
    with
    | (.ok (), coins') => Complete codecs snapshot network addresses coins coins'
    | (.error _, coins') => coins' = coins := by
  rw [reconcileInto_eq]
  cases hReconcile : reconcileCoins codecs snapshot network addresses coins with
  | error error => rfl
  | ok coins' =>
    rcases reconcileCoins_checks hReconcile with ⟨hScanned, hChecked, hCovered⟩
    rcases reconcileCoins_projected hReconcile with ⟨unspent, hUnspent, hCoins⟩
    rcases mem_unspentOutputs_iff hFree hUnspent with ⟨hNodup, hMem⟩
    refine ⟨hScanned, hChecked, hCovered, unspent, hNodup, ?_, hCoins⟩
    intro output
    rw [hMem]
    apply leavesUnspent_iff hChecked
    intro script
    unfold watchedScripts
    rw [List.mem_filterMap]
    constructor
    · rintro ⟨interest, hInterest, hScript⟩
      rcases (hScanned interest).mp hInterest with ⟨listed, hListed, rfl⟩
      cases hScript
      exact hListed
    · intro hListed
      exact ⟨_, (hScanned _).mpr ⟨script, hListed, rfl⟩, rfl⟩

def receiveAddress : String :=
  "bchtest:qqsmeq8pee5px5z3f3uj57cu8dch9d5x555p7qzdf3"

/- An answer about the first receive address. -/
def receivedSnapshot : WalletNetworkSnapshot :=
  { hd := none
    interests :=
      [.script
        (Address.scriptPubkey
          { kind := .p2pkh
            hash := HdAccountScan.receiveHash
            addressPrefix := "bchtest" })]
    transactions :=
      [{ txid := HdAccountScan.paymentTxid
         raw := HdAccountScan.receivePayment
         blockHeight := some 50 }]
    tip := some { height := 100, hash := Vector.replicate 32 7 } }

/- The payment becomes the one coin of a new set. -/
theorem reconcile_completes_or_keeps_payment :
    ∃ coins',
    reconcileInto HdAccountScan.knownCodecs receivedSnapshot .chipnet [receiveAddress] CoinSet.new =
        (.ok (), coins') ∧
      coins'.coins.map Coin.valueSats = [1200] ∧
      Complete HdAccountScan.knownCodecs receivedSnapshot .chipnet [receiveAddress] CoinSet.new
        coins' := by
  have hRun :
      ∃ coins',
      reconcileCoins HdAccountScan.knownCodecs receivedSnapshot .chipnet [receiveAddress]
            CoinSet.new = .ok coins' ∧
        coins'.coins.map Coin.valueSats = [1200] := by
    apply exists_ok_of_check
    decide +kernel
  rcases hRun with ⟨coins', hRun, hValues⟩
  have hInto :
      reconcileInto HdAccountScan.knownCodecs receivedSnapshot .chipnet [receiveAddress] CoinSet.new
          = (.ok (), coins') := by
    rw [reconcileInto_eq, hRun]
    rfl
  refine ⟨coins', hInto, hValues, ?_⟩
  have hFree :
      CollisionFree HdAccountScan.knownCodecs.sha256 {raw | raw ∈ receivedSnapshot.raws} := by
    intro raw hRaw raw' hRaw' _
    rw [List.mem_singleton.mp hRaw, List.mem_singleton.mp hRaw']
  have hComplete :=
    reconcile_completes_or_keeps HdAccountScan.knownCodecs receivedSnapshot .chipnet
      [receiveAddress] CoinSet.new hFree
  rw [hInto] at hComplete
  exact hComplete

end OptnWallet.WalletNetworkSnapshot
