import Mathlib.Data.Finset.Insert
import Mathlib.Data.Prod.Lex
import OptnWallet.Core.Tx
import OptnWallet.Library.BTreeMap
import OptnWallet.Library.StagedUpdate
import OptnWallet.Library.Words

/-
  What raw transactions mean for a set of wallet scripts: the outputs that pay them, which of
  these are spent, and what each transaction received and spent.

  Main declarations:
    * `walletProjection`
    * `unspentOutputs`
    * `walletHistory`
    * `unspentOutputs_scripts_congr` and `unspentOutputs_pay`
-/

--- Projection

namespace OptnWallet

open StagedUpdate

/- A transaction id in internal hash order. -/
abbrev TxId : Type := Vector UInt8 32

/- A transaction id and an output index, in this order. -/
abbrev OutPoint : Type := TxId ×ₗ UInt32

/- An output with its place, apart from its token. -/
structure UnspentOutput where
  txid : TxId
  vout : UInt32
  output : DecodedOutput
deriving DecidableEq

/- What one transaction received and spent. -/
structure WalletTransaction where
  txid : TxId
  receivedSats : UInt64
  spentSats : UInt64
deriving DecidableEq

structure WalletProjection where
  outputs : BTreeMap OutPoint UnspentOutput
  spent : BTreeMap OutPoint TxId

/- The digest function comes from a dependency. -/
def doubleSha256 (sha256 : List UInt8 → Vector UInt8 32) (bytes : List UInt8) : TxId :=
  sha256 (sha256 bytes).toList

/- The inputs of transaction `txid` spend their outpoints, each for the first time; the null
   outpoint is no output. -/
def spendInputs (txid : TxId) :
    List (TxId × UInt32 × UInt32) →
    BTreeMap OutPoint TxId →
    Except CliError (BTreeMap OutPoint TxId)
  | [], spent => .ok spent
  | (previous, vout, _) :: inputs, spent =>
    if previous = Vector.replicate 32 0 ∧ vout = 0xffffffff then spendInputs txid inputs spent
    else if (spent.get? (toLex (previous, vout))).isSome then
      .error (.protocol "conflicting transactions require reconciliation before wallet projection")
    else spendInputs txid inputs (spent.insert (toLex (previous, vout)) txid)

/- The outputs from `index` on that pay the scripts. -/
def collectOutputs (scripts : List (List UInt8)) (txid : TxId) :
    Nat →
    List DecodedOutput →
    BTreeMap OutPoint UnspentOutput →
    Except CliError (BTreeMap OutPoint UnspentOutput)
  | _, [], outputs => .ok outputs
  | index, output :: rest, outputs =>
    if output.scriptPubkey ∈ scripts then
      match Word32.tryFrom index with
      | some vout => collectOutputs scripts txid (index + 1) rest
          (outputs.insert (toLex (txid, vout)) { txid, vout, output })
      | none => .error (.protocol "output index exceeds BCH range")
    else collectOutputs scripts txid (index + 1) rest outputs

/- What is collected, as a list of outputs. -/
def ownedFrom (scripts : List (List UInt8)) (txid : TxId) :
    Nat → List DecodedOutput → List UnspentOutput
  | _, [] => []
  | index, output :: rest =>
    if output.scriptPubkey ∈ scripts then
      { txid, vout := UInt32.ofNat index, output } :: ownedFrom scripts txid (index + 1) rest
    else ownedFrom scripts txid (index + 1) rest

def projectTransaction (scripts : List (List UInt8)) (projection : WalletProjection) (txid : TxId)
    (decoded : Decoded) : Except CliError WalletProjection := do
  let spent ← spendInputs txid decoded.inputs projection.spent
  let outputs ← collectOutputs scripts txid 0 decoded.outputs projection.outputs
  .ok { outputs, spent }

/- The transactions that are left, each id once. -/
def projectFrom (sha256 : List UInt8 → Vector UInt8 32) (scripts : List (List UInt8)) :
    Finset TxId → WalletProjection → List (List UInt8) → Except CliError WalletProjection
  | _, projection, [] => .ok projection
  | seen, projection, raw :: rest =>
    let txid := doubleSha256 sha256 raw
    if txid ∈ seen then projectFrom sha256 scripts seen projection rest
    else do
      let decoded ← decode raw
      let projection ← projectTransaction scripts projection txid decoded
      projectFrom sha256 scripts (insert txid seen) projection rest

def walletProjection (sha256 : List UInt8 → Vector UInt8 32)
    (transactions scripts : List (List UInt8)) : Except CliError WalletProjection :=
  projectFrom sha256 scripts ∅ { outputs := BTreeMap.new, spent := BTreeMap.new } transactions

--- Unspent Outputs

def unspentOutputs (sha256 : List UInt8 → Vector UInt8 32)
    (transactions scripts : List (List UInt8)) : Except CliError (List UnspentOutput) := do
  let projection ← walletProjection sha256 transactions scripts
  let unspent := projection.outputs.retain (fun outpoint => (projection.spent.get? outpoint).isNone)
  .ok unspent.values

--- History

/- Addition that fails instead of wrapping. -/
def checkedSats (error : CliError) (sum value : UInt64) : Except CliError UInt64 :=
  if sum.toNat + value.toNat < 2 ^ 64 then .ok (sum + value)
  else .error error

section

variable (history : BTreeMap TxId WalletTransaction) (txid : TxId)

/- The entry of a transaction, empty where there is none. -/
def historyEntry : WalletTransaction :=
  (history.get? txid).getD { txid, receivedSats := 0, spentSats := 0 }

def addReceived (value : UInt64) :
    Except CliError (BTreeMap TxId WalletTransaction) := do
  let received := historyEntry history txid
  let receivedSats ←
    checkedSats (.protocol "wallet received value exceeds u64 range") received.receivedSats value
  .ok (history.insert txid { received with receivedSats })

def addSpent (value : UInt64) :
    Except CliError (BTreeMap TxId WalletTransaction) := do
  let spent := historyEntry history txid
  let spentSats ←
    checkedSats (.protocol "wallet spent value exceeds u64 range") spent.spentSats value
  .ok (history.insert txid { spent with spentSats })

end

/- An owned output counts for the transaction that made it and for the one that spends it. -/
def addOutput (spent : BTreeMap OutPoint TxId) (history : BTreeMap TxId WalletTransaction)
    (entry : OutPoint × UnspentOutput) : Except CliError (BTreeMap TxId WalletTransaction) := do
  let history ← addReceived history entry.2.txid entry.2.output.value
  match spent.get? entry.1 with
  | some txid => addSpent history txid entry.2.output.value
  | none => .ok history

def walletHistory (sha256 : List UInt8 → Vector UInt8 32)
    (transactions scripts : List (List UInt8)) : Except CliError (List WalletTransaction) := do
  let projection ← walletProjection sha256 transactions scripts
  let history ← projection.outputs.entries.foldlM (addOutput projection.spent) BTreeMap.new
  .ok history.values

--- Scripts As A Set

variable {scripts scripts' : List (List UInt8)} {txid : TxId}

/- By induction over the outputs. -/
theorem collectOutputs_congr (hSame : ∀ script, script ∈ scripts ↔ script ∈ scripts') {index : Nat}
    {decoded : List DecodedOutput} {outputs : BTreeMap OutPoint UnspentOutput} :
    collectOutputs scripts txid index decoded outputs =
      collectOutputs scripts' txid index decoded outputs := by
  induction decoded generalizing index outputs with
  | nil => rfl
  | cons output rest ih =>
    unfold collectOutputs
    simp only [hSame output.scriptPubkey, ih]

variable {projection : WalletProjection}

theorem projectTransaction_congr (hSame : ∀ script, script ∈ scripts ↔ script ∈ scripts')
    {decoded : Decoded} :
    projectTransaction scripts projection txid decoded =
      projectTransaction scripts' projection txid decoded := by
  unfold projectTransaction
  simp only [collectOutputs_congr hSame]

variable {sha256 : List UInt8 → Vector UInt8 32} {transactions : List (List UInt8)}

/- By induction over the transactions. -/
theorem projectFrom_congr (hSame : ∀ script, script ∈ scripts ↔ script ∈ scripts')
    {seen : Finset TxId} :
    projectFrom sha256 scripts seen projection transactions =
      projectFrom sha256 scripts' seen projection transactions := by
  induction transactions generalizing seen projection with
  | nil => rfl
  | cons raw rest ih =>
    unfold projectFrom
    simp only [projectTransaction_congr hSame, ih]

/- The order of the scripts is not seen, nor how often one is listed. -/
theorem unspentOutputs_scripts_congr (hSame : ∀ script, script ∈ scripts ↔ script ∈ scripts') :
    unspentOutputs sha256 transactions scripts = unspentOutputs sha256 transactions scripts' := by
  unfold unspentOutputs walletProjection
  rw [projectFrom_congr hSame]

--- Outputs Pay The Scripts

/- Each of these outputs pays one of the scripts. -/
def PayScripts (scripts : List (List UInt8)) (outputs : BTreeMap OutPoint UnspentOutput) : Prop :=
  ∀ entry ∈ outputs.entries, entry.2.output.scriptPubkey ∈ scripts

/- By induction over the outputs. -/
theorem collectOutputs_payScripts {index : Nat} {decoded : List DecodedOutput}
    {outputs outputs' : BTreeMap OutPoint UnspentOutput} (hPay : PayScripts scripts outputs)
    (hCollect : collectOutputs scripts txid index decoded outputs = .ok outputs') :
    PayScripts scripts outputs' := by
  induction decoded generalizing index outputs with
  | nil =>
    cases hCollect
    exact hPay
  | cons output rest ih =>
    unfold collectOutputs at hCollect
    split at hCollect
    · rename_i hOwned
      split at hCollect
      · apply ih _ hCollect
        intro entry hEntry
        rcases BTreeMap.mem_insert_entries.mp hEntry with rfl | ⟨-, hOld⟩
        · exact hOwned
        · exact hPay entry hOld
      · cases hCollect
    · exact ih hPay hCollect

/- By induction over the transactions. -/
theorem projectFrom_payScripts {seen : Finset TxId} {projection' : WalletProjection}
    (hPay : PayScripts scripts projection.outputs)
    (hProject : projectFrom sha256 scripts seen projection transactions = .ok projection') :
    PayScripts scripts projection'.outputs := by
  induction transactions generalizing seen projection with
  | nil =>
    cases hProject
    exact hPay
  | cons raw rest ih =>
    unfold projectFrom at hProject
    dsimp only at hProject
    split at hProject
    · exact ih hPay hProject
    · rcases bind_eq_ok_iff.mp hProject with ⟨decoded, -, hProject⟩
      rcases bind_eq_ok_iff.mp hProject with ⟨next, hNext, hProject⟩
      apply ih _ hProject
      unfold projectTransaction at hNext
      rcases bind_eq_ok_iff.mp hNext with ⟨spent, -, hNext⟩
      rcases bind_eq_ok_iff.mp hNext with ⟨outputs, hCollect, hNext⟩
      cases hNext
      exact collectOutputs_payScripts hPay hCollect

theorem unspentOutputs_pay {unspent : List UnspentOutput}
    (hUnspent : unspentOutputs sha256 transactions scripts = .ok unspent) {output : UnspentOutput}
    (hOutput : output ∈ unspent) : output.output.scriptPubkey ∈ scripts := by
  unfold unspentOutputs at hUnspent
  rcases bind_eq_ok_iff.mp hUnspent with ⟨projection, hProject, hUnspent⟩
  cases hUnspent
  have hNone : PayScripts scripts (BTreeMap.new : BTreeMap OutPoint UnspentOutput) := by
    intro entry hEntry
    cases hEntry
  have hPay := projectFrom_payScripts hNone hProject
  unfold BTreeMap.values at hOutput
  rcases List.mem_map.mp hOutput with ⟨entry, hEntry, rfl⟩
  exact hPay entry (List.mem_of_mem_filter hEntry)

end OptnWallet
