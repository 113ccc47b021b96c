import OptnWallet.Core.Rpa.Scan
import OptnWallet.Runtime.Reconciliation
import OptnWallet.Runtime.SyncWorker

/-
  Finding what a cash code received: over a list of transactions at once, or block by block.

  The texts of chain service errors are answers of the service, which is not modelled.

  Main declarations:
    * `CashcodeScanKeys.validate`
    * `CashcodeScanKeys.detect` and `CashcodeScanKeys.reconcile`
    * `CashcodeScanKeys.scanBip37`
-/

--- Keys And Receipts

namespace OptnWallet

/- The key pair of the scan, and the spend key if it is there. -/
structure CashcodeScanKeys where
  network : Network
  scan : Vector UInt8 32
  spend : Option (Vector UInt8 32)
  spendPublic : Vector UInt8 33

structure CashcodeReceipt where
  txid : String
  vout : UInt32
  address : String
  valueSats : UInt64
  token : Option TokenData
  prevoutTxid : String
  prevoutIndex : UInt32
  senderPubkeyHex : String
  blockHeight : Option UInt32
  unspent : Bool
deriving DecidableEq

/- The id of a transaction as it is displayed. -/
def displayTxid (txid : TxId) : String := hexString txid.reverse.toList

--- Validation

namespace CashcodeScanKeys

/- The sizes so far, and the heights of the ids so far. -/
def validateFrom (sha256 : List UInt8 → Vector UInt8 32) (count : Nat) (tip : ChainTip) :
    Nat → BTreeMap TxId (Option UInt32) → List ObservedTransaction → Except String Unit
  | _, _, [] => .ok ()
  | bytes, identities, transaction :: rest =>
    let bytes := bytes + transaction.raw.length
    if 2 ^ 64 ≤ bytes then .error "Cash Code history size overflow"
    else if 64 * 1024 * 1024 < bytes ∨ 100000 < count then
      .error "Cash Code history exceeds the local scan limit"
    else if doubleSha256 sha256 transaction.raw ≠ transaction.txid ∨
        transaction.blockHeight.any (fun height => decide (height = 0 ∨ tip.height < height)) ∨
        (identities.get? transaction.txid).any
          (fun prior => decide (prior ≠ transaction.blockHeight))
    then .error "Invalid transaction identity or height in Cash Code history"
    else validateFrom sha256 count tip bytes
        (identities.insert transaction.txid transaction.blockHeight) rest

def validate (sha256 : List UInt8 → Vector UInt8 32) (transactions : List ObservedTransaction)
    (tip : ChainTip) : Except String Unit :=
  validateFrom sha256 transactions.length tip 0 BTreeMap.new transactions

--- Detection

section Detection

variable (primitives : RpaPrimitives)

section

variable (keys : CashcodeScanKeys)

/- Whether a spend key that is at hand gives the address. -/
def reproduces (payment : Rpa.RpaMatch) : Except (Fault String) Bool :=
  match keys.spend with
  | none => .ok true
  | some spend => do
      let controlled ←
        (Rpa.spendingKeyAddress primitives spend payment.secret 0 keys.network).mapError
          (fun e => Fault.error e.toString)
      match controlled.encode with
      | none => .error .panic
      | some address => .ok (decide (address = payment.address))

/- The receipt of a payment, at its outpoint. -/
def receiptOf (transaction : ObservedTransaction)
    (outputs : List DecodedOutput) (payment : Rpa.RpaMatch) :
    Except (Fault String) (OutPoint × CashcodeReceipt) := do
  let reproduced ← reproduces primitives keys payment
  if reproduced = false then
    .error (.error "Cash Code detection did not reproduce the spending address")
  else
    match outputs[payment.outputIndex.toNat]? with
    | none => .error .panic
    | some output =>
      .ok
        (toLex (transaction.txid, payment.outputIndex),
          { txid := displayTxid transaction.txid
            vout := payment.outputIndex
            address := payment.address
            valueSats := payment.value
            token := output.token
            prevoutTxid := payment.prevoutTxid
            prevoutIndex := payment.prevoutIndex
            senderPubkeyHex := payment.senderPubkeyHex
            blockHeight := transaction.blockHeight
            unspent := false })

/- The map of receipts with those of one transaction. -/
def detectTransaction (receipts : BTreeMap OutPoint CashcodeReceipt)
    (transaction : ObservedTransaction) :
    Except (Fault String) (BTreeMap OutPoint CashcodeReceipt) := do
  let found ← (Rpa.scanTransaction primitives transaction.raw keys.scan keys.spendPublic
        keys.network).mapError (Fault.map CliError.toString)
  let decoded ← (decode transaction.raw).mapError (fun e => Fault.error e.toString)
  found.foldlM
    (fun receipts payment => do
      let entry ← receiptOf primitives keys transaction decoded.outputs payment
      .ok (receipts.insert entry.1 entry.2))
    receipts

def detect (transactions : List ObservedTransaction) (tip : ChainTip) :
    Except (Fault String) (List CashcodeReceipt) := do
  (validate primitives.sha256 transactions tip).mapError Fault.error
  let receipts ← transactions.foldlM (detectTransaction primitives keys) BTreeMap.new
  .ok receipts.values

end

/- Receipts with the flags of a projection of everything. -/
def reconcile (tables : UnicodeTables) (receipts : List CashcodeReceipt)
    (transactions : List ObservedTransaction) (tip : ChainTip) :
    Except (Fault String) (List CashcodeReceipt) := do
  (validate primitives.sha256 transactions tip).mapError Fault.error
  let scripts ←
    receipts.mapM (fun receipt => (Address.decode tables receipt.address).map Address.scriptPubkey)
  let outputs ←
    (unspentOutputs primitives.sha256 (transactions.map ObservedTransaction.raw) scripts).mapError
      (fun e => Fault.error e.toString)
  let unspent := outputs.map (fun output => (displayTxid output.txid, output.vout))
  .ok (receipts.map
      (fun receipt =>
        { receipt with
          unspent :=
            decide ((receipt.txid, receipt.vout) ∈ unspent) }))

--- Block By Block

/- What a service answers to the request for one block. -/
structure BlockAnswer where
  transactions : List ObservedTransaction
  tip : Option ChainTip
  chainTip : Option (UInt32 × TxId)
  revoked : Bool

variable (receipts : BTreeMap OutPoint CashcodeReceipt)

/- A receipt at the outpoint that its texts name. -/
def insertReceipt (receipt : CashcodeReceipt) :
    Except (Fault String) (BTreeMap OutPoint CashcodeReceipt) := do
  let point ← (Outpoint.parse receipt.txid receipt.vout).mapError (fun e => Fault.error e.toString)
  .ok (receipts.insert (toLex (point.txid.reverse, receipt.vout)) { receipt with unspent := true })

def markSpent (outpoint : OutPoint) : BTreeMap OutPoint CashcodeReceipt :=
  match receipts.get? outpoint with
  | some receipt => receipts.insert outpoint { receipt with unspent := false }
  | none => receipts

def markTransaction (transaction : ObservedTransaction) :
    Except (Fault String) (BTreeMap OutPoint CashcodeReceipt) := do
  let decoded ← (decode transaction.raw).mapError (fun e => Fault.error e.toString)
  .ok (decoded.inputs.foldl (fun receipts input => markSpent receipts (toLex (input.1, input.2.1)))
      receipts)

/-
  The receipts after one more block.  Its own receipts are inserted before its spends are marked.
-/
def scanBlock (keys : CashcodeScanKeys) (tip : ChainTip)
    (receipts : BTreeMap OutPoint CashcodeReceipt) (current : UInt32) (answer : BlockAnswer) :
    Except (Fault String) (BTreeMap OutPoint CashcodeReceipt) := do
  if answer.tip ≠ some tip ∨
      answer.chainTip ≠ some (tip.height, tip.hash) ∨
        answer.transactions.any (fun transaction => decide (transaction.blockHeight ≠ some current))
          ∨
        answer.revoked
  then .error (.error "Cash Code scan source or accepted chain changed; retry the complete pass")
  else
    let found ← detect primitives keys answer.transactions tip
    let receipts ← found.foldlM insertReceipt receipts
    if 100000 < receipts.entries.length then
      .error (.error "Cash Code receipts exceed the local storage limit")
    else answer.transactions.foldlM markTransaction receipts

/- The heights of the blocks that are scanned. -/
def scannedHeights (fromHeight : UInt32) (tip : ChainTip) : List UInt32 :=
  (List.range' fromHeight.toNat (tip.height.toNat + 1 - fromHeight.toNat)).map UInt32.ofNat

/- The receipts after the answer for one more height. -/
def scanAnswer (keys : CashcodeScanKeys) (tip : ChainTip)
    (answers : UInt32 → Except String (Option BlockAnswer))
    (receipts : BTreeMap OutPoint CashcodeReceipt) (current : UInt32) :
    Except (Fault String) (BTreeMap OutPoint CashcodeReceipt) :=
  match answers current with
  | .error e => .error (.error
        ("Cash Code block " ++ toString current.toNat ++ " was not completely scanned: " ++ e))
  | .ok none => .error (.error "Cash Code block range returned an unexpected payload")
  | .ok (some answer) => scanBlock primitives keys tip receipts current answer

structure CashcodeScanResult where
  fromHeight : UInt32
  tip : ChainTip
  evidence : Evidence
  includesMempool : Bool
  receipts : List CashcodeReceipt
deriving DecidableEq

/-
  The scan of every block from `fromHeight` to the accepted tip.  `primed` is the tip that the
  header pass leaves, or the text of its error.
-/
def scanBip37 (keys : CashcodeScanKeys) (fromHeight : UInt32)
    (primed : Except String (Option (UInt32 × TxId)))
    (answers : UInt32 → Except String (Option BlockAnswer)) :
    Except (Fault String) CashcodeScanResult := do
  let accepted ← primed.mapError
      (fun e => Fault.error ("Cash Code accepted-header synchronization failed: " ++ e))
  match accepted with
  | none => .error (.error "Cash Code discovery requires an accepted header tip")
  | some (height, hash) =>
    let tip : ChainTip := { height, hash }
    if height < fromHeight then .error (.error "Cash Code birth height is beyond the accepted tip")
    else
      let receipts ←
        (scannedHeights fromHeight tip).foldlM (scanAnswer primitives keys tip answers) BTreeMap.new
      .ok
        { fromHeight
          tip
          evidence := .serverAssertion
          includesMempool := false
          receipts := receipts.values }

end Detection

end CashcodeScanKeys

end OptnWallet
