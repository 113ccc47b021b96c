import OptnWallet.Core.Rpa.Recovery
import OptnWallet.Core.Scan
import OptnWallet.Core.Tx.RoundTrip
import OptnWallet.Runtime.RpaReceive

/-
  Sweeping what a cash code received: each receipt that is unspent and has no token is an input,
  and one output takes what is left after the fee.

  Main declarations:
    * `Transaction.sighashPreimage` and `Transaction.signDetailed`
    * `CashcodeScanKeys.prepareCashcodeSweep`
    * `CashcodeScanKeys.Swept`
    * `CashcodeScanKeys.sweep_accounts`
-/

--- Signing

namespace OptnWallet

open ByteFormat
open StagedUpdate

/- Signatures of digests, in DER and with a low `s`, or what the curve says of a failure. -/
structure EcdsaSigner (curve : KeyGroup) where
  signPrehash : curve.SecretKey → Vector UInt8 32 → Except String (List UInt8)

namespace Transaction

def sighashAllForkid : UInt32 := 0x41

variable (sha256 : List UInt8 → Vector UInt8 32)

section

variable (tx : Transaction)

def hashPrevouts : TxId :=
  doubleSha256 sha256
    (tx.inputs.flatMap (fun input => input.txid.toList ++ bytesLE input.vout.toNat 4))

def hashSequence : TxId :=
  doubleSha256 sha256 (tx.inputs.flatMap (fun _ => bytesLE tx.sequence.toNat 4))

def hashOutputs : TxId :=
  doubleSha256 sha256 (tx.outputs.flatMap serializeOutput)

/- The script that is committed to is the one of the output that is spent. -/
def sighashPreimage (index : Nat) : Except CliError (List UInt8) :=
  match tx.inputs[index]? with
  | none => .error (.internal ("no input at index " ++ toString index))
  | some input => .ok (bytesLE tx.version.toNat 4 ++ (hashPrevouts sha256 tx).toList ++
        (hashSequence sha256 tx).toList ++ input.txid.toList ++ bytesLE input.vout.toNat 4 ++
        varint (UInt64.ofNat input.scriptPubkey.length) ++ input.scriptPubkey ++
        bytesLE input.value.toNat 8 ++ bytesLE tx.sequence.toNat 4 ++
        (hashOutputs sha256 tx).toList ++ bytesLE tx.locktime.toNat 4 ++
        bytesLE sighashAllForkid.toNat 4)

def sighash (index : Nat) : Except CliError TxId :=
  (sighashPreimage sha256 tx index).map (doubleSha256 sha256)

end

def pushData (data : List UInt8) : List UInt8 :=
  if data.length ≤ 75 then UInt8.ofNat data.length :: data
  else if data.length ≤ 255 then 0x4c :: UInt8.ofNat data.length :: data
  else 0x4d :: bytesLE data.length 2 ++ data

variable {curve : KeyGroup} (signer : EcdsaSigner curve)

/- The signature with its mode byte, and the public key. -/
def scriptSig (tx : Transaction) (index : Nat) (key : curve.SecretKey) :
    Except CliError (List UInt8) := do
  let digest ← sighash sha256 tx index
  let signature ←
    (signer.signPrehash key digest).mapError (fun e => CliError.internal ("signing failed: " ++ e))
  .ok
    (pushData (signature ++ [sighashAllForkid.toUInt8]) ++ pushData (curve.encode key.publicPoint))

def signDetailed (tx : Transaction) (keys : List curve.SecretKey) :
    Except CliError (List UInt8 × List (List UInt8)) :=
  if keys.length ≠ tx.inputs.length then .error
      (.internal (toString tx.inputs.length ++ " inputs but " ++ toString keys.length ++ " keys"))
  else do
    let scriptSigs ← keys.zipIdx.mapM (fun entry => scriptSig sha256 signer tx entry.2 entry.1)
    .ok (tx.serialize scriptSigs, scriptSigs)

def sign (tx : Transaction) (keys : List curve.SecretKey) : Except CliError (List UInt8) :=
  (signDetailed sha256 signer tx keys).map Prod.fst

end Transaction

--- Sweeping

/- `Transaction::new` -/
def Transaction.new (inputs : List Utxo) (outputs : List Output) : Transaction :=
  { version := 2, inputs, outputs, locktime := 0, sequence := 0xffffffff }

/- `Output::new` -/
def Output.new (value : UInt64) (scriptPubkey : List UInt8) : Output :=
  { value, scriptPubkey, tokenPrefix := none }

structure CashcodeSweep where
  raw : List UInt8
  txid : TxId
  amountSats : UInt64
  feeSats : UInt64
  inputCount : Nat
deriving DecidableEq

namespace CashcodeScanKeys

/- The bytes of two digits each. -/
def senderPublic (hex : String) : Except String (Vector UInt8 33) :=
  if (Cashaddr.utf8 hex.toList).length ≠ 66 ∨ hex.toList.any (fun c => 128 ≤ c.toNat) = true
  then .error "Invalid Cash Code sender public key"
  else
    match
      (List.range 33).mapM (fun index => Scan.byteFromHex ((hex.toList.drop (index * 2)).take 2))
    with
    | none => .error "Invalid Cash Code sender public key"
    | some bytes =>
      if hLength : bytes.length = 33 then .ok ⟨bytes.toArray, hLength⟩
      else .error "Invalid Cash Code sender public key"

def maximumInputs : Nat := 500

def maximumSats : UInt64 := 2100000000000000

/- What is collected from the receipts so far. -/
structure Collected (curve : KeyGroup) where
  inputs : List Utxo
  signing : List curve.SecretKey
  seen : List (TxId × UInt32)
  total : UInt64

def Collected.start (curve : KeyGroup) : Collected curve :=
  { inputs := [], signing := [], seen := [], total := 0 }

variable (primitives : RpaPrimitives) (tables : UnicodeTables)

def collect (keys : CashcodeScanKeys) (spend : Vector UInt8 32) (state : Collected primitives.curve)
    (receipt : CashcodeReceipt) : Except (Fault String) (Collected primitives.curve) :=
  if maximumInputs ≤ state.inputs.length then
    .error (.error "Cash Code sweep exceeds the 500-input transaction limit")
  else do
    let point ←
      (Outpoint.parse receipt.txid receipt.vout).mapError (fun e => Fault.error e.toString)
    if (point.txid, point.vout) ∈ state.seen then .error (.error "Duplicate Cash Code sweep input")
    else do
      let sender ← (senderPublic receipt.senderPubkeyHex).mapError Fault.error
      let key ← (Rpa.signingKeyForReceipt primitives tables keys.scan spend receipt.prevoutTxid
            receipt.prevoutIndex sender receipt.address keys.network).mapError
          (Fault.map CliError.toString)
      match WordSums.checkedAdd state.total receipt.valueSats with
      | none => .error (.error "Cash Code sweep amount overflow")
      | some total =>
        if maximumSats < total then .error (.error "Cash Code sweep exceeds the BCH monetary range")
        else do
          let address ← Address.decode tables receipt.address
          .ok
            { inputs :=
                state.inputs ++
                  [{ txid := point.txid.reverse
                     vout := receipt.vout
                     value := receipt.valueSats
                     scriptPubkey := address.scriptPubkey }]
              signing := state.signing ++ [key]
              seen := (point.txid, point.vout) :: state.seen
              total }

/- What is swept of a scan. -/
def spendable (scan : CashcodeScanResult) : List CashcodeReceipt :=
  scan.receipts.filter (fun receipt => receipt.unspent && receipt.token.isNone)

/- The size of the output that takes everything. -/
def outputBytes (script : List UInt8) : Nat :=
  8 + (varint (UInt64.ofNat script.length)).length + script.length

/- Three times the output and the input that spends it. -/
def dustThreshold (script : List UInt8) : Nat := 3 * (outputBytes script + 148)

/- The size with signatures of the greatest length. -/
def maximumBytes (count : Nat) (script : List UInt8) : Nat :=
  4 + (varint (UInt64.ofNat count)).length + 149 * count + 1 + outputBytes script + 4

/- What is signed, with the size that its fee is for. -/
structure SweepPlan (curve : KeyGroup) where
  inputs : List Utxo
  signing : List curve.SecretKey
  script : List UInt8
  amount : UInt64
  fee : UInt64

def SweepPlan.transaction {curve : KeyGroup} (plan : SweepPlan curve) : Transaction :=
  Transaction.new plan.inputs [Output.new plan.amount plan.script]

/- The fee and what is left, if it is not dust. -/
def planAmounts (feeRate total : UInt64) (count : Nat) (script : List UInt8) :
    Except (Fault String) (UInt64 × UInt64) :=
  if 2 ^ 64 ≤ feeRate.toNat * maximumBytes count script then
    .error (.error "Cash Code sweep fee overflow")
  else
    let fee := UInt64.ofNat (feeRate.toNat * maximumBytes count script)
    if total.toNat < fee.toNat ∨ (total - fee).toNat < dustThreshold script
    then .error (.error "Cash Code receipts cannot cover the fee and a non-dust output")
    else .ok (fee, total - fee)

def planSweep (keys : CashcodeScanKeys) (scan : CashcodeScanResult) (destination : String)
    (feeRate : UInt64) : Except (Fault String) (SweepPlan primitives.curve) :=
  match keys.spend with
  | none => .error (.error "A scan-only Cash Code cannot authorize a spend")
  | some spend => do
      let address ← Address.decode tables destination
      if address.addressPrefix ≠ keys.network.addressPrefix then
        .error (.error "Sweep destination belongs to another network")
      else if feeRate = 0 then .error (.error "Sweep fee rate must be at least 1 satoshi per byte")
      else do
        let collected ← (spendable scan).foldlM (collect primitives tables keys spend)
            (Collected.start primitives.curve)
        if collected.inputs = [] then
          .error (.error "No unspent, non-token Cash Code receipts to sweep")
        else do
          let amounts ←
            planAmounts feeRate collected.total collected.inputs.length address.scriptPubkey
          .ok
            { inputs := collected.inputs
              signing := collected.signing
              script := address.scriptPubkey
              amount := amounts.2
              fee := amounts.1 }

/- The sweep that signed bytes are. -/
def SweepPlan.sweep {curve : KeyGroup} (sha256 : List UInt8 → Vector UInt8 32)
    (plan : SweepPlan curve) (raw : List UInt8) : CashcodeSweep :=
  { raw
    txid := doubleSha256 sha256 raw
    amountSats := plan.amount
    feeSats := plan.fee
    inputCount := plan.inputs.length }

def prepareCashcodeSweep (signer : EcdsaSigner primitives.curve) (keys : CashcodeScanKeys)
    (scan : CashcodeScanResult) (destination : String) (feeRate : UInt64) :
    Except (Fault String) CashcodeSweep := do
  let plan ← planSweep primitives tables keys scan destination feeRate
  let raw ← (plan.transaction.sign primitives.sha256 signer plan.signing).mapError
      (fun e => Fault.error e.toString)
  if maximumBytes plan.inputs.length plan.script < raw.length then
    .error (.error "Signed sweep exceeded its reviewed fee size")
  else .ok (plan.sweep primitives.sha256 raw)

--- Collected Receipts

variable {primitives tables}

/- An input spends a receipt, and its key is the one that the origin of the receipt gives for its
   address. -/
structure Spends (primitives : RpaPrimitives) (tables : UnicodeTables) (keys : CashcodeScanKeys)
    (spend : Vector UInt8 32) (receipt : CashcodeReceipt)
    (input : Utxo × primitives.curve.SecretKey) : Prop where
  outpoint :
    ∃ point,
    Outpoint.parse receipt.txid receipt.vout = .ok point ∧ input.1.txid = point.txid.reverse ∧
      input.1.vout = point.vout
  value : input.1.value = receipt.valueSats
  script :
    ∃ address,
    Address.decode tables receipt.address = .ok address ∧
      input.1.scriptPubkey = address.scriptPubkey
  controlled :
    ∃ sender,
    senderPublic receipt.senderPubkeyHex = .ok sender ∧
      Rpa.RecipeControls primitives tables keys.scan spend receipt.prevoutTxid receipt.prevoutIndex
        sender receipt.address keys.network input.2

/- What one receipt adds. -/
structure Adds (primitives : RpaPrimitives) (tables : UnicodeTables) (keys : CashcodeScanKeys)
    (spend : Vector UInt8 32) (state : Collected primitives.curve) (receipt : CashcodeReceipt)
    (next : Collected primitives.curve) (input : Utxo) (key : primitives.curve.SecretKey) :
    Prop where
  spends : Spends primitives tables keys spend receipt (input, key)
  inputs : next.inputs = state.inputs ++ [input]
  signing : next.signing = state.signing ++ [key]
  seen : next.seen = (input.txid.reverse, input.vout) :: state.seen
  fresh : (input.txid.reverse, input.vout) ∉ state.seen
  room : state.inputs.length < maximumInputs
  total : next.total.toNat = state.total.toNat + receipt.valueSats.toNat

variable {keys : CashcodeScanKeys} {spend : Vector UInt8 32} {state : Collected primitives.curve}

theorem adds_of_collect {next : Collected primitives.curve} {receipt : CashcodeReceipt}
    (hCollect : collect primitives tables keys spend state receipt = .ok next) :
    ∃ input key, Adds primitives tables keys spend state receipt next input key := by
  unfold collect at hCollect
  split at hCollect
  · cases hCollect
  rename_i hRoom
  rcases bind_eq_ok_iff.mp hCollect with ⟨point, hPoint, hCollect⟩
  split at hCollect
  · cases hCollect
  rename_i hFresh
  rcases bind_eq_ok_iff.mp hCollect with ⟨sender, hSender, hCollect⟩
  rcases bind_eq_ok_iff.mp hCollect with ⟨key, hKey, hCollect⟩
  split at hCollect
  · cases hCollect
  rename_i total hTotal
  split at hCollect
  · cases hCollect
  rcases bind_eq_ok_iff.mp hCollect with ⟨address, hAddress, hNext⟩
  cases hNext
  have hParsed := mapError_eq_ok_iff.mp hPoint
  have hVout : point.vout = receipt.vout := by
    rcases bind_eq_ok_iff.mp hParsed with ⟨txid, -, hSame⟩
    cases hSame
    rfl
  have hControls := Rpa.signingKeyForReceipt_controls (mapError_eq_ok_iff.mp hKey)
  refine
    ⟨{ txid := point.txid.reverse
       vout := receipt.vout
       value := receipt.valueSats
       scriptPubkey := address.scriptPubkey }, key, ?_⟩
  constructor
  · exact ⟨⟨point, hParsed, rfl, hVout.symm⟩, rfl, ⟨address, hAddress, rfl⟩,
      ⟨sender, mapError_eq_ok_iff.mp hSender, hControls⟩⟩
  · rfl
  · rfl
  · dsimp only
    rw [Vector.reverse_reverse, hVout]
  · dsimp only
    rw [Vector.reverse_reverse, ← hVout]
    exact hFresh
  · exact Nat.lt_of_not_le hRoom
  · exact WordSums.checkedAdd_eq_some hTotal

/- What holds once the receipts are consumed. -/
structure Holds (primitives : RpaPrimitives) (tables : UnicodeTables) (keys : CashcodeScanKeys)
    (spend : Vector UInt8 32) (consumed : List CashcodeReceipt)
    (state : Collected primitives.curve) : Prop where
  signing : state.signing.length = state.inputs.length
  spends :
    List.Forall₂ (Spends primitives tables keys spend) consumed (state.inputs.zip state.signing)
  count : state.inputs.length = consumed.length
  room : state.inputs.length ≤ maximumInputs
  seen : state.seen.reverse = state.inputs.map (fun input => (input.txid.reverse, input.vout))
  once : state.seen.Nodup
  total : state.total.toNat = WordSums.total (consumed.map CashcodeReceipt.valueSats)

theorem holds_start (keys : CashcodeScanKeys) (spend : Vector UInt8 32) :
    Holds primitives tables keys spend [] (Collected.start primitives.curve) := by
  constructor
  · rfl
  · exact List.Forall₂.nil
  · rfl
  · exact Nat.zero_le _
  · rfl
  · exact List.nodup_nil
  · rfl

theorem Holds.step {consumed : List CashcodeReceipt} {next : Collected primitives.curve}
    {receipt : CashcodeReceipt} (hHolds : Holds primitives tables keys spend consumed state)
    (hCollect : collect primitives tables keys spend state receipt = .ok next) :
    Holds primitives tables keys spend (consumed ++ [receipt]) next := by
  rcases adds_of_collect hCollect with ⟨input, key, hAdds⟩
  constructor
  · rw [hAdds.inputs, hAdds.signing, List.length_append, List.length_append, hHolds.signing]
    rfl
  · rw [hAdds.inputs, hAdds.signing, List.zip_append hHolds.signing.symm]
    exact List.rel_append hHolds.spends (List.Forall₂.cons hAdds.spends List.Forall₂.nil)
  · rw [hAdds.inputs, List.length_append, List.length_append, hHolds.count]
    rfl
  · have hRoom := hAdds.room
    rw [hAdds.inputs, List.length_append, List.length_singleton]
    omega
  · rw [hAdds.seen, hAdds.inputs, List.reverse_cons, hHolds.seen, List.map_append]
    rfl
  · rw [hAdds.seen]
    exact List.nodup_cons.mpr ⟨hAdds.fresh, hHolds.once⟩
  · rw [hAdds.total, hHolds.total, List.map_append, List.map_singleton, WordSums.total_concat]

theorem holds_of_foldlM {receipts : List CashcodeReceipt} {collected : Collected primitives.curve}
    (hFold :
        receipts.foldlM (collect primitives tables keys spend) (Collected.start primitives.curve) =
          .ok collected) : Holds primitives tables keys spend receipts collected := by
  have hAll :=
    foldlM_invariant (fun _ _ _ _ hHolds hCollect => Holds.step hHolds hCollect)
      (holds_start keys spend) hFold
  exact hAll

theorem Holds.outpoints {consumed : List CashcodeReceipt}
    (hHolds : Holds primitives tables keys spend consumed state) :
    (state.inputs.map (fun input => (input.txid, input.vout))).Nodup := by
  have hOnce := List.nodup_reverse.mpr hHolds.once
  rw [hHolds.seen] at hOnce
  have hSame :
      state.inputs.map (fun input => (input.txid.reverse, input.vout)) = (state.inputs.map
          (fun input => (input.txid, input.vout))).map
            (fun outpoint => (outpoint.1.reverse, outpoint.2)) := by
    rw [List.map_map]
    rfl
  rw [hSame] at hOnce
  exact hOnce.of_map _

--- Plans

/- What a plan is of a scan. -/
structure Planned (primitives : RpaPrimitives) (tables : UnicodeTables) (keys : CashcodeScanKeys)
    (scan : CashcodeScanResult) (destination : String) (feeRate : UInt64)
    (plan : SweepPlan primitives.curve) : Prop where
  spends :
    ∃ spend,
    keys.spend = some spend ∧ List.Forall₂ (Spends primitives tables keys spend) (spendable scan)
        (plan.inputs.zip plan.signing)
  signing : plan.signing.length = plan.inputs.length
  count : plan.inputs.length = (spendable scan).length
  nonempty : plan.inputs ≠ []
  room : plan.inputs.length ≤ maximumInputs
  once : (plan.inputs.map (fun input => (input.txid, input.vout))).Nodup
  destination :
    ∃ address,
    Address.decode tables destination = .ok address ∧
      address.addressPrefix = keys.network.addressPrefix ∧
      plan.script = address.scriptPubkey
  balance :
    plan.amount.toNat + plan.fee.toNat =
      WordSums.total ((spendable scan).map CashcodeReceipt.valueSats)
  fee : plan.fee.toNat = feeRate.toNat * maximumBytes plan.inputs.length plan.script
  dust : dustThreshold plan.script ≤ plan.amount.toNat
  rate : 0 < feeRate.toNat

theorem planAmounts_eq_ok {feeRate total : UInt64} {count : Nat} {script : List UInt8}
    {amounts : UInt64 × UInt64} (hAmounts : planAmounts feeRate total count script = .ok amounts) :
    amounts.1.toNat = feeRate.toNat * maximumBytes count script ∧
    amounts.2.toNat + amounts.1.toNat = total.toNat ∧
    dustThreshold script ≤ amounts.2.toNat := by
  unfold planAmounts at hAmounts
  split at hAmounts
  · cases hAmounts
  rename_i hFits
  dsimp only at hAmounts
  split at hAmounts
  · cases hAmounts
  rename_i hCovers
  rw [← Except.ok.inj hAmounts]
  dsimp only
  have hFee :
      (UInt64.ofNat (feeRate.toNat * maximumBytes count script)).toNat =
        feeRate.toNat * maximumBytes count script :=
    UInt64.toNat_ofNat_of_lt' (Nat.lt_of_not_le hFits)
  generalize UInt64.ofNat (feeRate.toNat * maximumBytes count script) = fee at hFee hCovers ⊢
  rw [not_or, Nat.not_lt, Nat.not_lt] at hCovers
  have hRest : (total - fee).toNat = total.toNat - fee.toNat :=
    UInt64.toNat_sub_of_le _ _ (UInt64.le_iff_toNat_le.mpr hCovers.1)
  refine ⟨hFee, ?_, hCovers.2⟩
  rw [hRest]
  omega

theorem planned_of_planSweep {scan : CashcodeScanResult} {destination : String} {feeRate : UInt64}
    {plan : SweepPlan primitives.curve}
    (hPlan : planSweep primitives tables keys scan destination feeRate = .ok plan) :
    Planned primitives tables keys scan destination feeRate plan := by
  unfold planSweep at hPlan
  split at hPlan
  · cases hPlan
  rename_i spend hSpend
  rcases bind_eq_ok_iff.mp hPlan with ⟨address, hAddress, hPlan⟩
  split at hPlan
  · cases hPlan
  rename_i hPrefix
  split at hPlan
  · cases hPlan
  rename_i hRate
  rcases bind_eq_ok_iff.mp hPlan with ⟨collected, hCollected, hPlan⟩
  split at hPlan
  · cases hPlan
  rename_i hNonempty
  rcases bind_eq_ok_iff.mp hPlan with ⟨amounts, hAmounts, hSame⟩
  cases hSame
  have hHolds := holds_of_foldlM hCollected
  rcases planAmounts_eq_ok hAmounts with ⟨hFee, hSum, hDust⟩
  constructor
  · exact ⟨spend, hSpend, hHolds.spends⟩
  · exact hHolds.signing
  · exact hHolds.count
  · exact hNonempty
  · exact hHolds.room
  · exact hHolds.outpoints
  · exact ⟨address, hAddress, not_not.mp hPrefix, rfl⟩
  · dsimp only
    rw [hSum, hHolds.total]
  · exact hFee
  · exact hDust
  · rw [Nat.pos_iff_ne_zero]
    intro hZero
    exact hRate (UInt64.toNat_inj.mp hZero)

end CashcodeScanKeys

--- Sizes

namespace Transaction

variable {sha256 : List UInt8 → Vector UInt8 32} {curve : KeyGroup} {signer : EcdsaSigner curve}

theorem length_varint_of_small {n : Nat} (hSmall : n ≤ 252) :
    (varint (UInt64.ofNat n)).length = 1 := by
  have hLe : UInt64.ofNat n ≤ 0xfc := by
    rw [UInt64.le_iff_toNat_le, UInt64.toNat_ofNat_of_lt' (lt_of_le_of_lt hSmall (by decide))]
    exact hSmall
  unfold varint
  rw [if_pos hLe]
  rfl

theorem length_pushData {data : List UInt8} (hShort : data.length ≤ 75) :
    (pushData data).length = data.length + 1 := by
  unfold pushData
  rw [if_pos hShort, List.length_cons]

/- By induction over the inputs. -/
theorem length_serializeInputs {sequence : UInt32} {scriptSigs : List (List UInt8)}
    (hShort : ∀ sig ∈ scriptSigs, sig.length ≤ 108) (i : Nat) (inputs : List Utxo) :
    (serializeInputs sequence scriptSigs i inputs).length ≤ 149 * inputs.length := by
  induction inputs generalizing i with
  | nil => exact Nat.zero_le _
  | cons input inputs ih =>
    have hHere : ((scriptSigs[i]?).getD []).length ≤ 108 := by
      cases hSig : scriptSigs[i]? with
      | none => exact Nat.zero_le _
      | some sig => exact hShort sig (List.mem_of_getElem? hSig)
    have hRest := ih (i + 1)
    have hCount := length_varint_of_small (by omega : ((scriptSigs[i]?).getD []).length ≤ 252)
    unfold serializeInputs
    dsimp only
    simp only [List.length_append, List.length_cons, length_bytesLE, Vector.length_toList, hCount]
    omega

/- The public key of a key has its length. -/
theorem length_publicKey (key : curve.SecretKey) : (curve.encode key.publicPoint).length = 33 := by
  rcases KeyGroup.exists_publicKey key with ⟨bytes, hBytes, -⟩
  rw [hBytes, Vector.length_toList]

/- No signature is longer than 72 bytes. -/
def ShortSignatures (signer : EcdsaSigner curve) : Prop :=
  ∀ key digest signature, signer.signPrehash key digest = .ok signature → signature.length ≤ 72

variable {tx : Transaction}

theorem length_scriptSig (hShort : ShortSignatures signer) {index : Nat} {key : curve.SecretKey}
    {sig : List UInt8} (hSig : scriptSig sha256 signer tx index key = .ok sig) :
    sig.length ≤ 108 := by
  rcases bind_eq_ok_iff.mp hSig with ⟨digest, -, hSig⟩
  rcases bind_eq_ok_iff.mp hSig with ⟨signature, hSignature, hSame⟩
  have hLength := hShort key digest signature (mapError_eq_ok_iff.mp hSignature)
  have hMode : (signature ++ [sighashAllForkid.toUInt8]).length ≤ 75 := by
    rw [List.length_append, List.length_singleton]
    omega
  have hKey := length_publicKey key
  rw [← Except.ok.inj hSame, List.length_append,
    length_pushData hMode, length_pushData (by omega), hKey,
    List.length_append, List.length_singleton]
  omega

/- What signing gives: a script for each input. -/
theorem signDetailed_eq_ok_iff {keys : List curve.SecretKey} {raw : List UInt8}
    {scriptSigs : List (List UInt8)} :
    signDetailed sha256 signer tx keys = .ok (raw, scriptSigs) ↔
    keys.length = tx.inputs.length ∧
      keys.zipIdx.mapM (fun entry => scriptSig sha256 signer tx entry.2 entry.1) = .ok scriptSigs ∧
      raw = tx.serialize scriptSigs := by
  unfold signDetailed
  constructor
  · intro hSigned
    split at hSigned
    · cases hSigned
    · rename_i hLength
      rcases bind_eq_ok_iff.mp hSigned with ⟨found, hFound, hSame⟩
      cases hSame
      exact ⟨not_not.mp hLength, hFound, rfl⟩
  · rintro ⟨hLength, hScripts, rfl⟩
    rw [if_neg (not_not.mpr hLength), bind_of_ok hScripts]

theorem signDetailed_of_sign {keys : List curve.SecretKey} {raw : List UInt8}
    (hSign : sign sha256 signer tx keys = .ok raw) :
    ∃ scriptSigs, signDetailed sha256 signer tx keys = .ok (raw, scriptSigs) := by
  unfold sign at hSign
  cases hSigned : signDetailed sha256 signer tx keys with
  | error e =>
    rw [hSigned] at hSign
    cases hSign
  | ok signed =>
    rw [hSigned] at hSign
    cases hSign
    exact ⟨signed.2, rfl⟩

/- What each key signed: the digest of its input. -/
def SignedBy (sha256 : List UInt8 → Vector UInt8 32) (signer : EcdsaSigner curve) (tx : Transaction)
    (keys : List curve.SecretKey) (scriptSigs : List (List UInt8)) : Prop :=
  List.Forall₂
    (fun entry sig => ∃ digest signature,
        sighash sha256 tx entry.2 = .ok digest ∧ signer.signPrehash entry.1 digest = .ok signature ∧
          sig = pushData (signature ++ [sighashAllForkid.toUInt8]) ++
              pushData (curve.encode entry.1.publicPoint)) keys.zipIdx scriptSigs

theorem signedBy_of_scriptSig {index : Nat} {key : curve.SecretKey} {sig : List UInt8}
    (hSig : scriptSig sha256 signer tx index key = .ok sig) :
    ∃ digest signature,
    sighash sha256 tx index = .ok digest ∧ signer.signPrehash key digest = .ok signature ∧
      sig = pushData (signature ++ [sighashAllForkid.toUInt8]) ++
          pushData (curve.encode key.publicPoint) := by
  rcases bind_eq_ok_iff.mp hSig with ⟨digest, hDigest, hSig⟩
  rcases bind_eq_ok_iff.mp hSig with ⟨signature, hSignature, hSame⟩
  exact ⟨digest, signature, hDigest, mapError_eq_ok_iff.mp hSignature, (Except.ok.inj hSame).symm⟩

/- A script is a part of what is serialized, by induction over the inputs. -/
theorem length_le_serializeInputs {sequence : UInt32} {scriptSigs : List (List UInt8)}
    {sig : List UInt8} {i j : Nat} {inputs : List Utxo} (hSig : scriptSigs[j]? = some sig)
    (hLe : i ≤ j) (hLt : j < i + inputs.length) :
    sig.length ≤ (serializeInputs sequence scriptSigs i inputs).length := by
  induction inputs generalizing i with
  | nil =>
    rw [List.length_nil] at hLt
    omega
  | cons input inputs ih =>
    unfold serializeInputs
    dsimp only
    simp only [List.length_append]
    rcases Nat.eq_or_lt_of_le hLe with rfl | hBehind
    · rw [hSig, Option.getD_some]
      omega
    · rw [List.length_cons] at hLt
      have hRest := @ih (i + 1) hBehind (by omega)
      omega

theorem length_le_serialize {tx : Transaction} {scriptSigs : List (List UInt8)}
    (hLength : scriptSigs.length = tx.inputs.length) :
    ∀ sig ∈ scriptSigs, sig.length ≤ (tx.serialize scriptSigs).length := by
  intro sig hMem
  rcases List.mem_iff_getElem?.mp hMem with ⟨j, hSig⟩
  have hLt : j < scriptSigs.length := (List.getElem?_eq_some_iff.mp hSig).1
  have hInputs :=
    @length_le_serializeInputs tx.sequence scriptSigs sig 0 j
      tx.inputs hSig (Nat.zero_le j) (by omega)
  unfold serialize
  simp only [List.length_append]
  omega

end Transaction

namespace CashcodeScanKeys

variable {primitives : RpaPrimitives} {tables : UnicodeTables}
variable {signer : EcdsaSigner primitives.curve} {keys : CashcodeScanKeys}
variable {scan : CashcodeScanResult} {destination : String} {feeRate : UInt64}
variable {plan : SweepPlan primitives.curve}

/- The size of a plan with the scripts of its inputs. -/
theorem length_transaction (plan : SweepPlan primitives.curve) (scriptSigs : List (List UInt8)) :
    (plan.transaction.serialize scriptSigs).length =
      4 + (varint (UInt64.ofNat plan.inputs.length)).length +
        (Transaction.serializeInputs 0xffffffff scriptSigs 0 plan.inputs).length + 1 +
        outputBytes plan.script + 4 := by
  have hOne : (varint 1).length = 1 := by decide
  unfold Transaction.serialize SweepPlan.transaction Transaction.new Output.new
  simp [Transaction.serializeOutput, Output.lockingField, hOne, outputBytes]
  omega

/-
  With signatures of 72 bytes at most, the bytes are no more than the fee is for, whatever the
  number of inputs is.
-/
theorem length_le_maximumBytes (hShort : Transaction.ShortSignatures signer) {raw : List UInt8}
    (hSign : plan.transaction.sign primitives.sha256 signer plan.signing = .ok raw) :
    raw.length ≤ maximumBytes plan.inputs.length plan.script := by
  rcases Transaction.signDetailed_of_sign hSign with ⟨scriptSigs, hSigned⟩
  rcases Transaction.signDetailed_eq_ok_iff.mp hSigned with ⟨-, hScripts, rfl⟩
  have hSigs : ∀ sig ∈ scriptSigs, sig.length ≤ 108 := by
    intro sig hMem
    rcases (mem_of_mapM hScripts).mp hMem with ⟨entry, -, hSig⟩
    exact Transaction.length_scriptSig hShort hSig
  have hInputs := @Transaction.length_serializeInputs 0xffffffff scriptSigs hSigs 0 plan.inputs
  rw [length_transaction]
  unfold maximumBytes
  omega

--- Sweeps

theorem scriptPubkey_head (address : Address) : address.scriptPubkey.head? ≠ some prefixToken := by
  unfold Address.scriptPubkey
  intro hHead
  cases hKind : address.kind <;> rw [hKind] at hHead <;>
    exact absurd (Option.some.inj hHead) (by decide)

/- What is signed of a plan decodes to its inputs and to one output. -/
theorem decode_of_signed (hPlanned : Planned primitives tables keys scan destination feeRate plan)
    {scriptSigs : List (List UInt8)} (hLength : scriptSigs.length = plan.inputs.length)
    (hReviewed :
          (plan.transaction.serialize scriptSigs).length ≤
            maximumBytes plan.inputs.length plan.script) :
    ∃ decoded,
      OptnWallet.decode (plan.transaction.serialize scriptSigs) = .ok decoded ∧
        decoded.inputs = plan.inputs.map (fun input => (input.txid, input.vout, 0xffffffff)) ∧
        decoded.outputs =
          [{ value := plan.amount
             scriptPubkey := plan.script
             token := none }] := by
  have hFits : maximumBytes plan.inputs.length plan.script < 2 ^ 64 := by
    have hLt := plan.fee.toNat_lt
    have hFee := hPlanned.fee
    have hLe := Nat.le_mul_of_pos_left (maximumBytes plan.inputs.length plan.script) hPlanned.rate
    omega
  have hSigs := @Transaction.length_le_serialize plan.transaction scriptSigs hLength
  have hRange : plan.transaction.InRange scriptSigs := by
    constructor
    · have hRoom := hPlanned.room
      unfold maximumInputs at hRoom
      exact lt_of_le_of_lt hRoom (by decide)
    · intro sig hMem
      have hLe := hSigs sig hMem
      omega
    · exact Nat.one_lt_two_pow (by decide)
    · intro output hMem
      rcases List.mem_singleton.mp hMem with rfl
      change plan.script.length < 2 ^ 64
      unfold maximumBytes outputBytes at hFits
      omega
  have hPrefixes : plan.transaction.PrefixesEncoded := by
    intro output hMem
    rcases List.mem_singleton.mp hMem with rfl
    rcases hPlanned.destination with ⟨address, -, -, hScript⟩
    change plan.script.head? ≠ some prefixToken
    rw [hScript]
    exact scriptPubkey_head address
  rcases (Transaction.serialize_roundTrip plan.transaction scriptSigs hRange hPrefixes).1 with
    ⟨decoded, hDecode, hTo⟩
  refine ⟨decoded, hDecode, hTo.inputs, ?_⟩
  have hOutputs := hTo.outputs
  change List.Forall₂ Transaction.OutputDecodesTo [Output.new plan.amount plan.script]
    decoded.outputs at hOutputs
  generalize decoded.outputs = outputs at hOutputs
  cases hOutputs with
  | cons hFirst hRest =>
    cases hRest
    rename_i found
    have hValue := hFirst.value
    have hScript := hFirst.script
    have hToken := hFirst.bare rfl
    rcases found with ⟨value, script, token⟩
    dsimp only at hValue hScript hToken
    rw [hValue, hScript, hToken]
    rfl

/- What a sweep is: its plan, signed. -/
structure Swept (primitives : RpaPrimitives) (tables : UnicodeTables)
    (signer : EcdsaSigner primitives.curve) (keys : CashcodeScanKeys) (scan : CashcodeScanResult)
    (destination : String) (feeRate : UInt64) (plan : SweepPlan primitives.curve)
    (sweep : CashcodeSweep) : Prop where
  planned : Planned primitives tables keys scan destination feeRate plan
  signed :
    ∃ scriptSigs,
    Transaction.SignedBy primitives.sha256 signer plan.transaction plan.signing scriptSigs ∧
      sweep.raw = plan.transaction.serialize scriptSigs
  decodes :
    ∃ decoded,
      OptnWallet.decode sweep.raw = .ok decoded ∧
        decoded.inputs = plan.inputs.map (fun input => (input.txid, input.vout, 0xffffffff)) ∧
        decoded.outputs =
          [{ value := sweep.amountSats, scriptPubkey := plan.script, token := none }]
  reported : sweep = plan.sweep primitives.sha256 sweep.raw
  paid : feeRate.toNat * sweep.raw.length ≤ sweep.feeSats.toNat

theorem swept_of_prepare {sweep : CashcodeSweep}
    (hSweep :
        prepareCashcodeSweep primitives tables signer keys scan destination feeRate = .ok sweep) :
    ∃ plan, Swept primitives tables signer keys scan destination feeRate plan sweep := by
  rcases bind_eq_ok_iff.mp hSweep with ⟨plan, hPlan, hSweep⟩
  rcases bind_eq_ok_iff.mp hSweep with ⟨raw, hRaw, hSweep⟩
  split at hSweep
  · cases hSweep
  rename_i hReviewed
  rw [Nat.not_lt] at hReviewed
  rw [← Except.ok.inj hSweep]
  have hPlanned := planned_of_planSweep hPlan
  rcases Transaction.signDetailed_of_sign (mapError_eq_ok_iff.mp hRaw) with ⟨scriptSigs, hSigned⟩
  rcases Transaction.signDetailed_eq_ok_iff.mp hSigned with ⟨hKeys, hScripts, rfl⟩
  have hLength : scriptSigs.length = plan.inputs.length := by
    have hSame := length_of_mapM hScripts
    rw [List.length_zipIdx] at hSame
    exact hSame.trans hKeys
  refine ⟨plan, ?_⟩
  constructor
  · exact hPlanned
  · refine ⟨scriptSigs, ?_, rfl⟩
    apply forall₂_of_mapM ?_ hScripts
    intro entry sig hSig
    exact Transaction.signedBy_of_scriptSig hSig
  · exact decode_of_signed hPlanned hLength hReviewed
  · rfl
  · change feeRate.toNat * (plan.transaction.serialize scriptSigs).length ≤ plan.fee.toNat
    rw [hPlanned.fee]
    exact Nat.mul_le_mul_left _ hReviewed

/-
  A sweep spends each receipt of the scan that is unspent and has no token once, with the key that
  controls its address, and pays what they are worth less the fee to the destination.  With
  signatures of 72 bytes at most, the check of the signed size changes nothing.
-/
theorem sweep_accounts (primitives : RpaPrimitives) (tables : UnicodeTables)
    (signer : EcdsaSigner primitives.curve) (keys : CashcodeScanKeys) (scan : CashcodeScanResult)
    (destination : String) (feeRate : UInt64) :
    (∀ sweep,
      prepareCashcodeSweep primitives tables signer keys scan destination feeRate = .ok sweep →
        ∃ plan, Swept primitives tables signer keys scan destination feeRate plan sweep) ∧
      (Transaction.ShortSignatures signer → (∀ plan raw,
          planSweep primitives tables keys scan destination feeRate = .ok plan →
            plan.transaction.sign primitives.sha256 signer plan.signing = .ok raw →
              raw.length ≤ maximumBytes plan.inputs.length plan.script) ∧
          prepareCashcodeSweep primitives tables signer keys scan destination feeRate = (do
              let plan ← planSweep primitives tables keys scan destination feeRate
              let raw ← (plan.transaction.sign primitives.sha256 signer
                  plan.signing).mapError (fun e => Fault.error e.toString)
              .ok (plan.sweep primitives.sha256 raw))) := by
  refine ⟨fun _ hSweep => swept_of_prepare hSweep, ?_⟩
  intro hShort
  refine ⟨?_, ?_⟩
  · intro plan raw _ hSign
    exact length_le_maximumBytes hShort hSign
  · unfold prepareCashcodeSweep
    apply bind_congr
    intro plan
    cases hSign : plan.transaction.sign primitives.sha256 signer plan.signing with
    | error e => rfl
    | ok raw =>
      have hLe := length_le_maximumBytes hShort hSign
      change
        (if maximumBytes plan.inputs.length plan.script < raw.length
          then _
          else _) = _
      rw [if_neg (Nat.not_lt.mpr hLe)]
      rfl

/- The payment of the small curve, to a receipt of its own. -/
def sampleKeys : CashcodeScanKeys :=
  { network := .chipnet
    scan := Rpa.scalarBytes 21
    spend := some (Rpa.scalarBytes 22)
    spendPublic := Rpa.samplePublic 22 }

def sampleReceipt : CashcodeReceipt :=
  { txid := hexString (List.replicate 32 0x11)
    vout := 0
    address := Rpa.samplePaid.encode.getD ""
    valueSats := 50000
    token := none
    prevoutTxid := (Rpa.sampleInput 23 0).parsed.1
    prevoutIndex := 7
    senderPubkeyHex := hexString (Rpa.samplePublic 23).toList
    blockHeight := none
    unspent := true }

def sampleScan : CashcodeScanResult :=
  { fromHeight := 0
    tip := { height := 1, hash := Vector.replicate 32 0 }
    evidence := .serverAssertion
    includesMempool := true
    receipts := [sampleReceipt] }

def sampleSigner : EcdsaSigner Rpa.samplePrimitives.curve :=
  { signPrehash := fun _ _ => .ok (List.replicate 71 0x30) }

theorem sweep_accounts_sample :
    ∃ sweep plan,
    Swept Rpa.samplePrimitives Address.caselessTables sampleSigner sampleKeys sampleScan
        (Rpa.samplePaid.encode.getD "") 1 plan sweep ∧
      sweep.amountSats = 49807 := by
  have hRun :
      ∃ sweep,
      prepareCashcodeSweep Rpa.samplePrimitives Address.caselessTables sampleSigner sampleKeys
            sampleScan (Rpa.samplePaid.encode.getD "") 1 = .ok sweep ∧
        sweep.amountSats = 49807 := by
    apply exists_ok_of_check
    decide +kernel
  rcases hRun with ⟨sweep, hSweep, hAmount⟩
  rcases
    (sweep_accounts Rpa.samplePrimitives Address.caselessTables sampleSigner sampleKeys sampleScan
      (Rpa.samplePaid.encode.getD "") 1).1 sweep hSweep with ⟨plan, hSwept⟩
  exact ⟨sweep, plan, hSwept, hAmount⟩

end CashcodeScanKeys

end OptnWallet
