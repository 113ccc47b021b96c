import OptnWallet.Core.Tx.Layout
import OptnWallet.Fusion.P2pSign
import OptnWallet.Fusion.Run.Signing

/-
  A transaction that a fusion hands out reads back as the one that was checked, with a valid
  signature on every input.

  Main declarations:
    * `Fusion.signedRaw`
    * `Fusion.Delivers` and `Fusion.delivers_of_completed`
-/

--- Signed Transactions

namespace OptnWallet.Fusion

open StagedUpdate ByteFormat
open Schnorr (Curve Signature)
open P2pSign (signatureBytes)

def signedRawInput (entry : TxInput × List UInt8) : RawInput :=
  { txid := entry.1.prevTxidWire
    vout := entry.1.prevIndex
    scriptSig := FusionTx.scriptSig entry.1 entry.2
    sequence := sequenceFinal }

def rawOutput (output : TxOutput) : RawOutput := { value := output.value, field := output.script }

/- The transaction with a signature on each of its inputs. -/
def signedRaw (tx : FusionTx) (signatures : List (List UInt8)) : RawTransaction :=
  { version := tx.version
    inputs := (tx.inputs.zip signatures).map signedRawInput
    outputs := tx.outputs.map rawOutput
    locktime := 0 }

theorem signedInput_eq_ok_iff {entry : TxInput × List UInt8} {bytes : List UInt8} :
    FusionTx.signedInput entry = .ok bytes ↔
    entry.2.length = 64 ∧ bytes = (signedRawInput entry).bytes := by
  unfold FusionTx.signedInput
  split
  · rename_i hLength
    constructor
    · intro hOk
      cases hOk
    · rintro ⟨hLength', -⟩
      exact absurd hLength' hLength
  · rename_i hLength
    rw [not_not] at hLength
    unfold RawInput.bytes signedRawInput FusionTx.outpointBytes
    simp only [List.append_assoc, hLength, true_and, Except.ok.injEq]
    exact eq_comm

variable {tx : FusionTx} {signatures : List (List UInt8)}

theorem serialize_eq {bytes : List UInt8} (hSerialize : tx.serialize signatures = .ok bytes) :
    signatures.length = tx.inputs.length ∧ bytes = (signedRaw tx signatures).bytes := by
  unfold FusionTx.serialize at hSerialize
  split at hSerialize
  · cases hSerialize
  rename_i hCount
  rw [not_not] at hCount
  rcases bind_eq_ok_iff.mp hSerialize with ⟨inputs, hInputs, hSerialize⟩
  rcases (mapM_eq_ok_iff (fun _ _ => signedInput_eq_ok_iff)).mp hInputs with ⟨-, hEach⟩
  refine ⟨hCount, ?_⟩
  rw [← Except.ok.inj hSerialize, hEach]
  unfold signedRaw RawTransaction.bytes
  have hLength : ((tx.inputs.zip signatures).map signedRawInput).length = tx.inputs.length := by
    rw [List.length_map, List.length_zip, hCount, Nat.min_self]
  have hOutputs :
      tx.outputs.flatMap FusionTx.outputBytes =
        (tx.outputs.map rawOutput).flatMap RawOutput.bytes := by
    rw [List.flatMap_map]
    congr 1
  have hInputs' :
      ((tx.inputs.zip signatures).map (fun entry => (signedRawInput entry).bytes)).flatten =
        ((tx.inputs.zip signatures).map signedRawInput).flatMap RawInput.bytes := by
    rw [List.flatMap_map, List.flatMap_def]
  dsimp only
  rw [hLength, List.length_map, hOutputs, hInputs']
  simp only [List.append_assoc]
  rfl

--- Relayed Signatures

variable {n : Nat} {Point : Type} [AddCommGroup Point] [Module (ZMod n) Point] [DecidableEq Point]
variable (curve : Curve n Point) (sha256 : List UInt8 → Vector UInt8 32)
variable (ripemd160 : List UInt8 → Vector UInt8 20)

/- The 64 bytes are a signature of the input. -/
def ValidSignature (tx : FusionTx) (index : Nat) (bytes : List UInt8) : Prop :=
  ∃ input sighash,
    ∃ signature : Signature,
      bytes = signatureBytes signature ∧
        tx.inputs[index]? = some input ∧
        tx.sighash sha256 ripemd160 index = .ok sighash ∧
        Schnorr.verify curve sha256 input.pubkey signature sighash = .ok true

variable {curve sha256 ripemd160}

theorem validSignature_of_check {entry : List UInt8 × Nat}
    (hCheck : checkRelayed sha256 curve ripemd160 tx entry = .ok ()) :
    ValidSignature curve sha256 ripemd160 tx entry.2 entry.1 := by
  unfold checkRelayed at hCheck
  split at hCheck
  · rename_i hLength
    rcases bind_eq_ok_iff.mp hCheck with ⟨pubkey, hKey, hCheck⟩
    rcases bind_eq_ok_iff.mp hCheck with ⟨sighash, hSighash, hCheck⟩
    rcases bind_eq_ok_iff.mp hCheck with ⟨valid, hValid, hCheck⟩
    have hPubkey := okOr_eq_ok_iff.mp (mapError_eq_ok_iff.mp hKey)
    unfold FusionTx.inputPubkey at hPubkey
    rcases Option.map_eq_some_iff.mp hPubkey with ⟨input, hInput, rfl⟩
    cases valid with
    | false => cases hCheck
    | true =>
      refine ⟨input, sighash, _, ?_, hInput, mapError_eq_ok_iff.mp hSighash, hValid⟩
      unfold signatureBytes
      exact (List.take_append_drop 32 entry.1).symm
  · cases hCheck

theorem validSignatures_of_verify
    (hVerify : verifyTransactionSignatures sha256 curve ripemd160 tx signatures = .ok ()) :
    ∀ index bytes,
    signatures[index]? = some bytes → ValidSignature curve sha256 ripemd160 tx index bytes := by
  unfold verifyTransactionSignatures at hVerify
  split at hVerify
  · cases hVerify
  have hAll :=
    @foldlM_invariant Unit (List UInt8 × Nat) (Fault String)
      (fun _ entry => checkRelayed sha256 curve ripemd160 tx entry)
      (fun done _ => ∀ entry ∈ done, ValidSignature curve sha256 ripemd160 tx entry.2 entry.1)
      (by
        intro done _ entry _ hDone hCheck other hOther
        rcases List.mem_append.mp hOther with hOld | hNew
        · exact hDone other hOld
        · rw [List.mem_singleton.mp hNew]
          exact validSignature_of_check hCheck)
      [] signatures.zipIdx () () (List.forall_mem_nil _) hVerify
  intro index bytes hBytes
  exact hAll (bytes, index) (List.mem_zipIdx_iff_getElem?.mpr hBytes)

--- Outcomes

/- The reader of transactions that keeps every field. -/
def readRaw : List UInt8 → Except CliError (UInt32 × List RawInput × List RawOutput × UInt32) :=
  Reader.readAll (readTransaction takeVarint (readInput takeVarint) (readOutput takeVarint))
    truncated

theorem readRaw_bytes {raw : RawTransaction} (hRange : raw.InRange) :
    readRaw raw.bytes = .ok (raw.version, raw.inputs, raw.outputs, raw.locktime) := by
  have hInput := (readsAs_readInput readsAs_takeVarint).mapSpelled id
  have hOutput := (readsAs_readOutput readsAs_takeVarint).mapSpelled id
  rw [id_map] at hInput hOutput
  have hReads := readsAs_readTransaction readsAs_takeVarint hInput hOutput
  apply hReads.readAll_eq_ok_iff.mpr
  refine ⟨raw, rfl, ?_, hRange.input_count, ?_, hRange.output_count, rfl, rfl⟩
  · apply List.forall₂_same.mpr
    intro input hMem
    exact ⟨hRange.inputs input hMem, rfl⟩
  · apply List.forall₂_same.mpr
    intro output hMem
    exact ⟨hRange.outputs output hMem, rfl⟩

/- The bytes of an outcome are the transaction with a valid signature on every input, and the pushed
   length of each key is its own. -/
structure Delivers (curve : Curve n Point) (sha256 : List UInt8 → Vector UInt8 32)
    (ripemd160 : List UInt8 → Vector UInt8 20) (tx : FusionTx) (signatures : List (List UInt8))
    (outcome : FusionOutcome) (bytes : List UInt8) : Prop where
  hex : ∃ text, outcome.txHex = some text ∧ hexToBytes text = .ok bytes
  txid : outcome.txid = some (hexString (FusionTx.dsha256 sha256 bytes).toList.reverse)
  decodes :
    readRaw bytes =
      .ok (tx.version, (tx.inputs.zip signatures).map signedRawInput, tx.outputs.map rawOutput, 0)
  count : signatures.length = tx.inputs.length
  keys : ∀ input ∈ tx.inputs, (UInt8.ofNat input.pubkey.length).toNat = input.pubkey.length
  signatures :
    ∀ index bytes,
    signatures[index]? = some bytes → ValidSignature curve sha256 ripemd160 tx index bytes

theorem hexToBytes_hexString (bytes : List UInt8) : hexToBytes (hexString bytes) = .ok bytes := by
  have hEven : (bytes.flatMap digitBytes).length % 2 = 0 := by
    rw [List.length_flatMap]
    have hEach : bytes.map (fun byte => (digitBytes byte).length) = bytes.map (fun _ => 2) := rfl
    rw [hEach, List.map_const', List.sum_replicate, smul_eq_mul]
    exact Nat.mul_mod_left _ _
  unfold hexToBytes
  rw [utf8_hexString]
  dsimp only
  rw [if_neg (not_not.mpr hEven), hexPairs_digitBytes]

theorem delivers_of_completed
    (hPoints : ∀ bytes point, curve.parsePoint bytes = .ok point → bytes.length ≤ 65)
    (hInputs : tx.inputs.length < 2 ^ 64) (hOutputs : tx.outputs.length < 2 ^ 64)
    (hScripts : ∀ output ∈ tx.outputs, output.script.length < 2 ^ 64) {outcome : FusionOutcome}
    (hCompleted : completed sha256 curve ripemd160 tx signatures = .ok outcome) :
    ∃ bytes, Delivers curve sha256 ripemd160 tx signatures outcome bytes := by
  unfold completed at hCompleted
  rcases bind_eq_ok_iff.mp hCompleted with ⟨done, hVerify, hCompleted⟩
  rcases bind_eq_ok_iff.mp hCompleted with ⟨bytes, hRaw, hCompleted⟩
  rcases bind_eq_ok_iff.mp hCompleted with ⟨txid, hTxid, hCompleted⟩
  have hValid := validSignatures_of_verify hVerify
  have hSerialize := mapError_eq_ok_iff.mp hRaw
  rcases serialize_eq hSerialize with ⟨hCount, rfl⟩
  have hShort : ∀ input ∈ tx.inputs, input.pubkey.length ≤ 65 := by
    intro input hMem
    rcases List.mem_iff_getElem?.mp hMem with ⟨index, hAt⟩
    have hLt := (List.getElem?_eq_some_iff.mp hAt).1
    rw [← hCount] at hLt
    rcases hValid index signatures[index] (List.getElem?_eq_getElem hLt) with
      ⟨other, sighash, signature, -, hOther, -, hVerifies⟩
    rw [hAt] at hOther
    rw [Option.some.inj hOther]
    unfold Schnorr.verify at hVerifies
    split at hVerifies
    · cases hVerifies
    · rename_i point hPoint
      exact hPoints _ point hPoint
  have hRange : (signedRaw tx signatures).InRange := by
    constructor
    · change ((tx.inputs.zip signatures).map signedRawInput).length < 2 ^ 64
      rw [List.length_map, List.length_zip, hCount, Nat.min_self]
      exact hInputs
    · intro input hMem
      rcases List.mem_map.mp hMem with ⟨entry, hEntry, rfl⟩
      have hKey := hShort entry.1 (List.of_mem_zip hEntry).1
      have hSignature := (List.of_mem_zip hEntry).2
      rcases List.mem_iff_getElem?.mp hSignature with ⟨index, hAt⟩
      rcases hValid index entry.2 hAt with ⟨_, _, signature, hBytes, -⟩
      unfold RawInput.InRange signedRawInput FusionTx.scriptSig
      rw [hBytes]
      unfold signatureBytes
      simp only [List.length_append, List.length_cons, List.length_nil, Vector.length_toList]
      omega
    · change (tx.outputs.map rawOutput).length < 2 ^ 64
      rw [List.length_map]
      exact hOutputs
    · intro output hMem
      rcases List.mem_map.mp hMem with ⟨source, hSource, rfl⟩
      exact hScripts source hSource
  refine ⟨(signedRaw tx signatures).bytes, ?_⟩
  have hOutcome := (Except.ok.inj hCompleted).symm
  constructor
  · exact ⟨_, by rw [hOutcome], hexToBytes_hexString _⟩
  · have hId := mapError_eq_ok_iff.mp hTxid
    unfold FusionTx.txid at hId
    rw [bind_of_ok hSerialize] at hId
    rw [hOutcome]
    exact congrArg some (Except.ok.inj hId).symm
  · exact readRaw_bytes hRange
  · exact hCount
  · intro input hMem
    rw [UInt8.toNat_ofNat']
    exact Nat.mod_eq_of_lt (Nat.lt_of_le_of_lt (hShort input hMem) (by decide))
  · exact hValid

end OptnWallet.Fusion
