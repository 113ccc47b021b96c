import Mathlib.Algebra.Order.BigOperators.Group.List
import OptnWallet.Core.Rpa.Recovery
import OptnWallet.Runtime.RpaReceive

/-
  What a detection returns: the receipts of its transactions, each at an outpoint of theirs whose
  script its address decodes to.

  Main declarations:
    * `CashcodeScanKeys.validate_eq_ok_iff`
    * `CashcodeScanKeys.entriesFrom` and `CashcodeScanKeys.detect_eq_ok_iff`
    * `CashcodeScanKeys.isReceipt_of_entriesFrom`
-/

--- Successful Scans

namespace OptnWallet

open StagedUpdate

namespace Rpa

variable {primitives : RpaPrimitives} {scanPrivkey : Vector UInt8 32}
variable {spendPubkey : Vector UInt8 33} {network : Network} {inputs : List ParsedInput}
variable {outputs : List DecodedOutput}

/- The address of a payment is read back from its text. -/
theorem decode_of_paymentAddress (tables : UnicodeTables) {secret : Vector UInt8 32}
    {expected : Address}
    (hExpected : paymentAddress primitives spendPubkey secret network 0 = .ok expected) :
    ∃ text, expected.encode = some text ∧ Address.decode tables text = .ok expected := by
  unfold paymentAddress at hExpected
  rcases bind_eq_ok_iff.mp hExpected with ⟨point, hPoint, hEq⟩
  cases hEq
  rcases exists_paymentAddress tables hPoint network with ⟨expected, text, -, rfl, hText, hDecode⟩
  exact ⟨text, hText, hDecode⟩

theorem scanInput_scanned (tables : UnicodeTables) {input : ParsedInput} {state state' : ScanState}
    (hInput : input ∈ inputs)
    (hScanned : Scanned primitives scanPrivkey spendPubkey network inputs outputs state)
    (hScan : scanInput primitives scanPrivkey spendPubkey network outputs state input = .ok state')
      : Scanned primitives scanPrivkey spendPubkey network inputs outputs state' := by
  unfold scanInput at hScan
  split at hScan
  · cases hScan
    exact hScanned
  · rename_i sender hPubkey
    split at hScan
    · cases hScan
      exact hScanned
    · rename_i secret hSecret
      rcases bind_eq_ok_iff.mp hScan with ⟨expected, hExpected, hFold⟩
      rw [mapError_eq_ok_iff] at hExpected
      rcases decode_of_paymentAddress tables hExpected with ⟨text, hText, -⟩
      rcases reportOutputs_spec hInput ⟨hPubkey, hSecret⟩ hExpected hText
        (fun output hMem => List.mem_zipIdx_iff_getElem?.mp hMem) hScanned with
        ⟨last, hLast, hLastScanned, -⟩
      rw [hFold] at hLast
      cases hLast
      exact hLastScanned

/- By induction over the inputs that are left. -/
theorem scanInputs_scanned (tables : UnicodeTables) {rest : List ParsedInput}
    {state state' : ScanState} (hRest : rest ⊆ inputs)
    (hScanned : Scanned primitives scanPrivkey spendPubkey network inputs outputs state)
    (hScan :
        rest.foldlM (scanInput primitives scanPrivkey spendPubkey network outputs) state =
          .ok state') :
    Scanned primitives scanPrivkey spendPubkey network inputs outputs state' := by
  induction rest generalizing state with
  | nil =>
    cases hScan
    exact hScanned
  | cons input rest ih =>
    rw [List.foldlM_cons] at hScan
    rcases bind_eq_ok_iff.mp hScan with ⟨next, hNext, hLater⟩
    rcases List.cons_subset.mp hRest with ⟨hInput, hRest⟩
    exact ih hRest (scanInput_scanned tables hInput hScanned hNext) hLater

/- A successful scan reports outputs, none of them twice. -/
theorem scanTransaction_reports (tables : UnicodeTables) {raw : List UInt8} {found : List RpaMatch}
    (hScan : scanTransaction primitives raw scanPrivkey spendPubkey network = .ok found) :
    ∃ parsed decoded positions,
    parseTransaction raw = .ok parsed ∧ OptnWallet.decode raw = .ok decoded ∧
      List.Forall₂ (ReportOf primitives scanPrivkey spendPubkey network parsed.1 decoded.outputs)
        found positions ∧
      positions.Nodup := by
  unfold scanTransaction at hScan
  rcases bind_eq_ok_iff.mp hScan with ⟨parsed, hParsed, hScan⟩
  rcases bind_eq_ok_iff.mp hScan with ⟨decoded, hDecoded, hScan⟩
  rcases bind_eq_ok_iff.mp hScan with ⟨state, hState, hFound⟩
  cases hFound
  rw [mapError_eq_ok_iff] at hParsed hDecoded
  have hScanned := scanInputs_scanned tables (List.Subset.refl _) ⟨.nil, List.nodup_nil⟩ hState
  exact ⟨parsed, decoded, state.seen.reverse, hParsed, hDecoded, hScanned.reports,
    List.nodup_reverse.mpr hScanned.once⟩

end Rpa

--- Sizes

theorem length_le_flatMap {α : Type} {items : List α} {bytesOf : α → List UInt8}
    (hNonempty : ∀ item ∈ items, bytesOf item ≠ []) :
    items.length ≤ (items.flatMap bytesOf).length := by
  induction items with
  | nil => exact Nat.zero_le _
  | cons item items ih =>
    have hHere := List.length_pos_of_ne_nil (hNonempty item List.mem_cons_self)
    have hRest := ih (fun other hMem => hNonempty other (List.mem_cons_of_mem _ hMem))
    rw [List.flatMap_cons, List.length_cons, List.length_append]
    omega

/- A transaction has no more outputs than bytes. -/
theorem length_outputs_le {raw : List UInt8} {decoded : Decoded}
    (hDecode : OptnWallet.decode raw = .ok decoded) : decoded.outputs.length ≤ raw.length := by
  rcases decode_eq_ok_iff.mp hDecode with ⟨fields, -, hDecodes, rfl⟩
  have hOutputs : fields.outputs.length ≤ (fields.outputs.flatMap RawOutput.bytes).length := by
    apply length_le_flatMap
    intro output _
    unfold RawOutput.bytes
    intro hEmpty
    have hLength := congrArg List.length hEmpty
    rw [List.length_append, length_bytesLE] at hLength
    simp at hLength
  rw [← hDecodes.outputs.length_eq]
  unfold RawTransaction.bytes
  simp only [List.length_append]
  omega

--- Validated Histories

namespace CashcodeScanKeys

/- The checks of a transaction against the tip alone. -/
structure ValidTransaction (sha256 : List UInt8 → Vector UInt8 32) (tip : ChainTip)
    (transaction : ObservedTransaction) : Prop where
  identity : doubleSha256 sha256 transaction.raw = transaction.txid
  height : ∀ height, transaction.blockHeight = some height → height ≠ 0 ∧ ¬ tip.height < height

/- What validation is about. -/
structure ValidHistory (sha256 : List UInt8 → Vector UInt8 32)
    (transactions : List ObservedTransaction) (tip : ChainTip) : Prop where
  count : transactions.length ≤ 100000
  bytes : (transactions.map (·.raw.length)).sum ≤ 64 * 1024 * 1024
  each : ∀ transaction ∈ transactions, ValidTransaction sha256 tip transaction
  heights :
    ∀ first ∈ transactions,
    ∀ second ∈ transactions, first.txid = second.txid → first.blockHeight = second.blockHeight

variable {sha256 : List UInt8 → Vector UInt8 32} {tip : ChainTip}
variable {transactions : List ObservedTransaction}

/- By induction over the transactions that are left. -/
theorem validateFrom_eq_ok_iff {count : Nat} {bytes : Nat}
    {identities : BTreeMap TxId (Option UInt32)} (hBytes : bytes ≤ 64 * 1024 * 1024) :
    validateFrom sha256 count tip bytes identities transactions = .ok () ↔
    (transactions ≠ [] → count ≤ 100000) ∧
      bytes + (transactions.map (·.raw.length)).sum ≤ 64 * 1024 * 1024 ∧
      (∀ transaction ∈ transactions, ValidTransaction sha256 tip transaction) ∧
      (∀ transaction ∈ transactions,
          ∀ height,
            identities.get? transaction.txid = some height → height = transaction.blockHeight) ∧
      ∀ first ∈ transactions,
        ∀ second ∈ transactions,
          first.txid = second.txid → first.blockHeight = second.blockHeight := by
  induction transactions generalizing bytes identities with
  | nil =>
    unfold validateFrom
    simpa using hBytes
  | cons transaction rest ih =>
    have hCheck :
        (doubleSha256 sha256 transaction.raw ≠ transaction.txid ∨
            transaction.blockHeight.any (fun height => decide (height = 0 ∨ tip.height < height)) ∨
              (identities.get? transaction.txid).any
                (fun prior =>
                  decide (prior ≠ transaction.blockHeight))) ↔
          ¬ (ValidTransaction sha256 tip transaction ∧ ∀ height,
              identities.get? transaction.txid = some height →
                height = transaction.blockHeight) := by
      rw [← not_iff_not, not_not]
      simp only [not_or, not_not, Option.any_eq_true, decide_eq_true_eq, not_exists, not_and]
      constructor
      · rintro ⟨hTxid, hHeight, hPrior⟩
        exact ⟨⟨hTxid, hHeight⟩, hPrior⟩
      · rintro ⟨⟨hTxid, hHeight⟩, hPrior⟩
        exact ⟨hTxid, hHeight, hPrior⟩
    unfold validateFrom
    dsimp only
    rw [List.map_cons, List.sum_cons, List.forall_mem_cons, List.forall_mem_cons]
    split
    · constructor
      · intro hOk
        cases hOk
      · rintro ⟨-, hSum, -⟩
        omega
    · rename_i hWord
      split
      · rename_i hLimit
        constructor
        · intro hOk
          cases hOk
        · rintro ⟨hCount, hSum, -⟩
          have hCount := hCount (List.cons_ne_nil _ _)
          omega
      · rename_i hLimit
        rw [not_or] at hLimit
        split
        · rename_i hBad
          rw [hCheck] at hBad
          constructor
          · intro hOk
            cases hOk
          · rintro ⟨-, -, ⟨hHere, -⟩, ⟨hPrior, -⟩, -⟩
            exact absurd ⟨hHere, hPrior⟩ hBad
        · rename_i hGood
          rw [hCheck, not_not] at hGood
          rw [ih (by omega)]
          constructor
          · rintro ⟨-, hSum, hEach, hLater, hPairs⟩
            have hHere :
                ∀ other ∈ rest,
                transaction.txid = other.txid → transaction.blockHeight = other.blockHeight := by
              intro other hMem hSame
              apply hLater other hMem
              rw [BTreeMap.get?_insert, if_pos hSame.symm]
            refine ⟨fun _ => by omega, by omega, ⟨hGood.1, hEach⟩, ⟨hGood.2, ?_⟩, ?_⟩
            · intro other hMem height hHeight
              by_cases hSame : other.txid = transaction.txid
              · rw [← hHere other hMem hSame.symm]
                apply hGood.2
                rw [← hSame]
                exact hHeight
              · apply hLater other hMem
                rw [BTreeMap.get?_insert, if_neg hSame]
                exact hHeight
            · intro first hFirst second hSecond hSame
              rcases List.mem_cons.mp hFirst with hFirst | hFirst
              · rcases List.mem_cons.mp hSecond with hSecond | hSecond
                · rw [hFirst, hSecond]
                · rw [hFirst] at hSame ⊢
                  exact hHere second hSecond hSame
              · rcases List.mem_cons.mp hSecond with hSecond | hSecond
                · rw [hSecond] at hSame ⊢
                  exact (hHere first hFirst hSame.symm).symm
                · exact hPairs first hFirst second hSecond hSame
          · rintro ⟨hCount, hSum, ⟨-, hEach⟩, ⟨-, hPrior⟩, hPairs⟩
            refine
              ⟨fun _ => hCount (List.cons_ne_nil _ _),
                by omega, hEach, ?_, ?_⟩
            · intro other hMem height hHeight
              rw [BTreeMap.get?_insert] at hHeight
              split at hHeight
              · rename_i hSame
                cases hHeight
                exact hPairs transaction List.mem_cons_self other (List.mem_cons_of_mem _ hMem)
                  hSame.symm
              · exact hPrior other hMem height hHeight
            · intro first hFirst second hSecond
              exact
                hPairs first (List.mem_cons_of_mem _ hFirst) second (List.mem_cons_of_mem _ hSecond)

theorem validate_eq_ok_iff :
    validate sha256 transactions tip = .ok () ↔ ValidHistory sha256 transactions tip := by
  unfold validate
  rw [validateFrom_eq_ok_iff (Nat.zero_le _)]
  constructor
  · rintro ⟨hCount, hSum, hEach, -, hHeights⟩
    refine ⟨?_, by omega, hEach, hHeights⟩
    cases transactions with
    | nil => exact Nat.zero_le _
    | cons transaction rest => exact hCount (List.cons_ne_nil _ _)
  · intro hValid
    have hSum := hValid.bytes
    refine ⟨fun _ => hValid.count, by omega, hValid.each, ?_, hValid.heights⟩
    intro transaction _ height hHeight
    rw [BTreeMap.get?_new] at hHeight
    cases hHeight

theorem ValidHistory.sublist {part : List ObservedTransaction}
    (hValid : ValidHistory sha256 transactions tip) (hPart : part.Sublist transactions) :
    ValidHistory sha256 part tip where
  count := hPart.length_le.trans hValid.count
  bytes := (List.Sublist.sum_le_sum (hPart.map _) (fun _ _ => Nat.zero_le _)).trans hValid.bytes
  each := fun transaction hMem => hValid.each transaction (hPart.subset hMem)
  heights := fun first hFirst second hSecond =>
    hValid.heights first (hPart.subset hFirst) second (hPart.subset hSecond)

theorem ValidHistory.length_raw_le (hValid : ValidHistory sha256 transactions tip)
    {transaction : ObservedTransaction} (hMem : transaction ∈ transactions) :
    transaction.raw.length ≤ 64 * 1024 * 1024 := by
  have hOne : transaction.raw.length ≤ (transactions.map (·.raw.length)).sum :=
    List.single_le_sum (fun _ _ => Nat.zero_le _) _ (List.mem_map_of_mem hMem)
  exact hOne.trans hValid.bytes

--- Entries

section Entries

variable (primitives : RpaPrimitives) (keys : CashcodeScanKeys)

/- The receipts of a transaction, before they are inserted. -/
def entriesOf (transaction : ObservedTransaction) :
    Except (Fault String) (List (OutPoint × CashcodeReceipt)) := do
  let found ← (Rpa.scanTransaction primitives transaction.raw keys.scan keys.spendPublic
        keys.network).mapError (Fault.map CliError.toString)
  let decoded ← (decode transaction.raw).mapError (fun e => Fault.error e.toString)
  found.mapM (receiptOf primitives keys transaction decoded.outputs)

def entriesFrom (transactions : List ObservedTransaction) :
    Except (Fault String) (List (OutPoint × CashcodeReceipt)) :=
  (transactions.mapM (entriesOf primitives keys)).map List.flatten

variable {primitives keys}

theorem detectTransaction_eq (receipts : BTreeMap OutPoint CashcodeReceipt)
    (transaction : ObservedTransaction) :
    detectTransaction primitives keys receipts transaction =
      (entriesOf primitives keys transaction).map (fun entries => receipts.insertAll entries) := by
  unfold detectTransaction entriesOf
  cases Rpa.scanTransaction primitives transaction.raw keys.scan keys.spendPublic keys.network with
  | error e => rfl
  | ok found =>
    cases decode transaction.raw with
    | error e => rfl
    | ok decoded =>
      exact BTreeMap.foldlM_insert (receiptOf primitives keys transaction decoded.outputs) found
        receipts

variable {transactions : List ObservedTransaction}

theorem detect_eq_ok_iff {tip : ChainTip} {receipts : List CashcodeReceipt} :
    detect primitives keys transactions tip = .ok receipts ↔
    ValidHistory primitives.sha256 transactions tip ∧ ∃ entries,
        entriesFrom primitives keys transactions = .ok entries ∧
          receipts = (BTreeMap.new.insertAll entries).values := by
  have hFold :
      transactions.foldlM (detectTransaction primitives keys) BTreeMap.new =
        (transactions.mapM (entriesOf primitives keys)).map
          (fun entries => BTreeMap.new.insertAll entries.flatten) := by
    rw [← BTreeMap.foldlM_insertAll]
    congr 1
    funext receipts transaction
    exact detectTransaction_eq receipts transaction
  unfold detect entriesFrom
  rw [bind_eq_ok_iff]
  rw [hFold]
  simp only [mapError_eq_ok_iff]
  cases transactions.mapM (entriesOf primitives keys) with
  | error e =>
    constructor
    · rintro ⟨-, -, hOk⟩
      cases hOk
    · rintro ⟨-, entries, hOk, -⟩
      cases hOk
  | ok entries =>
    constructor
    · rintro ⟨⟨⟩, hValid, hOk⟩
      cases hOk
      exact ⟨validate_eq_ok_iff.mp hValid, _, rfl, rfl⟩
    · rintro ⟨hValid, found, hOk, rfl⟩
      cases hOk
      exact ⟨(), validate_eq_ok_iff.mpr hValid, rfl⟩

theorem entriesFrom_append (first second : List ObservedTransaction) :
    entriesFrom primitives keys (first ++ second) = (entriesFrom primitives keys first).bind
        (fun entries =>
          (entriesFrom primitives keys second).map (fun later => entries ++ later)) := by
  unfold entriesFrom
  rw [List.mapM_append]
  cases first.mapM (entriesOf primitives keys) with
  | error e => rfl
  | ok entries =>
    cases second.mapM (entriesOf primitives keys) with
    | error e => rfl
    | ok later =>
      change Except.ok (entries ++ later).flatten = Except.ok (entries.flatten ++ later.flatten)
      rw [List.flatten_append]

variable {transaction : ObservedTransaction} {entries : List (OutPoint × CashcodeReceipt)}

theorem entriesOf_eq_ok_iff :
    entriesOf primitives keys transaction = .ok entries ↔
    ∃ found decoded,
      Rpa.scanTransaction primitives transaction.raw keys.scan keys.spendPublic keys.network =
          .ok found ∧
        decode transaction.raw = .ok decoded ∧
        found.mapM (receiptOf primitives keys transaction decoded.outputs) = .ok entries := by
  unfold entriesOf
  simp only [bind_eq_ok_iff, mapError_eq_ok_iff]
  constructor
  · rintro ⟨found, hScan, decoded, hDecode, hEntries⟩
    exact ⟨found, decoded, hScan, hDecode, hEntries⟩
  · rintro ⟨found, decoded, hScan, hDecode, hEntries⟩
    exact ⟨found, hScan, decoded, hDecode, hEntries⟩

variable {entry : OutPoint × CashcodeReceipt}

theorem receiptOf_eq_ok {outputs : List DecodedOutput} {payment : Rpa.RpaMatch}
    (hReceipt : receiptOf primitives keys transaction outputs payment = .ok entry) :
    entry.1 = toLex (transaction.txid, payment.outputIndex) ∧
    entry.2.txid = displayTxid transaction.txid ∧
    entry.2.vout = payment.outputIndex ∧
    entry.2.address = payment.address := by
  unfold receiptOf at hReceipt
  rcases bind_eq_ok_iff.mp hReceipt with ⟨reproduced, -, hReceipt⟩
  split at hReceipt
  · cases hReceipt
  · split at hReceipt
    · cases hReceipt
    · cases hReceipt
      exact ⟨rfl, rfl, rfl, rfl⟩

/- A receipt stands for an output of its transaction. -/
structure IsReceipt (tables : UnicodeTables) (transaction : ObservedTransaction)
    (entry : OutPoint × CashcodeReceipt) : Prop where
  key : entry.1 = toLex (transaction.txid, entry.2.vout)
  txid : entry.2.txid = displayTxid transaction.txid
  paid :
    ∃ decoded output expected,
    decode transaction.raw = .ok decoded ∧ decoded.outputs[entry.2.vout.toNat]? = some output ∧
      Address.decode tables entry.2.address = .ok expected ∧
      expected.scriptPubkey = output.scriptPubkey

theorem isReceipt_of_entriesOf (tables : UnicodeTables)
    (hSize : transaction.raw.length ≤ 64 * 1024 * 1024)
    (hEntries : entriesOf primitives keys transaction = .ok entries) (hMem : entry ∈ entries) :
    IsReceipt tables transaction entry := by
  rcases entriesOf_eq_ok_iff.mp hEntries with ⟨found, decoded, hScan, hDecode, hReceipts⟩
  rcases Rpa.scanTransaction_reports tables hScan with
    ⟨parsed, decoded', positions, -, hDecode', hReports, -⟩
  rw [hDecode] at hDecode'
  cases hDecode'
  rcases (mem_of_mapM hReceipts).mp hMem with ⟨payment, hPayment, hReceipt⟩
  rcases receiptOf_eq_ok hReceipt with ⟨hKey, hTxid, hVout, hAddress⟩
  have hReported :
      ∃ position,
      Rpa.ReportOf primitives keys.scan keys.spendPublic keys.network parsed.1 decoded.outputs
        payment position := by
    rcases List.getElem_of_mem hPayment with ⟨i, hIndex, rfl⟩
    exact ⟨_, hReports.get hIndex (hReports.length_eq ▸ hIndex)⟩
  rcases hReported with ⟨position, hReport⟩
  rcases hReport.output with ⟨output, expected, hOutput, -, hScript, hText, hExpected⟩
  rcases Rpa.decode_of_paymentAddress tables hExpected with ⟨text, hText', hDecoded⟩
  rw [hText'] at hText
  cases hText
  have hPosition := (List.getElem?_eq_some_iff.mp hOutput).1
  have hFew := length_outputs_le hDecode
  have hIndex : entry.2.vout.toNat = position := by
    rw [hVout, hReport.index]
    exact UInt32.toNat_ofNat_of_lt' (by
      change position < 2 ^ 32
      omega)
  refine ⟨?_, hTxid, decoded, output, expected, hDecode, ?_, ?_, hScript.symm⟩
  · rw [hKey, hVout]
  · rw [hIndex]
    exact hOutput
  · rw [hAddress]
    exact hDecoded

theorem isReceipt_of_entriesFrom (tables : UnicodeTables)
    (hSizes : ∀ transaction ∈ transactions, transaction.raw.length ≤ 64 * 1024 * 1024)
    (hEntries : entriesFrom primitives keys transactions = .ok entries) (hMem : entry ∈ entries) :
    ∃ transaction ∈ transactions, IsReceipt tables transaction entry := by
  unfold entriesFrom at hEntries
  rcases hMap : transactions.mapM (entriesOf primitives keys) with e | each
  · rw [hMap] at hEntries
    cases hEntries
  · rw [hMap] at hEntries
    cases hEntries
    rcases List.mem_flatten.mp hMem with ⟨here, hHere, hMem⟩
    rcases (mem_of_mapM hMap).mp hHere with ⟨transaction, hTransaction, hOf⟩
    exact ⟨transaction, hTransaction,
      isReceipt_of_entriesOf tables (hSizes transaction hTransaction) hOf hMem⟩

/- Every payment that a scan finds has an entry. -/
theorem exists_entry_of_payment (hEntries : entriesFrom primitives keys transactions = .ok entries)
    (hMem : transaction ∈ transactions) {found : List Rpa.RpaMatch}
    (hScan :
      Rpa.scanTransaction primitives transaction.raw keys.scan keys.spendPublic keys.network =
        .ok found) {payment : Rpa.RpaMatch} (hPayment : payment ∈ found) :
    ∃ entry ∈ entries, entry.1 = toLex (transaction.txid, payment.outputIndex) := by
  unfold entriesFrom at hEntries
  rcases hMap : transactions.mapM (entriesOf primitives keys) with e | each
  · rw [hMap] at hEntries
    cases hEntries
  · rw [hMap] at hEntries
    cases hEntries
    rcases exists_of_mapM hMap hMem with ⟨here, hHere⟩
    have hListed := (mem_of_mapM hMap).mpr ⟨transaction, hMem, hHere⟩
    rcases entriesOf_eq_ok_iff.mp hHere with ⟨found', decoded, hScan', -, hReceipts⟩
    rw [hScan] at hScan'
    cases hScan'
    rcases exists_of_mapM hReceipts hPayment with ⟨entry, hReceipt⟩
    have hEntry := (mem_of_mapM hReceipts).mpr ⟨payment, hPayment, hReceipt⟩
    exact ⟨entry, List.mem_flatten.mpr ⟨here, hListed, hEntry⟩, (receiptOf_eq_ok hReceipt).1⟩

end Entries

end CashcodeScanKeys

end OptnWallet
