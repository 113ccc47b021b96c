import OptnWallet.Core.WalletProjection.Laws
import OptnWallet.Runtime.RpaReceive.Detection

/-
  Scanning block by block finds what a detection and a projection of all the blocks find, where no
  transaction spends an output of a later block.

  Main declarations:
    * `CashcodeScanKeys.flagged`
    * `CashcodeScanKeys.scanBlock_eq`
    * `CashcodeScanKeys.streaming_eq_batch`
-/

--- Touched Outpoints

namespace OptnWallet

open StagedUpdate BTreeMap

/- The outpoints of all the inputs, the null one too. -/
def touchedOf (raw : List UInt8) : List OutPoint :=
  match OptnWallet.decode raw with
  | .ok decoded => decoded.inputs.map (fun input => toLex (input.1, input.2.1))
  | .error _ => []

theorem touchedOf_of_decode {raw : List UInt8} {decoded : Decoded}
    (hDecode : OptnWallet.decode raw = .ok decoded) :
    touchedOf raw = decoded.inputs.map (fun input => toLex (input.1, input.2.1)) := by
  unfold touchedOf
  rw [hDecode]

/- Apart from the null outpoint, these are the spends. -/
theorem mem_touchedOf_iff {raw : List UInt8} {outpoint : OutPoint}
    (hIndex : (ofLex outpoint).2 ≠ 0xffffffff) :
    outpoint ∈ touchedOf raw ↔ outpoint ∈ spendsOf raw := by
  unfold touchedOf spendsOf
  cases OptnWallet.decode raw with
  | error e => exact Iff.rfl
  | ok decoded =>
    dsimp only
    rw [List.mem_map, List.mem_filterMap]
    constructor
    · rintro ⟨input, hMem, rfl⟩
      refine ⟨input, hMem, ?_⟩
      unfold spentOutPoint
      rw [if_neg]
      rintro ⟨-, hNull⟩
      exact hIndex hNull
    · rintro ⟨input, hMem, hSpent⟩
      unfold spentOutPoint at hSpent
      split at hSpent
      · cases hSpent
      · cases hSpent
        exact ⟨input, hMem, rfl⟩

def touched (transactions : List ObservedTransaction) : List OutPoint :=
  transactions.flatMap (fun transaction => touchedOf transaction.raw)

theorem touched_append (first second : List ObservedTransaction) :
    touched (first ++ second) = touched first ++ touched second := List.flatMap_append

theorem displayTxid_injective : Function.Injective displayTxid := by
  intro first second hSame
  have hFirst := parseTxid_hexString first.reverse
  have hSecond := parseTxid_hexString second.reverse
  unfold displayTxid at hSame
  rw [hSame, hSecond] at hFirst
  have hReverse : second.reverse = first.reverse := Except.ok.inj hFirst
  rw [← Vector.reverse_reverse first, ← hReverse, Vector.reverse_reverse]

--- Marking Spends

namespace CashcodeScanKeys

theorem get?_markSpent (receipts : BTreeMap OutPoint CashcodeReceipt) (outpoint key : OutPoint) :
    (markSpent receipts outpoint).get? key = (receipts.get? key).map
        (fun receipt =>
          if key = outpoint then { receipt with unspent := false }
          else receipt) := by
  unfold markSpent
  cases hHere : receipts.get? outpoint with
  | none =>
    by_cases hSame : key = outpoint
    · rw [hSame, hHere]
      rfl
    · simp [hSame]
  | some receipt =>
    dsimp only
    rw [get?_insert]
    by_cases hSame : key = outpoint
    · simp [hSame, hHere]
    · simp [hSame]

/- By induction over the outpoints. -/
theorem get?_foldl_markSpent (receipts : BTreeMap OutPoint CashcodeReceipt)
    (outpoints : List OutPoint) (key : OutPoint) :
    (outpoints.foldl markSpent receipts).get? key = (receipts.get? key).map
        (fun receipt =>
          if key ∈ outpoints then { receipt with unspent := false }
          else receipt) := by
  induction outpoints generalizing receipts with
  | nil => simp
  | cons outpoint outpoints ih =>
    rw [List.foldl_cons, ih, get?_markSpent, Option.map_map]
    congr 1
    funext receipt
    by_cases hSame : key = outpoint
    · simp [hSame]
    · simp [hSame]

variable {transactions : List ObservedTransaction}

theorem foldlM_markTransaction
    (hDecodes : ∀ transaction ∈ transactions, ∃ decoded, decode transaction.raw = .ok decoded)
    (receipts : BTreeMap OutPoint CashcodeReceipt) :
    transactions.foldlM markTransaction receipts =
      .ok ((touched transactions).foldl markSpent receipts) := by
  induction transactions generalizing receipts with
  | nil => rfl
  | cons transaction rest ih =>
    rw [List.forall_mem_cons] at hDecodes
    rcases hDecodes with ⟨⟨decoded, hDecode⟩, hRest⟩
    have hHere :
        markTransaction receipts transaction =
          .ok ((touchedOf transaction.raw).foldl markSpent receipts) := by
      unfold markTransaction
      rw [hDecode, touchedOf_of_decode hDecode, List.foldl_map]
      rfl
    rw [List.foldlM_cons, bind_of_ok hHere, ih hRest]
    unfold touched
    rw [List.flatMap_cons, List.foldl_append]

--- Inserting Receipts

/- The texts of a receipt name the outpoint it is kept at. -/
def WellKeyed (entry : OutPoint × CashcodeReceipt) : Prop :=
  entry.2.txid = displayTxid (ofLex entry.1).1 ∧ entry.2.vout = (ofLex entry.1).2

variable {entry : OutPoint × CashcodeReceipt}

theorem insertReceipt_of_wellKeyed (hKeyed : WellKeyed entry)
    (receipts : BTreeMap OutPoint CashcodeReceipt) :
    insertReceipt receipts entry.2 =
      .ok (receipts.insert entry.1 { entry.2 with unspent := true }) := by
  have hParse :
      Outpoint.parse entry.2.txid entry.2.vout = .ok
          { txid := (ofLex entry.1).1.reverse
            vout := entry.2.vout } := by
    rw [hKeyed.1]
    exact Outpoint.parse_hexString _ _
  have hKey : toLex ((ofLex entry.1).1.reverse.reverse, entry.2.vout) = entry.1 := by
    rw [Vector.reverse_reverse, hKeyed.2]
    rfl
  unfold insertReceipt
  rw [hParse]
  exact congrArg
      (fun key => Except.ok (receipts.insert key { entry.2 with unspent := true }))
      hKey

section

variable (unspent : OutPoint → Bool) (receipts : BTreeMap OutPoint CashcodeReceipt)

/- The receipts with a flag that their outpoints decide. -/
def withFlags : BTreeMap OutPoint CashcodeReceipt :=
  receipts.mapValues
    (fun outpoint receipt => { receipt with unspent := unspent outpoint })

theorem get?_withFlags
    (key : OutPoint) :
    (withFlags unspent receipts).get? key = (receipts.get? key).map
        (fun receipt => { receipt with unspent := unspent key }) := get?_mapValues _ _ _

end

theorem foldlM_insertReceipt {found : BTreeMap OutPoint CashcodeReceipt}
    (hKeyed : ∀ entry ∈ found.entries, WellKeyed entry)
    (receipts : BTreeMap OutPoint CashcodeReceipt) :
    found.values.foldlM insertReceipt receipts =
      .ok (receipts.insertAll (withFlags (fun _ => true) found).entries) := by
  rcases found with ⟨entries, hSorted⟩
  unfold values withFlags mapValues insertAll
  dsimp only at hKeyed ⊢
  clear hSorted
  induction entries generalizing receipts with
  | nil => rfl
  | cons entry entries ih =>
    rw [List.forall_mem_cons] at hKeyed
    rw [List.map_cons, List.foldlM_cons, bind_of_ok (insertReceipt_of_wellKeyed hKeyed.1 receipts),
      ih _ hKeyed.2]
    rfl

/- What an insertion of entries keeps is among them. -/
theorem mem_of_get?_new {entries : List (OutPoint × CashcodeReceipt)} {key : OutPoint}
    {receipt : CashcodeReceipt} (hGet : (new.insertAll entries).get? key = some receipt) :
    (key, receipt) ∈ entries := by
  rcases mem_of_get?_insertAll hGet with hMem | hNew
  · exact hMem
  · rw [get?_new] at hNew
    cases hNew

--- One Block

/- The receipts of these entries, spent where one of the outpoints is theirs. -/
def flagged (entries : List (OutPoint × CashcodeReceipt)) (spent : List OutPoint) :
    BTreeMap OutPoint CashcodeReceipt :=
  withFlags (fun outpoint => !spent.contains outpoint) (new.insertAll entries)

variable {found : List (OutPoint × CashcodeReceipt)}

/- New receipts that nothing has spent yet. -/
theorem flagged_insert {entries : List (OutPoint × CashcodeReceipt)} {spent : List OutPoint}
    (hApart : ∀ entry ∈ found, entry.1 ∉ spent) :
    (flagged entries spent).insertAll (withFlags (fun _ => true) (new.insertAll found)).entries =
      flagged (entries ++ found) spent := by
  apply ext_get?
  intro key
  unfold flagged
  rw [get?_insertAll_entries, get?_withFlags, get?_withFlags, get?_withFlags,
    insertAll_append, get?_insertAll (new.insertAll entries)]
  cases hFound : (new.insertAll found).get? key with
  | none =>
    rw [get?_insertAll, get?_new, Option.or_none] at hFound
    rw [hFound]
    rfl
  | some receipt =>
    have hMem := mem_of_get?_new hFound
    rw [get?_insertAll, get?_new, Option.or_none] at hFound
    have hFresh := hApart _ hMem
    rw [hFound]
    simp [hFresh]

theorem flagged_mark (entries : List (OutPoint × CashcodeReceipt))
    (spent outpoints : List OutPoint) :
    outpoints.foldl markSpent (flagged entries spent) = flagged entries (spent ++ outpoints) := by
  apply ext_get?
  intro key
  unfold flagged
  rw [get?_foldl_markSpent, get?_withFlags, get?_withFlags, Option.map_map]
  congr 1
  funext receipt
  by_cases hSpent : key ∈ spent
  · by_cases hHere : key ∈ outpoints <;> simp [hSpent, hHere]
  · by_cases hHere : key ∈ outpoints <;> simp [hSpent, hHere]

theorem length_flagged (entries : List (OutPoint × CashcodeReceipt)) (spent : List OutPoint) :
    (flagged entries spent).entries.length = (new.insertAll entries).entries.length :=
  List.length_map _

variable {primitives : RpaPrimitives} {keys : CashcodeScanKeys} {tip : ChainTip}

/- What an honest service answers for a block. -/
def honestAnswer (tip : ChainTip) (transactions : List ObservedTransaction) : BlockAnswer :=
  { transactions, tip := some tip, chainTip := some (tip.height, tip.hash), revoked := false }

def receiptLimit : Fault String :=
  .error "Cash Code receipts exceed the local storage limit"

/-
  A block adds its own receipts and spends, as long as there are not too many receipts.
-/
theorem scanBlock_eq {current : UInt32} {done block : List ObservedTransaction}
    {entries found : List (OutPoint × CashcodeReceipt)}
    (hValid : ValidHistory primitives.sha256 block tip)
    (hHeights : ∀ transaction ∈ block, transaction.blockHeight = some current)
    (hDecodes : ∀ transaction ∈ block, ∃ decoded, decode transaction.raw = .ok decoded)
    (hFound : entriesFrom primitives keys block = .ok found)
    (hKeyed : ∀ entry ∈ found, WellKeyed entry) (hApart : ∀ entry ∈ found, entry.1 ∉ touched done) :
    scanBlock primitives keys tip (flagged entries (touched done)) current
        (honestAnswer tip block) =
      if 100000 < (new.insertAll (entries ++ found)).entries.length
      then .error receiptLimit
      else .ok (flagged (entries ++ found) (touched (done ++ block))) := by
  have hSame :
      ¬ ((honestAnswer tip block).tip ≠ some tip ∨
        (honestAnswer tip block).chainTip ≠ some (tip.height, tip.hash) ∨
          (honestAnswer tip block).transactions.any
              (fun transaction => decide (transaction.blockHeight ≠ some current)) ∨
            (honestAnswer tip block).revoked) := by
    unfold honestAnswer
    simpa using hHeights
  have hDetect :
      detect primitives keys (honestAnswer tip block).transactions tip =
        .ok (new.insertAll found).values :=
    detect_eq_ok_iff.mpr ⟨hValid, found, hFound, rfl⟩
  have hInsert :=
    @foldlM_insertReceipt (new.insertAll found)
      (fun entry hEntry => hKeyed entry (mem_of_get?_new (get?_eq_some_iff.mpr hEntry)))
      (flagged entries (touched done))
  rw [flagged_insert hApart] at hInsert
  unfold scanBlock
  rw [if_neg hSame, bind_of_ok hDetect, bind_of_ok hInsert, length_flagged]
  split
  · rfl
  · rw [touched_append, ← flagged_mark]
    exact foldlM_markTransaction hDecodes _

--- All Blocks

section

variable (blocks : UInt32 → List ObservedTransaction)

/- The blocks at these heights, one after the other. -/
def history (heights : List UInt32) :
    List ObservedTransaction := heights.flatMap blocks

theorem history_append (first second : List UInt32) :
    history blocks (first ++ second) = history blocks first ++ history blocks second :=
  List.flatMap_append

/- No transaction spends an output of a later block. -/
def SpendsFollow (heights : List UInt32) : Prop :=
  ∀ height ∈ heights, ∀ made ∈ blocks height,
    ∀ later ∈ heights,
      ∀ spender ∈ blocks later,
        ∀ outpoint ∈ spendsOf spender.raw, (ofLex outpoint).1 = made.txid → height ≤ later

end

def honestAnswers (tip : ChainTip) (blocks : UInt32 → List ObservedTransaction) (height : UInt32) :
    Except String (Option BlockAnswer) := .ok (some (honestAnswer tip (blocks height)))

variable {tables : UnicodeTables} {transaction : ObservedTransaction}

/- The outpoint of a receipt is not the null one. -/
theorem IsReceipt.index_ne (hReceipt : IsReceipt tables transaction entry)
    (hSize : transaction.raw.length ≤ 64 * 1024 * 1024) : (ofLex entry.1).2 ≠ 0xffffffff := by
  rcases hReceipt.paid with ⟨decoded, output, expected, hDecode, hOutput, -⟩
  have hIndex := (List.getElem?_eq_some_iff.mp hOutput).1
  have hFew := length_outputs_le hDecode
  rw [hReceipt.key]
  intro hNull
  have hVout : entry.2.vout.toNat = 0xffffffff := congrArg UInt32.toNat hNull
  omega

theorem IsReceipt.wellKeyed (hReceipt : IsReceipt tables transaction entry) : WellKeyed entry := by
  unfold WellKeyed
  rw [hReceipt.key]
  exact ⟨hReceipt.txid, rfl⟩

theorem mem_touched_iff {outpoint : OutPoint} (hIndex : (ofLex outpoint).2 ≠ 0xffffffff) :
    outpoint ∈ touched transactions ↔
    ∃ transaction ∈ transactions, outpoint ∈ spendsOf transaction.raw := by
  unfold touched
  rw [List.mem_flatMap]
  simp only [mem_touchedOf_iff hIndex]

/- What a block pays was not spent before it. -/
theorem not_mem_touched_of_order (tables : UnicodeTables)
    {blocks : UInt32 → List ObservedTransaction} {done rest : List UInt32} {current : UInt32}
    (hSorted : (done ++ current :: rest).Pairwise (· < ·))
    (hOrder : SpendsFollow blocks (done ++ current :: rest))
    (hSizes : ∀ transaction ∈ blocks current, transaction.raw.length ≤ 64 * 1024 * 1024)
    (hFound : entriesFrom primitives keys (blocks current) = .ok found) (hMem : entry ∈ found) :
    entry.1 ∉ touched (history blocks done) := by
  rcases isReceipt_of_entriesFrom tables hSizes hFound hMem with ⟨made, hMade, hReceipt⟩
  rw [mem_touched_iff (hReceipt.index_ne (hSizes made hMade))]
  rintro ⟨spender, hSpender, hSpends⟩
  rcases List.mem_flatMap.mp hSpender with ⟨earlier, hEarlier, hSpender⟩
  have hBefore : earlier < current :=
    (List.pairwise_append.mp hSorted).2.2 earlier hEarlier current List.mem_cons_self
  have hTxid : (ofLex entry.1).1 = made.txid := by
    rw [hReceipt.key]
    rfl
  have hAfter :=
    hOrder current (List.mem_append_right _ List.mem_cons_self) made hMade earlier
      (List.mem_append_left _ hEarlier) spender hSpender entry.1 hSpends hTxid
  exact absurd hBefore (not_lt_of_ge hAfter)

/- By induction over the heights that are left, with the flagged receipts of those that are done. -/
theorem scanBlocks_eq (tables : UnicodeTables) {blocks : UInt32 → List ObservedTransaction}
    {done heights : List UInt32} {entries found : List (OutPoint × CashcodeReceipt)}
    (hSorted : (done ++ heights).Pairwise (· < ·))
    (hValid : ValidHistory primitives.sha256 (history blocks (done ++ heights)) tip)
    (hHeights : ∀ height ∈ heights, ∀ transaction ∈ blocks height,
        transaction.blockHeight = some height)
    (hDecodes : ∀ transaction ∈ history blocks heights, ∃ decoded,
        decode transaction.raw = .ok decoded) (hOrder : SpendsFollow blocks (done ++ heights))
    (hFound : entriesFrom primitives keys (history blocks heights) = .ok found)
    (hFew : (new.insertAll entries).entries.length ≤ 100000) :
    heights.foldlM (scanAnswer primitives keys tip (honestAnswers tip blocks))
        (flagged entries (touched (history blocks done))) =
      if 100000 < (new.insertAll (entries ++ found)).entries.length
      then .error receiptLimit
      else .ok (flagged (entries ++ found) (touched (history blocks (done ++ heights)))) := by
  induction heights generalizing done entries found with
  | nil =>
    have hNone : found = [] := (Except.ok.inj hFound).symm
    rw [hNone, List.append_nil, List.append_nil, if_neg (by omega)]
    rfl
  | cons current rest ih =>
    have hSplit : history blocks (current :: rest) = blocks current ++ history blocks rest :=
      List.flatMap_cons
    rw [hSplit] at hDecodes hFound
    rw [history_append, hSplit] at hValid
    rw [entriesFrom_append] at hFound
    rw [List.forall_mem_cons] at hHeights
    cases hHere : entriesFrom primitives keys (blocks current) with
    | error e =>
      rw [hHere] at hFound
      cases hFound
    | ok here =>
      cases hThere : entriesFrom primitives keys (history blocks rest) with
      | error e =>
        rw [hHere, hThere] at hFound
        cases hFound
      | ok there =>
        rw [hHere, hThere] at hFound
        cases hFound
        have hBlock : ValidHistory primitives.sha256 (blocks current) tip :=
          hValid.sublist ((List.sublist_append_left _ _).trans (List.sublist_append_right _ _))
        have hSizes : ∀ transaction ∈ blocks current, transaction.raw.length ≤ 64 * 1024 * 1024 :=
          fun _ hMem => hBlock.length_raw_le hMem
        have hStep :=
          @scanBlock_eq primitives keys tip current (history blocks done) (blocks current)
            entries here hBlock hHeights.1
            (fun transaction hMem => hDecodes transaction (List.mem_append_left _ hMem))
            hHere
            (fun entry hMem => by
              rcases isReceipt_of_entriesFrom tables hSizes hHere hMem with ⟨made, -, hReceipt⟩
              exact hReceipt.wellKeyed)
            (fun entry hMem => not_mem_touched_of_order tables hSorted hOrder hSizes hHere hMem)
        have hSize := length_le_insertAll (new.insertAll (entries ++ here)) there
        rw [← insertAll_append, List.append_assoc] at hSize
        rw [List.foldlM_cons]
        change
          (scanBlock primitives keys tip _ current (honestAnswer tip (blocks current)) >>= _) = _
        rw [hStep]
        split
        · rename_i hLarge
          rw [if_pos (by
            change 100000 < (new.insertAll (entries ++ (here ++ there))).entries.length
            omega)]
          rfl
        · rename_i hSmall
          have hDone :
              history blocks done ++ blocks current = history blocks (done ++ [current]) := by
            rw [history_append]
            unfold history
            rw [List.flatMap_singleton]
          have hCons : done ++ current :: rest = (done ++ [current]) ++ rest := by
            rw [List.append_assoc]
            rfl
          rw [hCons] at hSorted hOrder ⊢
          rw [hDone]
          have hRest :=
            @ih (done ++ [current]) (entries ++ here) there hSorted
              (by
                rw [history_append, ← hDone, List.append_assoc]
                exact hValid)
              hHeights.2
              (fun transaction hMem => hDecodes transaction (List.mem_append_right _ hMem))
              hOrder hThere (by omega)
          rw [List.append_assoc entries] at hRest
          exact hRest

--- All At Once

/- The raw transactions that a projection is made from. -/
def rawsOf (transactions : List ObservedTransaction) : List (List UInt8) :=
  transactions.map ObservedTransaction.raw

variable {scripts : List (List UInt8)}

section

variable (hValid : ValidHistory primitives.sha256 transactions tip)
variable (hFree : CollisionFree primitives.sha256 {raw | raw ∈ rawsOf transactions})
include hValid hFree

/- What can be projected for some scripts can be for any. -/
theorem exists_unspentOutputs {unspent : List UnspentOutput}
    (hUnspent : unspentOutputs primitives.sha256 (rawsOf transactions) scripts = .ok unspent)
    (others : List (List UInt8)) :
    (∀ transaction ∈ transactions, ∃ decoded, decode transaction.raw = .ok decoded) ∧
    ∃ unspent', unspentOutputs primitives.sha256 (rawsOf transactions) others = .ok unspent' := by
  rcases unspentOutputs_eq_ok_iff.mp hUnspent with ⟨projection, hProjection, -⟩
  have hSpec := walletProjection_spec scripts hFree
  rw [hProjection] at hSpec
  have hProjectable := hSpec.projectable
  constructor
  · intro transaction hMem
    exact hProjectable.decodes transaction.raw (List.mem_map_of_mem hMem)
  · have hOthers : Projectable others {raw | raw ∈ rawsOf transactions} := by
      refine ⟨hProjectable.decodes, ?_, hProjectable.nodup, hProjectable.disjoint⟩
      intro raw hRaw decoded hDecode i output hOutput _
      rcases List.mem_map.mp hRaw with ⟨transaction, hMem, rfl⟩
      have hSize := hValid.length_raw_le hMem
      have hFew := length_outputs_le hDecode
      have hIndex := (List.getElem?_eq_some_iff.mp hOutput).1
      omega
    have hSpec' := walletProjection_spec others hFree
    cases hProjection' : walletProjection primitives.sha256 (rawsOf transactions) others with
    | error e =>
      rw [hProjection'] at hSpec'
      exact absurd hOthers hSpec'
    | ok projection' => exact ⟨_, unspentOutputs_eq_ok_iff.mpr ⟨projection', hProjection', rfl⟩⟩

/- The projection flags each receipt as its outpoint is. -/
theorem unspent_flag_iff {receipts : List CashcodeReceipt}
    (hScripts :
      receipts.mapM
          (fun receipt => (Address.decode tables receipt.address).map Address.scriptPubkey) =
        .ok scripts) {outputs : List UnspentOutput}
    (hUnspent : unspentOutputs primitives.sha256 (rawsOf transactions) scripts = .ok outputs)
    (hListed : entry.2 ∈ receipts) (hMem : transaction ∈ transactions)
    (hReceipt : IsReceipt tables transaction entry) :
    (entry.2.txid, entry.2.vout) ∈
      outputs.map (fun output => (displayTxid output.txid, output.vout)) ↔
    entry.1 ∉ touched transactions := by
  have hIndex := hReceipt.index_ne (hValid.length_raw_le hMem)
  have hKeyed := hReceipt.wellKeyed
  have hOutputs := (mem_unspentOutputs_iff hFree hUnspent).2
  rw [mem_touched_iff hIndex, List.mem_map]
  constructor
  · rintro ⟨output, hOutput, hSame⟩
    rcases Prod.mk.inj hSame with ⟨hTxid, hVout⟩
    rw [hKeyed.1] at hTxid
    have hKey : output.key = entry.1 := by
      unfold UnspentOutput.key
      rw [displayTxid_injective hTxid, hVout, hKeyed.2]
      rfl
    rintro ⟨spender, hSpender, hSpends⟩
    apply ((hOutputs output).mp hOutput).2 spender.raw (List.mem_map_of_mem hSpender)
    rw [hKey]
    exact hSpends
  · intro hFresh
    rcases hReceipt.paid with ⟨decoded, output, expected, hDecode, hPaid, hAddress, hScript⟩
    have hOwned : output.scriptPubkey ∈ scripts := by
      rw [mem_of_mapM hScripts]
      refine ⟨entry.2, hListed, ?_⟩
      rw [hAddress, ← hScript]
      rfl
    refine ⟨{ txid := transaction.txid, vout := entry.2.vout, output }, ?_, ?_⟩
    · rw [hOutputs]
      constructor
      · exact ⟨transaction.raw, List.mem_map_of_mem hMem, decoded, hDecode,
          (hValid.each transaction hMem).identity.symm, hOwned, hPaid⟩
      · intro raw hRaw hSpends
        rcases List.mem_map.mp hRaw with ⟨spender, hSpender, rfl⟩
        apply hFresh
        refine ⟨spender, hSpender, ?_⟩
        rw [hReceipt.key]
        exact hSpends
    · rw [hReceipt.txid]

end

/- Reconciled receipts are the flagged ones. -/
theorem reconcile_eq (tables : UnicodeTables)
    (hValid : ValidHistory primitives.sha256 transactions tip)
    (hFree : CollisionFree primitives.sha256 {raw | raw ∈ rawsOf transactions})
    {unspent : List UnspentOutput}
    (hUnspent : unspentOutputs primitives.sha256 (rawsOf transactions) scripts = .ok unspent)
    (hFound : entriesFrom primitives keys transactions = .ok found) :
    reconcile primitives tables (new.insertAll found).values transactions tip =
      .ok (flagged found (touched transactions)).values := by
  have hReceipts {entry : OutPoint × CashcodeReceipt}
      (hEntry : entry ∈ (new.insertAll found).entries) :
      ∃ transaction ∈ transactions, IsReceipt tables transaction entry :=
    isReceipt_of_entriesFrom tables (fun _ hMem => hValid.length_raw_le hMem) hFound
      (mem_of_get?_new (get?_eq_some_iff.mpr hEntry))
  have hAddresses :
      ∀ receipt ∈ (new.insertAll found).values,
      ∃ script, (Address.decode tables receipt.address).map Address.scriptPubkey = .ok script := by
    intro receipt hReceipt
    rcases List.mem_map.mp hReceipt with ⟨entry, hEntry, rfl⟩
    rcases hReceipts hEntry with ⟨transaction, -, hIs⟩
    rcases hIs.paid with ⟨_, _, expected, -, -, hAddress, -⟩
    rw [hAddress]
    exact ⟨_, rfl⟩
  rcases exists_mapM hAddresses with ⟨scripts', hScripts⟩
  rcases (exists_unspentOutputs hValid hFree hUnspent scripts').2 with ⟨outputs, hOutputs⟩
  have hChecked :
      (validate primitives.sha256 transactions tip).mapError Fault.error =
        (.ok () : Except (Fault String) Unit) := by
    rw [validate_eq_ok_iff.mpr hValid]
    rfl
  have hProjected :
      (unspentOutputs primitives.sha256 (transactions.map ObservedTransaction.raw)
          scripts').mapError
          (fun e => Fault.error e.toString) =
        .ok outputs := by
    rw [mapError_eq_ok_iff]
    exact hOutputs
  unfold reconcile
  rw [bind_of_ok hChecked, bind_of_ok hScripts, bind_of_ok hProjected]
  refine congrArg Except.ok ?_
  unfold flagged withFlags values mapValues
  rw [List.map_map, List.map_map]
  apply List.map_congr_left
  intro entry hEntry
  rcases hReceipts hEntry with ⟨transaction, hMem, hReceipt⟩
  have hListed : entry.2 ∈ (new.insertAll found).values := List.mem_map_of_mem hEntry
  have hFlag := unspent_flag_iff hValid hFree hScripts hOutputs hListed hMem hReceipt
  simp only [Function.comp_apply, hFlag, decide_not, List.contains_eq_mem]

--- Both Scans

theorem scannedHeights_sorted (fromHeight : UInt32) (tip : ChainTip) :
    (scannedHeights fromHeight tip).Pairwise (· < ·) := by
  have hWord := tip.height.toNat_lt
  unfold scannedHeights
  rw [List.pairwise_map]
  have hRange :
      (List.range' fromHeight.toNat (tip.height.toNat + 1 - fromHeight.toNat)).Pairwise (· < ·) :=
    List.pairwise_lt_range'
  apply hRange.imp_of_mem
  intro m n _ hMem hLt
  rcases List.mem_range'_1.mp hMem with ⟨hAbove, hTo⟩
  rw [UInt32.lt_iff_toNat_lt,
    UInt32.toNat_ofNat_of_lt' (by
      change m < 2 ^ 32
      omega),
    UInt32.toNat_ofNat_of_lt' (by
      change n < 2 ^ 32
      omega)]
  exact hLt

/- A scan that succeeds has detected in every block. -/
theorem exists_entriesFrom_of_scan {blocks : UInt32 → List ObservedTransaction}
    {heights : List UInt32} {receipts receipts' : BTreeMap OutPoint CashcodeReceipt}
    (hScan :
        heights.foldlM (scanAnswer primitives keys tip (honestAnswers tip blocks)) receipts =
          .ok receipts') :
    ∃ found, entriesFrom primitives keys (history blocks heights) = .ok found := by
  induction heights generalizing receipts with
  | nil => exact ⟨[], rfl⟩
  | cons current rest ih =>
    rw [List.foldlM_cons] at hScan
    rcases bind_eq_ok_iff.mp hScan with ⟨next, hHere, hRest⟩
    rcases ih hRest with ⟨later, hLater⟩
    change scanBlock primitives keys tip receipts current (honestAnswer tip (blocks current)) =
      .ok next at hHere
    unfold scanBlock at hHere
    split at hHere
    · cases hHere
    · rcases bind_eq_ok_iff.mp hHere with ⟨found, hDetect, -⟩
      rcases detect_eq_ok_iff.mp hDetect with ⟨-, entries, hEntries, -⟩
      refine ⟨entries ++ later, ?_⟩
      unfold history at hLater ⊢
      rw [List.flatMap_cons, entriesFrom_append]
      unfold honestAnswer at hEntries
      dsimp only at hEntries
      rw [hEntries, hLater]
      rfl

variable (primitives keys)

/- Detection and reconciliation over all transactions. -/
def detectAll (tables : UnicodeTables) (transactions : List ObservedTransaction) (tip : ChainTip) :
    Except (Fault String) (List CashcodeReceipt) := do
  let receipts ← detect primitives keys transactions tip
  reconcile primitives tables receipts transactions tip

/- The scan of blocks that a service answers honestly. -/
def scanHonest (fromHeight : UInt32) (tip : ChainTip) (blocks : UInt32 → List ObservedTransaction) :
    Except (Fault String) CashcodeScanResult :=
  scanBip37 primitives keys fromHeight (.ok (some (tip.height, tip.hash)))
    (honestAnswers tip blocks)

variable {primitives keys}

/- The receipts are for different outputs, and every payment has one. -/
structure CoversPayments (primitives : RpaPrimitives) (keys : CashcodeScanKeys)
    (transactions : List ObservedTransaction) (receipts : List CashcodeReceipt) : Prop where
  once : (receipts.map (fun receipt => (receipt.txid, receipt.vout))).Nodup
  payments :
    ∀ transaction ∈ transactions,
    ∀ found,
      Rpa.scanTransaction primitives transaction.raw keys.scan keys.spendPublic keys.network =
          .ok found →
        ∀ payment ∈ found,
          ∃ receipt ∈ receipts,
            receipt.txid = displayTxid transaction.txid ∧ receipt.vout = payment.outputIndex

theorem coversPayments_flagged (tables : UnicodeTables)
    (hValid : ValidHistory primitives.sha256 transactions tip)
    (hFound : entriesFrom primitives keys transactions = .ok found) (spent : List OutPoint) :
    CoversPayments primitives keys transactions (flagged found spent).values := by
  have hKeyed : ∀ entry ∈ (flagged found spent).entries, WellKeyed entry := by
    intro entry hEntry
    have hGet := get?_eq_some_iff.mpr hEntry
    unfold flagged at hGet
    rw [get?_withFlags] at hGet
    rcases Option.map_eq_some_iff.mp hGet with ⟨receipt, hReceipt, hFlag⟩
    rcases isReceipt_of_entriesFrom tables (fun _ hMem => hValid.length_raw_le hMem) hFound
      (mem_of_get?_new hReceipt) with ⟨transaction, -, hIs⟩
    have hWell := hIs.wellKeyed
    unfold WellKeyed at hWell ⊢
    rw [← hFlag]
    exact hWell
  have hMap :
      (flagged found spent).values.map (fun receipt => (receipt.txid, receipt.vout)) =
        ((flagged found spent).entries.map Prod.fst).map
          (fun outpoint => (displayTxid (ofLex outpoint).1, (ofLex outpoint).2)) := by
    unfold values
    rw [List.map_map, List.map_map]
    apply List.map_congr_left
    intro entry hEntry
    have hWell := hKeyed entry hEntry
    simp only [Function.comp_apply, hWell.1, hWell.2]
  constructor
  · rw [hMap]
    apply List.Nodup.map
    · intro first second hSame
      rcases Prod.mk.inj hSame with ⟨hTxid, hVout⟩
      exact congrArg toLex (Prod.ext (displayTxid_injective hTxid) hVout)
    · have hSorted : ((flagged found spent).entries.map Prod.fst).Pairwise (· < ·) :=
        List.pairwise_map.mpr (flagged found spent).sorted
      exact hSorted.imp ne_of_lt
  · intro transaction hMem payments hScan payment hPayment
    rcases exists_entry_of_payment hFound hMem hScan hPayment with ⟨entry, hEntry, hKey⟩
    have hSome := isSome_get?_insertAll new hEntry
    rcases Option.isSome_iff_exists.mp hSome with ⟨receipt, hReceipt⟩
    have hFlagged :
        (flagged found spent).get? entry.1 = some
            { receipt with
              unspent := !spent.contains entry.1 } := by
      unfold flagged
      rw [get?_withFlags, hReceipt]
      rfl
    have hListed := get?_eq_some_iff.mp hFlagged
    have hWell := hKeyed _ hListed
    refine ⟨_, List.mem_map_of_mem hListed, ?_, ?_⟩
    · rw [hWell.1, hKey]
      rfl
    · rw [hWell.2, hKey]
      rfl

/-
  Where the ids are collision free and no transaction spends an output of a later block, the scan
  block by block returns the receipts of the detection over everything, flags and all, up to its
  limit on their number; and it fails where the detection does.
-/
theorem streaming_eq_batch (tables : UnicodeTables) {fromHeight : UInt32}
    {blocks : UInt32 → List ObservedTransaction} {scripts : List (List UInt8)}
    {unspent : List UnspentOutput} (hFrom : fromHeight ≤ tip.height)
    (hHeights : ∀ height ∈ scannedHeights fromHeight tip, ∀ transaction ∈ blocks height,
        transaction.blockHeight = some height)
    (hValid :
        validate primitives.sha256 (history blocks (scannedHeights fromHeight tip)) tip = .ok ())
    (hUnspent :
        unspentOutputs primitives.sha256 (rawsOf (history blocks (scannedHeights fromHeight tip)))
            scripts = .ok unspent)
    (hFree :
        CollisionFree primitives.sha256
          {raw | raw ∈ rawsOf (history blocks (scannedHeights fromHeight tip))})
    (hOrder : SpendsFollow blocks (scannedHeights fromHeight tip)) :
    (∀ receipts,
      detectAll primitives keys tables (history blocks (scannedHeights fromHeight tip)) tip =
        .ok receipts →
        scanHonest primitives keys fromHeight tip blocks = (if 100000 < receipts.length then
              .error receiptLimit
            else .ok
                { fromHeight
                  tip
                  evidence := .serverAssertion
                  includesMempool := false
                  receipts }) ∧
          CoversPayments primitives keys (history blocks (scannedHeights fromHeight tip))
            receipts) ∧
      ∀ failure,
        detectAll primitives keys tables (history blocks (scannedHeights fromHeight tip)) tip =
          .error failure →
          ∃ failure', scanHonest primitives keys fromHeight tip blocks = .error failure' := by
  have hHistory := validate_eq_ok_iff.mp hValid
  have hDecodes := (exists_unspentOutputs hHistory hFree hUnspent []).1
  have hScan :
      scanHonest primitives keys fromHeight tip blocks = ((scannedHeights fromHeight tip).foldlM
          (scanAnswer primitives keys tip (honestAnswers tip blocks))
          new).map
            (fun receipts =>
              { fromHeight
                tip
                evidence := .serverAssertion
                includesMempool := false
                receipts := receipts.values }) := by
    unfold scanHonest scanBip37
    refine (if_neg (not_lt_of_ge hFrom)).trans ?_
    cases (scannedHeights fromHeight tip).foldlM
      (scanAnswer primitives keys tip (honestAnswers tip blocks)) new with
    | error e => rfl
    | ok receipts => rfl
  have hEntries {found : List (OutPoint × CashcodeReceipt)}
      (hFound :
            entriesFrom primitives keys (history blocks (scannedHeights fromHeight tip)) =
              .ok found) : 
      detectAll primitives keys tables (history blocks (scannedHeights fromHeight tip)) tip =
        .ok (flagged found (touched (history blocks (scannedHeights fromHeight tip)))).values := by
    unfold detectAll
    rw [bind_of_ok (detect_eq_ok_iff.mpr ⟨hHistory, found, hFound, rfl⟩)]
    exact reconcile_eq tables hHistory hFree hUnspent hFound
  cases hFound : entriesFrom primitives keys (history blocks (scannedHeights fromHeight tip)) with
  | error e =>
    constructor
    · intro receipts hDetect
      unfold detectAll at hDetect
      rcases bind_eq_ok_iff.mp hDetect with ⟨detected, hDetected, -⟩
      rcases detect_eq_ok_iff.mp hDetected with ⟨-, found, hOk, -⟩
      rw [hFound] at hOk
      cases hOk
    · intro failure _
      rw [hScan]
      cases hFold : (scannedHeights fromHeight tip).foldlM
        (scanAnswer primitives keys tip (honestAnswers tip blocks)) new with
      | error e' => exact ⟨e', rfl⟩
      | ok receipts =>
        rcases exists_entriesFrom_of_scan hFold with ⟨found, hOk⟩
        rw [hFound] at hOk
        cases hOk
  | ok found =>
    have hFold :=
      @scanBlocks_eq primitives keys tip tables blocks [] (scannedHeights fromHeight tip) [] found
        (scannedHeights_sorted fromHeight tip) hHistory hHeights hDecodes hOrder hFound
        (Nat.zero_le _)
    constructor
    · intro receipts hDetect
      rw [hEntries hFound] at hDetect
      cases hDetect
      refine ⟨?_, coversPayments_flagged tables hHistory hFound _⟩
      have hLength :
          (flagged found (touched (history blocks (scannedHeights fromHeight tip)))).values.length =
            (new.insertAll found).entries.length := by
        unfold values
        rw [List.length_map, length_flagged]
      change (scannedHeights fromHeight tip).foldlM
          (scanAnswer primitives keys tip (honestAnswers tip blocks)) new = _ at hFold
      rw [hScan, hFold, hLength]
      by_cases hLarge : 100000 < (new.insertAll found).entries.length
      · exact (congrArg (Except.map _) (if_pos hLarge)).trans (if_pos hLarge).symm
      · exact (congrArg (Except.map _) (if_neg hLarge)).trans (if_neg hLarge).symm
    · intro failure hFailure
      rw [hEntries hFound] at hFailure
      cases hFailure

--- A Payment And Its Spend

/- The payment of the sample code, and what spends it. -/
def paidRaw : List UInt8 :=
  bytesBE
    0x0200000001000102030405060708090a0b0c0d0e0f101112131415161718191a1b1c1d1e1f0700000024014121032fa2104d6b38d11b0230010559879124e42ab8dfeff5ff29dc9cdadd4ecacc3fffffffff0150c30000000000001976a91491dfabbde801f5e1391365a5ed6a7b223a91a33888ac00000000
    121

def paidTxid : TxId :=
  Rpa.fixedBytes 32 0xe4e0cae7cf5403fd13258bbcac7ec03628bf73e14d85fe117e8338f71e9e6748

def spendingRaw : List UInt8 :=
  bytesBE
    0x0200000001e4e0cae7cf5403fd13258bbcac7ec03628bf73e14d85fe117e8338f71e9e67480000000000ffffffff01409c000000000000015100000000
    61

def spendingTxid : TxId :=
  Rpa.fixedBytes 32 0x69df4ac2f9d74a0d5b93946641e8a2ad2487960786e87419ebdd4caad4b75444

/- The digests of both transactions are added to the others. -/
def receivedSha256 (bytes : List UInt8) : Vector UInt8 32 :=
  if bytes = paidRaw then
    Rpa.fixedBytes 32 0xaa33363b584b75adfafa4dd57112deda8f7824436fcebe6f6d765fdf32232706
  else if bytes = bytesBE 0xaa33363b584b75adfafa4dd57112deda8f7824436fcebe6f6d765fdf32232706 32
  then paidTxid
  else if bytes = spendingRaw then
    Rpa.fixedBytes 32 0x37806a910d59b3ce27b18d86332130378b5357f7fe67226fba602462294f77d6
  else if bytes = bytesBE 0x37806a910d59b3ce27b18d86332130378b5357f7fe67226fba602462294f77d6 32
  then spendingTxid
  else Rpa.sampleSha256 bytes

def receivedPrimitives : RpaPrimitives := { Rpa.samplePrimitives with sha256 := receivedSha256 }

def receivingKeys : CashcodeScanKeys :=
  { network := .chipnet
    scan := Rpa.scalarBytes 21
    spend := none
    spendPublic := Rpa.samplePublic 22 }

def receivingTip : ChainTip := { height := 2, hash := Vector.replicate 32 9 }

/- The payment in one block and the spend in another. -/
def twoBlocks (paid spent height : UInt32) : List ObservedTransaction :=
  (if height = paid then [{ txid := paidTxid, raw := paidRaw, blockHeight := some height }]
  else []) ++
    if height = spent then
      [{ txid := spendingTxid, raw := spendingRaw, blockHeight := some height }]
    else []

theorem collisionFree_two :
    CollisionFree receivedPrimitives.sha256 {raw | raw ∈ [paidRaw, spendingRaw]} := by
  have hApart : doubleSha256 receivedSha256 paidRaw ≠ doubleSha256 receivedSha256 spendingRaw := by
    decide +kernel
  intro first hFirst second hSecond hSame
  rcases List.mem_pair.mp hFirst with rfl | rfl
  · rcases List.mem_pair.mp hSecond with rfl | rfl
    · rfl
    · exact absurd hSame hApart
  · rcases List.mem_pair.mp hSecond with rfl | rfl
    · exact absurd hSame.symm hApart
    · rfl

theorem scanned_two : scannedHeights 1 receivingTip = [1, 2] := by
  decide +kernel

theorem blockHeight_two :
    ∀ height ∈ scannedHeights 1 receivingTip,
    ∀ transaction ∈ twoBlocks 1 2 height, transaction.blockHeight = some height := by
  rw [scanned_two]
  intro height hHeight
  rcases List.mem_pair.mp hHeight with hFirst | hSecond
  · rw [hFirst]
    decide +kernel
  · rw [hSecond]
    decide +kernel

/- Only the first block is before another one. -/
theorem spendsFollow_two : SpendsFollow (twoBlocks 1 2) (scannedHeights 1 receivingTip) := by
  unfold SpendsFollow
  rw [scanned_two]
  intro height hHeight made hMade later hLater spender hSpender outpoint hOutpoint hSpends
  rcases List.mem_pair.mp hLater with hFirst | hSecond
  · rw [hFirst] at hSpender
    have hNone :
        ∀ spender ∈ twoBlocks 1 2 1,
          (spendsOf spender.raw).all
              (fun outpoint =>
                  (twoBlocks 1 2 2).all (fun made => decide ((ofLex outpoint).1 ≠ made.txid))) =
            true := by
      decide +kernel
    rcases List.mem_pair.mp hHeight with hBefore | hAfter
    · rw [hFirst, hBefore]
    · rw [hAfter] at hMade
      have hApart :=
        List.all_eq_true.mp (List.all_eq_true.mp (hNone spender hSpender) outpoint hOutpoint) made
          hMade
      exact absurd hSpends (of_decide_eq_true hApart)
  · rw [hSecond]
    rcases List.mem_pair.mp hHeight with hBefore | hAfter
    · rw [hBefore]
      decide
    · rw [hAfter]

/-
  In the order of the chain the payment is reported as spent both ways.
-/
theorem streaming_eq_batch_spent_later :
    ∃ receipts,
      detectAll receivedPrimitives receivingKeys Address.caselessTables
          (history (twoBlocks 1 2) (scannedHeights 1 receivingTip))
          receivingTip =
        .ok receipts ∧
        receipts.map (fun receipt => receipt.unspent) = [false] ∧
          scanHonest receivedPrimitives receivingKeys 1 receivingTip (twoBlocks 1 2) = .ok
              { fromHeight := 1
                tip := receivingTip
                evidence := .serverAssertion
                includesMempool := false
                receipts } := by
  have hDetect :
      ∃ receipts,
        detectAll receivedPrimitives receivingKeys Address.caselessTables
            (history (twoBlocks 1 2) (scannedHeights 1 receivingTip))
            receivingTip =
          .ok receipts ∧
          receipts.map (fun receipt => receipt.unspent) = [false] :=
    exists_ok_of_check (by decide +kernel)
  rcases hDetect with ⟨receipts, hDetect, hFlags⟩
  have hUnspent :
      ∃ unspent,
      unspentOutputs receivedPrimitives.sha256
            (rawsOf (history (twoBlocks 1 2) (scannedHeights 1 receivingTip))) [] = .ok unspent ∧
        unspent = [] :=
    exists_ok_of_check (by decide +kernel)
  rcases hUnspent with ⟨unspent, hUnspent, -⟩
  have hLength := congrArg List.length hFlags
  rw [List.length_map, List.length_singleton] at hLength
  have hBoth :=
    (@streaming_eq_batch receivedPrimitives receivingKeys
      receivingTip Address.caselessTables 1 (twoBlocks 1 2) []
      unspent (by decide) blockHeight_two (by decide +kernel)
      hUnspent collisionFree_two spendsFollow_two).1 receipts
      hDetect
  refine ⟨receipts, hDetect, hFlags, ?_⟩
  exact hBoth.1.trans (if_neg (by omega))

/-
  With the spend in an earlier block, the scan block by block reports the payment as unspent.
-/
theorem early_spend_is_missed :
    ∃ receipts result,
    detectAll receivedPrimitives receivingKeys Address.caselessTables
          (history (twoBlocks 2 1) (scannedHeights 1 receivingTip)) receivingTip = .ok receipts ∧
      scanHonest receivedPrimitives receivingKeys 1 receivingTip (twoBlocks 2 1) = .ok result ∧
      receipts.map (fun receipt => receipt.unspent) = [false] ∧
      result.receipts.map (fun receipt => receipt.unspent) = [true] := by
  have hDetect :
      ∃ receipts,
        detectAll receivedPrimitives receivingKeys Address.caselessTables
            (history (twoBlocks 2 1) (scannedHeights 1 receivingTip))
            receivingTip =
          .ok receipts ∧
          receipts.map (fun receipt => receipt.unspent) = [false] :=
    exists_ok_of_check (by decide +kernel)
  have hScan :
      ∃ result,
        scanHonest receivedPrimitives receivingKeys 1 receivingTip (twoBlocks 2 1) = .ok result ∧
          result.receipts.map (fun receipt => receipt.unspent) = [true] :=
    exists_ok_of_check (by decide +kernel)
  rcases hDetect with ⟨receipts, hDetect, hFlags⟩
  rcases hScan with ⟨result, hScan, hMissed⟩
  exact ⟨receipts, result, hDetect, hScan, hFlags, hMissed⟩

end CashcodeScanKeys

end OptnWallet
