import OptnWallet.Core.WalletProjection.Projected
import OptnWallet.Library.Ledger

/-
  The laws of history and unspent outputs: when they succeed, what they report, and that no
  satoshi is lost between them.

  Main declarations:
    * `Tallies` and `Tallies.foldlM`
    * `receivedBy` and `spentBy`
    * `wallet_laws`
-/

--- Tallies

namespace OptnWallet

namespace UnspentOutput

def sats (unspent : UnspentOutput) : Nat := unspent.output.value.toNat

end UnspentOutput

namespace WalletTransaction

def received (tx : WalletTransaction) : Nat := tx.receivedSats.toNat

def spent (tx : WalletTransaction) : Nat := tx.spentSats.toNat

end WalletTransaction

theorem historyEntry_insert (history : BTreeMap TxId WalletTransaction) (txid other : TxId)
    (entry : WalletTransaction) :
    historyEntry (history.insert txid entry) other =
      if other = txid then entry
      else historyEntry history other := by
  unfold historyEntry
  rw [BTreeMap.get?_insert]
  split
  · rfl
  · rfl

/- One amount of every entry is what was posted to it. -/
structure Tally (amount : WalletTransaction → Nat) (history : BTreeMap TxId WalletTransaction)
    (posted : List (TxId × Nat)) : Prop where
  empty : ∀ txid, amount ⟨txid, 0, 0⟩ = 0
  balance : ∀ txid, amount (historyEntry history txid) = Ledger.balanceOf posted txid
  total : history.total amount = Ledger.total posted

variable {amount : WalletTransaction → Nat}

theorem tally_new (hEmpty : ∀ txid, amount ⟨txid, 0, 0⟩ = 0) : Tally amount BTreeMap.new [] :=
  ⟨hEmpty, hEmpty, rfl⟩

variable {history : BTreeMap TxId WalletTransaction} {posted : List (TxId × Nat)}

/- An entry that is not there counts as an empty one. -/
theorem Tally.total_insert (hTally : Tally amount history posted) (txid : TxId)
    (entry : WalletTransaction) :
    (history.insert txid entry).total amount + amount (historyEntry history txid) =
      Ledger.total posted + amount entry := by
  rw [← hTally.total, ← history.total_insert txid entry amount]
  unfold historyEntry
  cases history.get? txid with
  | none =>
    rw [Option.getD_none, hTally.empty]
    rfl
  | some old => rfl

variable {txid : TxId}

/- The amount of one entry grows by what is posted to it. -/
theorem Tally.post {entry : WalletTransaction} {value : Nat} (hTally : Tally amount history posted)
    (hEntry : amount entry = amount (historyEntry history txid) + value) :
    Tally amount (history.insert txid entry) (posted ++ [(txid, value)]) := by
  refine ⟨hTally.empty, ?_, ?_⟩
  · intro other
    rw [historyEntry_insert, Ledger.balanceOf_append, Ledger.balanceOf_singleton, ← hTally.balance]
    by_cases hSame : other = txid
    · rw [if_pos hSame, if_pos hSame.symm, hSame, hEntry]
    · rw [if_neg hSame, if_neg (Ne.symm hSame), Nat.add_zero]
  · have hTotal := hTally.total_insert txid entry
    rw [hEntry] at hTotal
    rw [Ledger.total_append, Ledger.total_singleton]
    dsimp only
    omega

/- An entry that changes otherwise keeps its amount. -/
theorem Tally.keep {entry : WalletTransaction} (hTally : Tally amount history posted)
    (hEntry : amount entry = amount (historyEntry history txid)) :
    Tally amount (history.insert txid entry) posted := by
  refine ⟨hTally.empty, ?_, ?_⟩
  · intro other
    rw [historyEntry_insert, ← hTally.balance]
    split
    · rename_i hSame
      rw [hSame, hEntry]
    · rfl
  · have hTotal := hTally.total_insert txid entry
    rw [hEntry] at hTotal
    exact Nat.add_right_cancel hTotal

--- Receipts And Spends

/- A history of exactly these receipts and spends. -/
structure Tallies (history : BTreeMap TxId WalletTransaction) (received spent : List (TxId × Nat)) :
    Prop where
  received : Tally WalletTransaction.received history received
  spent : Tally WalletTransaction.spent history spent

theorem checkedSats_ok {error : CliError} {sum value sum' : UInt64}
    (hAdd : checkedSats error sum value = .ok sum') : sum'.toNat = sum.toNat + value.toNat := by
  unfold checkedSats at hAdd
  split at hAdd
  · rename_i hRange
    cases hAdd
    rw [UInt64.toNat_add, Nat.mod_eq_of_lt hRange]
  · cases hAdd

theorem checkedSats_error {error error' : CliError} {sum value : UInt64}
    (hAdd : checkedSats error sum value = .error error') : 2 ^ 64 ≤ sum.toNat + value.toNat := by
  unfold checkedSats at hAdd
  split at hAdd
  · cases hAdd
  · rename_i hRange
    exact Nat.le_of_not_lt hRange

variable {received spent : List (TxId × Nat)}

theorem Tallies.addReceived (hTallies : Tallies history received spent) (txid : TxId)
    (value : UInt64) :
    match addReceived history txid value with
    | .ok history' => Tallies history' (received ++ [(txid, value.toNat)]) spent
    | .error _ => 2 ^ 64 ≤ Ledger.balanceOf (received ++ [(txid, value.toNat)]) txid := by
  unfold OptnWallet.addReceived
  dsimp only [bind, Except.bind]
  cases hChecked : checkedSats (.protocol "wallet received value exceeds u64 range")
    (historyEntry history txid).receivedSats value with
  | error error =>
    dsimp only
    rw
      [Ledger.balanceOf_append, ← hTallies.received.balance, Ledger.balanceOf_singleton, if_pos rfl]
    exact checkedSats_error hChecked
  | ok receivedSats =>
    constructor
    · exact hTallies.received.post (checkedSats_ok hChecked)
    · exact hTallies.spent.keep rfl

theorem Tallies.addSpent (hTallies : Tallies history received spent) (txid : TxId)
    (value : UInt64) :
    match addSpent history txid value with
    | .ok history' => Tallies history' received (spent ++ [(txid, value.toNat)])
    | .error _ => 2 ^ 64 ≤ Ledger.balanceOf (spent ++ [(txid, value.toNat)]) txid := by
  unfold OptnWallet.addSpent
  dsimp only [bind, Except.bind]
  cases hChecked : checkedSats (.protocol "wallet spent value exceeds u64 range")
    (historyEntry history txid).spentSats value with
  | error error =>
    dsimp only
    rw [Ledger.balanceOf_append, ← hTallies.spent.balance, Ledger.balanceOf_singleton, if_pos rfl]
    exact checkedSats_error hChecked
  | ok spentSats =>
    constructor
    · exact hTallies.received.keep rfl
    · exact hTallies.spent.post (checkedSats_ok hChecked)

--- The Fold

/- What owned outputs give to the transactions that made them. -/
def receipts (entries : List (OutPoint × UnspentOutput)) : List (TxId × Nat) :=
  Ledger.postings (fun entry => some entry.2.txid) (fun entry => entry.2.sats) entries

/- What they give to the transactions that spend them. -/
def spends (spent : BTreeMap OutPoint TxId) (entries : List (OutPoint × UnspentOutput)) :
    List (TxId × Nat) :=
  Ledger.postings (fun entry => spent.get? entry.1) (fun entry => entry.2.sats) entries

/- Some balance is not a word. -/
def Overflows (posted : List (TxId × Nat)) : Prop := ∃ txid, 2 ^ 64 ≤ Ledger.balanceOf posted txid

theorem Overflows.append (hOverflows : Overflows posted) (posted' : List (TxId × Nat)) :
    Overflows (posted ++ posted') := by
  rcases hOverflows with ⟨txid, hLarge⟩
  exact ⟨txid, Nat.le_trans hLarge (Ledger.balanceOf_le_append posted posted' txid)⟩

section

variable (hTallies : Tallies history received spent) (spentBy : BTreeMap OutPoint TxId)
include hTallies

theorem Tallies.addOutput (entry : OutPoint × UnspentOutput) :
    match addOutput spentBy history entry with
    | .ok history' =>
      Tallies history' (received ++ receipts [entry]) (spent ++ spends spentBy [entry])
    | .error _ =>
      Overflows (received ++ receipts [entry]) ∨ Overflows (spent ++ spends spentBy [entry]) := by
  have hReceipts : receipts [entry] = [(entry.2.txid, entry.2.sats)] := Ledger.postings_of_some rfl
  have hReceived := hTallies.addReceived entry.2.txid entry.2.output.value
  unfold OptnWallet.addOutput
  rw [hReceipts]
  dsimp only [bind, Except.bind]
  cases hAdd : OptnWallet.addReceived history entry.2.txid entry.2.output.value with
  | error error =>
    rw [hAdd] at hReceived
    exact Or.inl ⟨entry.2.txid, hReceived⟩
  | ok history' =>
    rw [hAdd] at hReceived
    dsimp only at hReceived ⊢
    cases hSpender : spentBy.get? entry.1 with
    | none =>
      have hSpends : spends spentBy [entry] = [] := Ledger.postings_of_none hSpender
      rw [hSpends, List.append_nil]
      exact hReceived
    | some txid =>
      have hSpends : spends spentBy [entry] = [(txid, entry.2.sats)] :=
        Ledger.postings_of_some hSpender
      have hSpent := hReceived.addSpent txid entry.2.output.value
      rw [hSpends]
      dsimp only
      cases hAdd' : OptnWallet.addSpent history' txid entry.2.output.value with
      | error error =>
        rw [hAdd'] at hSpent
        exact Or.inr ⟨txid, hSpent⟩
      | ok history'' =>
        rw [hAdd'] at hSpent
        exact hSpent

/- By induction over the outputs that are left. -/
theorem Tallies.foldlM (entries : List (OutPoint × UnspentOutput)) :
    match entries.foldlM (OptnWallet.addOutput spentBy) history with
    | .ok history' =>
      Tallies history' (received ++ receipts entries) (spent ++ spends spentBy entries)
    | .error _ =>
      Overflows (received ++ receipts entries) ∨ Overflows (spent ++ spends spentBy entries) := by
  induction entries generalizing history received spent with
  | nil =>
    have hReceipts : receipts [] = [] := rfl
    have hSpends : spends spentBy [] = [] := rfl
    rw [hReceipts, hSpends, List.append_nil, List.append_nil]
    exact hTallies
  | cons entry entries ih =>
    have hReceipts : receipts (entry :: entries) = receipts [entry] ++ receipts entries :=
      Ledger.postings_cons ..
    have hSpends :
        spends spentBy (entry :: entries) = spends spentBy [entry] ++ spends spentBy entries :=
      Ledger.postings_cons ..
    have hStep := hTallies.addOutput spentBy entry
    rw [List.foldlM_cons, hReceipts, hSpends, ← List.append_assoc, ← List.append_assoc]
    dsimp only [bind, Except.bind]
    cases hAdd : OptnWallet.addOutput spentBy history entry with
    | error error =>
      rw [hAdd] at hStep
      exact hStep.imp (fun hLarge => hLarge.append _) (fun hLarge => hLarge.append _)
    | ok history' =>
      rw [hAdd] at hStep
      exact ih hStep

end

--- Owned Outputs Of A List

variable {sha256 : List UInt8 → Vector UInt8 32} {scripts : List (List UInt8)}
variable {transactions : List (List UInt8)}

section

variable (sha256 : List UInt8 → Vector UInt8 32)

/- An output of a raw transaction that pays the scripts. -/
def Owns (scripts : List (List UInt8)) (raw : List UInt8) (unspent : UnspentOutput) : Prop :=
  ∃ decoded,
    decode raw = .ok decoded ∧ unspent.txid = doubleSha256 sha256 raw ∧
      unspent.output.scriptPubkey ∈ scripts ∧
      decoded.outputs[unspent.vout.toNat]? = some unspent.output

/- The owned outputs of each transaction, once. -/
def ownedOutputs (scripts transactions : List (List UInt8)) : List UnspentOutput :=
  transactions.dedup.flatMap (ownedOf sha256 scripts)

/- What a transaction pays to the scripts. -/
def receivedBy (scripts : List (List UInt8))
    (raw : List UInt8) : Nat := ((ownedOf sha256 scripts raw).map UnspentOutput.sats).sum

/- What it spends of what transactions pay to them. -/
def spentBy (scripts transactions : List (List UInt8)) (raw : List UInt8) : Nat :=
  (((ownedOutputs sha256 scripts transactions).filter
      (fun output => decide (output.key ∈ spendsOf raw))).map UnspentOutput.sats).sum

end

variable {raw : List UInt8}

theorem mem_ownedOf_iff_owns {raws : Set (List UInt8)} {unspent : UnspentOutput}
    (hProjectable : Projectable scripts raws) (hRaw : raw ∈ raws) :
    unspent ∈ ownedOf sha256 scripts raw ↔ Owns sha256 scripts raw unspent := by
  rcases hProjectable.decodes raw hRaw with ⟨decoded, hDecode⟩
  rw [mem_ownedOf_iff hDecode (hProjectable.range raw hRaw decoded hDecode)]
  constructor
  · intro hOwned
    exact ⟨decoded, hDecode, hOwned⟩
  · rintro ⟨decoded', hDecode', hOwned⟩
    rw [hDecode] at hDecode'
    cases hDecode'
    exact hOwned

theorem nodup_ownedFrom {index : Nat} {outputs : List DecodedOutput}
    (hRange : OwnedInRange scripts index outputs) :
    (ownedFrom scripts txid index outputs).Nodup := by
  induction outputs generalizing index with
  | nil => exact List.nodup_nil
  | cons output rest ih =>
    rcases ownedInRange_cons.mp hRange with ⟨hFirst, hRest⟩
    unfold ownedFrom
    split
    · rename_i hOwned
      refine List.nodup_cons.mpr ⟨?_, ih hRest⟩
      intro hMem
      rcases (mem_ownedFrom_iff hRest).mp hMem with ⟨-, -, i, -, hPlace⟩
      have hIndex : (UInt32.ofNat index).toNat = index := UInt32.toNat_ofNat_of_lt (hFirst hOwned)
      dsimp only at hPlace
      omega
    · exact ih hRest

theorem nodup_ownedOf {raws : Set (List UInt8)} (hProjectable : Projectable scripts raws)
    (hRaw : raw ∈ raws) : (ownedOf sha256 scripts raw).Nodup := by
  rcases hProjectable.decodes raw hRaw with ⟨decoded, hDecode⟩
  rw [ownedOf_of_decode hDecode]
  exact nodup_ownedFrom (hProjectable.range raw hRaw decoded hDecode)

theorem mem_ownedOutputs_iff {unspent : UnspentOutput} :
    unspent ∈ ownedOutputs sha256 scripts transactions ↔
    ∃ raw ∈ transactions, unspent ∈ ownedOf sha256 scripts raw := by
  unfold ownedOutputs
  rw [List.mem_flatMap]
  simp only [List.mem_dedup]

theorem nodup_ownedOutputs (hProjectable : Projectable scripts {raw | raw ∈ transactions})
    (hFree : CollisionFree sha256 {raw | raw ∈ transactions}) :
    (ownedOutputs sha256 scripts transactions).Nodup := by
  unfold ownedOutputs
  rw [List.nodup_flatMap]
  constructor
  · intro raw hRaw
    exact nodup_ownedOf hProjectable (List.mem_dedup.mp hRaw)
  · apply (List.nodup_dedup transactions).imp_of_mem
    intro raw raw' hRaw hRaw' hNe unspent hMem hMem'
    rw [List.mem_dedup] at hRaw hRaw'
    apply hNe
    apply hFree raw hRaw raw' hRaw'
    rw [← ownedOf_txid (hProjectable.range raw hRaw) hMem,
      ← ownedOf_txid (hProjectable.range raw' hRaw') hMem']

--- Balances Of A Projection

variable {projection : WalletProjection}

section

variable (hProjects : Projects sha256 scripts {raw | raw ∈ transactions} projection)
include hProjects

theorem mem_entries_iff {entry : OutPoint × UnspentOutput} :
    entry ∈ projection.outputs.entries ↔
    entry.2.key = entry.1 ∧ entry.2 ∈ ownedOutputs sha256 scripts transactions := by
  rcases entry with ⟨key, unspent⟩
  rw [← BTreeMap.get?_eq_some_iff, hProjects.outputs, mem_ownedOutputs_iff]
  rfl

/- The entries that have a property, without their keys. -/
theorem nodup_filter_values (property : OutPoint × UnspentOutput → Bool) :
    ((projection.outputs.entries.filter property).map Prod.snd).Nodup := by
  apply (projection.outputs.nodup.filter property).map_on
  intro entry hEntry entry' hEntry' hSame
  have hKey := ((mem_entries_iff hProjects).mp (List.mem_filter.mp hEntry).1).1
  have hKey' := ((mem_entries_iff hProjects).mp (List.mem_filter.mp hEntry').1).1
  apply Prod.ext
  · rw [← hKey, ← hKey', hSame]
  · exact hSame

theorem mem_filter_values_iff {property : OutPoint × UnspentOutput → Bool}
    {output : UnspentOutput} :
    output ∈ (projection.outputs.entries.filter property).map Prod.snd ↔
      output ∈ ownedOutputs sha256 scripts transactions ∧ property (output.key, output) = true := by
  rw [List.mem_map]
  constructor
  · rintro ⟨⟨key, found⟩, hEntry, rfl⟩
    rcases List.mem_filter.mp hEntry with ⟨hMem, hHas⟩
    rcases (mem_entries_iff hProjects).mp hMem with ⟨hKey, hOwned⟩
    dsimp only at hKey
    rw [← hKey] at hHas
    exact ⟨hOwned, hHas⟩
  · rintro ⟨hOwned, hHas⟩
    refine ⟨(output.key, output), ?_, rfl⟩
    exact List.mem_filter.mpr ⟨(mem_entries_iff hProjects).mpr ⟨rfl, hOwned⟩, hHas⟩

/-
  Sums over entries of a projection are sums over the owned outputs they hold.
-/
theorem sum_filter_entries {property : OutPoint × UnspentOutput → Bool}
    {outputs : List UnspentOutput} (hNodup : outputs.Nodup)
    (hSame : ∀ output,
        output ∈ outputs ↔
          output ∈ ownedOutputs sha256 scripts transactions ∧ property (output.key, output) = true)
      :
    ((projection.outputs.entries.filter property).map (fun entry => entry.2.sats)).sum =
      (outputs.map UnspentOutput.sats).sum := by
  have hPerm : ((projection.outputs.entries.filter property).map Prod.snd).Perm outputs := by
    rw [List.perm_ext_iff_of_nodup (nodup_filter_values hProjects property) hNodup]
    intro output
    rw [mem_filter_values_iff hProjects, hSame]
  rw [← (hPerm.map _).sum_eq, List.map_map]
  rfl

variable (hFree : CollisionFree sha256 {raw | raw ∈ transactions})

include hFree in
theorem balanceOf_receipts (hRaw : raw ∈ transactions) :
    Ledger.balanceOf (receipts projection.outputs.entries) (doubleSha256 sha256 raw) =
      receivedBy sha256 scripts raw := by
  have hProjectable := hProjects.projectable
  unfold receipts
  rw [Ledger.balanceOf_postings]
  apply sum_filter_entries hProjects (nodup_ownedOf hProjectable hRaw)
  intro output
  rw [mem_ownedOutputs_iff, decide_eq_true_eq, Option.some_inj]
  constructor
  · intro hMem
    exact ⟨⟨raw, hRaw, hMem⟩, ownedOf_txid (hProjectable.range raw hRaw) hMem⟩
  · rintro ⟨⟨made, hMade, hMem⟩, hTxid⟩
    have hSame : made = raw := by
      apply hFree made hMade raw hRaw
      rw [← hTxid]
      exact (ownedOf_txid (hProjectable.range made hMade) hMem).symm
    rw [← hSame]
    exact hMem

include hFree in
theorem spent_iff (hRaw : raw ∈ transactions) (key : OutPoint) :
    projection.spent.get? key = some (doubleSha256 sha256 raw) ↔ key ∈ spendsOf raw := by
  rw [hProjects.spent]
  constructor
  · rintro ⟨raw', hRaw', hTxid, hKey⟩
    rw [hFree raw hRaw raw' hRaw' hTxid]
    exact hKey
  · intro hKey
    exact ⟨raw, hRaw, rfl, hKey⟩

include hFree in
theorem balanceOf_spends (hRaw : raw ∈ transactions) :
    Ledger.balanceOf (spends projection.spent projection.outputs.entries) (doubleSha256 sha256 raw)
        = spentBy sha256 scripts transactions raw := by
  unfold spends spentBy
  rw [Ledger.balanceOf_postings]
  apply sum_filter_entries hProjects ((nodup_ownedOutputs hProjects.projectable hFree).filter _)
  intro output
  rw [List.mem_filter, decide_eq_true_eq, decide_eq_true_eq, spent_iff hProjects hFree hRaw]

end

/- Some balance is no word, where only the given transactions have a balance. -/
theorem overflows_iff {amount : List UInt8 → Nat}
    (hHere : ∀ raw ∈ transactions, Ledger.balanceOf posted (doubleSha256 sha256 raw) = amount raw)
    (hElsewhere : ∀ txid,
        (∀ raw ∈ transactions, doubleSha256 sha256 raw ≠ txid) → Ledger.balanceOf posted txid = 0) :
    Overflows posted ↔ ∃ raw ∈ transactions, 2 ^ 64 ≤ amount raw := by
  constructor
  · rintro ⟨txid, hLarge⟩
    by_cases hMade : ∃ raw ∈ transactions, doubleSha256 sha256 raw = txid
    · rcases hMade with ⟨raw, hRaw, rfl⟩
      rw [hHere raw hRaw] at hLarge
      exact ⟨raw, hRaw, hLarge⟩
    · have hNone := hElsewhere txid (by simpa using hMade)
      omega
  · rintro ⟨raw, hRaw, hLarge⟩
    refine ⟨doubleSha256 sha256 raw, ?_⟩
    rw [hHere raw hRaw]
    exact hLarge

section

variable (hProjects : Projects sha256 scripts {raw | raw ∈ transactions} projection)
variable (hFree : CollisionFree sha256 {raw | raw ∈ transactions})
include hProjects hFree

theorem overflows_receipts_iff :
    Overflows (receipts projection.outputs.entries) ↔
    ∃ raw ∈ transactions, 2 ^ 64 ≤ receivedBy sha256 scripts raw := by
  apply overflows_iff
  · intro raw hRaw
    exact balanceOf_receipts hProjects hFree hRaw
  · intro txid hElsewhere
    unfold receipts
    rw [Ledger.balanceOf_postings]
    apply sum_filter_entries hProjects List.nodup_nil
    intro output
    rw [mem_ownedOutputs_iff, decide_eq_true_eq, Option.some_inj]
    constructor
    · intro hMem
      cases hMem
    · rintro ⟨⟨raw, hRaw, hMem⟩, hTxid⟩
      exfalso
      apply hElsewhere raw hRaw
      rw [← hTxid]
      exact (ownedOf_txid (hProjects.projectable.range raw hRaw) hMem).symm

theorem overflows_spends_iff :
    Overflows (spends projection.spent projection.outputs.entries) ↔
    ∃ raw ∈ transactions, 2 ^ 64 ≤ spentBy sha256 scripts transactions raw := by
  apply overflows_iff
  · intro raw hRaw
    exact balanceOf_spends hProjects hFree hRaw
  · intro txid hElsewhere
    unfold spends
    rw [Ledger.balanceOf_postings]
    apply sum_filter_entries hProjects List.nodup_nil
    intro output
    rw [decide_eq_true_eq, hProjects.spent]
    constructor
    · intro hMem
      cases hMem
    · rintro ⟨-, raw, hRaw, hTxid, -⟩
      exact absurd hTxid.symm (hElsewhere raw hRaw)

end

--- Results

variable {unspent : List UnspentOutput}

/- Both results are read off the one projection. -/
theorem unspentOutputs_eq_ok_iff :
    unspentOutputs sha256 transactions scripts = .ok unspent ↔
    ∃ projection,
      walletProjection sha256 transactions scripts = .ok projection ∧
        unspent = (projection.outputs.retain
            (fun outpoint => (projection.spent.get? outpoint).isNone)).values := by
  unfold unspentOutputs
  rw [StagedUpdate.bind_eq_ok_iff]
  simp only [Except.ok.injEq, eq_comm]

theorem walletHistory_eq_ok_iff {history : List WalletTransaction} :
    walletHistory sha256 transactions scripts = .ok history ↔
    ∃ projection entries,
      walletProjection sha256 transactions scripts = .ok projection ∧
        projection.outputs.entries.foldlM (addOutput projection.spent) BTreeMap.new = .ok entries ∧
        history = entries.values := by
  unfold walletHistory
  constructor
  · intro hHistory
    rcases StagedUpdate.bind_eq_ok_iff.mp hHistory with ⟨projection, hProjection, hHistory⟩
    rcases StagedUpdate.bind_eq_ok_iff.mp hHistory with ⟨entries, hEntries, hHistory⟩
    cases hHistory
    exact ⟨projection, entries, hProjection, hEntries, rfl⟩
  · rintro ⟨projection, entries, hProjection, hEntries, rfl⟩
    apply StagedUpdate.bind_eq_ok_iff.mpr
    refine ⟨projection, hProjection, ?_⟩
    apply StagedUpdate.bind_eq_ok_iff.mpr
    exact ⟨entries, hEntries, rfl⟩

variable {transactions' : List (List UInt8)}

section

variable (hSame : ∀ raw, raw ∈ transactions' ↔ raw ∈ transactions)
variable (hFree : CollisionFree sha256 {raw | raw ∈ transactions})
include hSame hFree

/- Lists of the same transactions have the same projection. -/
theorem walletProjection_congr :
    (walletProjection sha256 transactions' scripts).toOption =
      (walletProjection sha256 transactions scripts).toOption := by
  have hSets : {raw | raw ∈ transactions'} = {raw | raw ∈ transactions} := Set.ext hSame
  have hSpec := walletProjection_spec scripts hFree
  have hFree' := hFree
  rw [← hSets] at hFree'
  have hSpec' := walletProjection_spec scripts hFree'
  rw [hSets] at hSpec'
  cases hHere : walletProjection sha256 transactions scripts with
  | error error =>
    rw [hHere] at hSpec
    cases hThere : walletProjection sha256 transactions' scripts with
    | error error' => rfl
    | ok projection' =>
      rw [hThere] at hSpec'
      exact absurd hSpec'.projectable hSpec
  | ok projection =>
    rw [hHere] at hSpec
    cases hThere : walletProjection sha256 transactions' scripts with
    | error error' =>
      rw [hThere] at hSpec'
      exact absurd hSpec.projectable hSpec'
    | ok projection' =>
      rw [hThere] at hSpec'
      rw [hSpec'.unique hSpec]

theorem walletHistory_congr :
    (walletHistory sha256 transactions' scripts).toOption =
      (walletHistory sha256 transactions scripts).toOption := by
  unfold walletHistory
  rw [StagedUpdate.toOption_bind, StagedUpdate.toOption_bind, walletProjection_congr hSame hFree]

theorem unspentOutputs_congr :
    (unspentOutputs sha256 transactions' scripts).toOption =
      (unspentOutputs sha256 transactions scripts).toOption := by
  unfold unspentOutputs
  rw [StagedUpdate.toOption_bind, StagedUpdate.toOption_bind, walletProjection_congr hSame hFree]

end

/- What the history of a projection holds. -/
theorem history_spec (projection : WalletProjection) :
    match projection.outputs.entries.foldlM
        (addOutput projection.spent) BTreeMap.new with
    | .ok history => Tallies history (receipts projection.outputs.entries)
        (spends projection.spent projection.outputs.entries)
    | .error _ => Overflows (receipts projection.outputs.entries) ∨
        Overflows (spends projection.spent projection.outputs.entries) := by
  have hNew : Tallies BTreeMap.new [] [] := ⟨tally_new (fun _ => rfl), tally_new (fun _ => rfl)⟩
  exact hNew.foldlM projection.spent projection.outputs.entries

theorem Tally.not_overflows (hTally : Tally amount history posted)
    (hWord : ∀ entry, amount entry < 2 ^ 64) : ¬ Overflows posted := by
  rintro ⟨txid, hLarge⟩
  rw [← hTally.balance] at hLarge
  exact absurd (hWord _) (Nat.not_lt.mpr hLarge)

/-
  History fails where unspent outputs do, and where what one transaction receives or spends is no
  word.
-/
theorem walletHistory_ok_iff (hFree : CollisionFree sha256 {raw | raw ∈ transactions}) :
    (∃ history, walletHistory sha256 transactions scripts = .ok history) ↔
    (∃ unspent, unspentOutputs sha256 transactions scripts = .ok unspent) ∧ ∀ raw ∈ transactions,
        receivedBy sha256 scripts raw < 2 ^ 64 ∧
          spentBy sha256 scripts transactions raw < 2 ^ 64 := by
  have hSpec := walletProjection_spec scripts hFree
  constructor
  · rintro ⟨history, hHistory⟩
    rcases walletHistory_eq_ok_iff.mp hHistory with ⟨projection, entries, hProjection, hEntries, -⟩
    rw [hProjection] at hSpec
    have hTallies := history_spec projection
    rw [hEntries] at hTallies
    refine ⟨⟨_, unspentOutputs_eq_ok_iff.mpr ⟨projection, hProjection, rfl⟩⟩, ?_⟩
    intro raw hRaw
    constructor
    · by_contra hLarge
      apply hTallies.received.not_overflows fun entry => entry.receivedSats.toNat_lt
      rw [overflows_receipts_iff hSpec hFree]
      exact ⟨raw, hRaw, Nat.le_of_not_lt hLarge⟩
    · by_contra hLarge
      apply hTallies.spent.not_overflows fun entry => entry.spentSats.toNat_lt
      rw [overflows_spends_iff hSpec hFree]
      exact ⟨raw, hRaw, Nat.le_of_not_lt hLarge⟩
  · rintro ⟨⟨unspent, hUnspent⟩, hWords⟩
    rcases unspentOutputs_eq_ok_iff.mp hUnspent with ⟨projection, hProjection, -⟩
    rw [hProjection] at hSpec
    have hHistory := history_spec projection
    cases hEntries : projection.outputs.entries.foldlM (addOutput projection.spent)
      BTreeMap.new with
    | ok entries =>
      exact ⟨_, walletHistory_eq_ok_iff.mpr ⟨projection, entries, hProjection, hEntries, rfl⟩⟩
    | error error =>
      exfalso
      rw [hEntries] at hHistory
      rcases hHistory with hLarge | hLarge
      · rw [overflows_receipts_iff hSpec hFree] at hLarge
        rcases hLarge with ⟨raw, hRaw, hLarge⟩
        exact absurd (hWords raw hRaw).1 (Nat.not_lt.mpr hLarge)
      · rw [overflows_spends_iff hSpec hFree] at hLarge
        rcases hLarge with ⟨raw, hRaw, hLarge⟩
        exact absurd (hWords raw hRaw).2 (Nat.not_lt.mpr hLarge)

theorem unspent_values (projection : WalletProjection) :
    (projection.outputs.retain (fun outpoint => (projection.spent.get? outpoint).isNone)).values =
      (projection.outputs.entries.filter (fun entry => (projection.spent.get? entry.1).isNone)).map
        Prod.snd := rfl

/- The unspent outputs, by the transactions given. -/
theorem mem_unspentOutputs_iff (hFree : CollisionFree sha256 {raw | raw ∈ transactions})
    (hUnspent : unspentOutputs sha256 transactions scripts = .ok unspent) :
    unspent.Nodup ∧
    ∀ output,
      output ∈ unspent ↔ (∃ raw ∈ transactions, Owns sha256 scripts raw output) ∧
          ∀ raw ∈ transactions, output.key ∉ spendsOf raw := by
  have hSpec := walletProjection_spec scripts hFree
  rcases unspentOutputs_eq_ok_iff.mp hUnspent with ⟨projection, hProjection, rfl⟩
  rw [hProjection] at hSpec
  rw [unspent_values]
  refine ⟨nodup_filter_values hSpec _, ?_⟩
  have hFresh (output : UnspentOutput) :
      (projection.spent.get? output.key).isNone = true ↔
      ∀ raw ∈ transactions, output.key ∉ spendsOf raw := by
    rw [Option.isNone_iff_eq_none, Option.eq_none_iff_forall_ne_some]
    constructor
    · intro hNone raw hRaw hSpends
      exact hNone _ ((hSpec.spent _ _).mpr ⟨raw, hRaw, rfl, hSpends⟩)
    · intro hNone txid hSome
      rcases (hSpec.spent _ _).mp hSome with ⟨raw, hRaw, -, hSpends⟩
      exact hNone raw hRaw hSpends
  have hOwned (output : UnspentOutput) :
      output ∈ ownedOutputs sha256 scripts transactions ↔
      ∃ raw ∈ transactions, Owns sha256 scripts raw output := by
    rw [mem_ownedOutputs_iff]
    constructor
    · rintro ⟨raw, hRaw, hMem⟩
      exact ⟨raw, hRaw, (mem_ownedOf_iff_owns hSpec.projectable hRaw).mp hMem⟩
    · rintro ⟨raw, hRaw, hOwns⟩
      exact ⟨raw, hRaw, (mem_ownedOf_iff_owns hSpec.projectable hRaw).mpr hOwns⟩
  intro output
  rw [← hFresh, ← hOwned]
  exact mem_filter_values_iff hSpec

/- What is received is spent or unspent. -/
theorem conservation {history : List WalletTransaction}
    (hHistory : walletHistory sha256 transactions scripts = .ok history)
    (hUnspent : unspentOutputs sha256 transactions scripts = .ok unspent) :
    (history.map WalletTransaction.received).sum =
      (history.map WalletTransaction.spent).sum + (unspent.map UnspentOutput.sats).sum := by
  rcases walletHistory_eq_ok_iff.mp hHistory with ⟨projection, entries, hProjection, hEntries, rfl⟩
  rcases unspentOutputs_eq_ok_iff.mp hUnspent with ⟨projection', hProjection', rfl⟩
  rw [hProjection] at hProjection'
  cases hProjection'
  have hTallies := history_spec projection
  rw [hEntries] at hTallies
  have hReceived := hTallies.received.total
  have hSpent := hTallies.spent.total
  have hAll :=
    Ledger.total_postings_add (fun entry : OutPoint × UnspentOutput => some entry.2.txid)
      (fun entry => entry.2.sats) projection.outputs.entries
  have hSplit :=
    Ledger.total_postings_add
      (fun entry : OutPoint × UnspentOutput => projection.spent.get? entry.1)
      (fun entry => entry.2.sats) projection.outputs.entries
  have hNone : projection.outputs.entries.filter (fun entry => (some entry.2.txid).isNone) = [] :=
    List.filter_eq_nil_iff.mpr (fun _ _ => Bool.false_ne_true)
  rw [hNone] at hAll
  rw [unspent_values, List.map_map]
  unfold BTreeMap.total at hReceived hSpent
  rw [hReceived, hSpent]
  exact hAll.trans hSplit.symm

--- Wallet Laws

/-
  History fails where unspent outputs do and where a sum of one transaction is no word; order and
  repetition change neither; unspent are the owned outputs that no transaction spends; and what is
  received is spent or unspent.
-/
theorem wallet_laws (sha256 : List UInt8 → Vector UInt8 32)
    (scripts transactions : List (List UInt8))
    (hFree : CollisionFree sha256 {raw | raw ∈ transactions}) :
    ((∃ history, walletHistory sha256 transactions scripts = .ok history) ↔
          (∃ unspent, unspentOutputs sha256 transactions scripts = .ok unspent) ∧
            ∀ raw ∈ transactions,
        receivedBy sha256 scripts raw < 2 ^ 64 ∧ spentBy sha256 scripts transactions raw < 2 ^ 64) ∧
    (∀ transactions' :
        List (List UInt8), (∀ raw, raw ∈ transactions' ↔ raw ∈ transactions) →
          (walletHistory sha256 transactions' scripts).toOption =
              (walletHistory sha256 transactions scripts).toOption ∧
            (unspentOutputs sha256 transactions' scripts).toOption =
              (unspentOutputs sha256 transactions scripts).toOption) ∧
    (∀ unspent,
        unspentOutputs sha256 transactions scripts = .ok unspent → unspent.Nodup ∧
            ∀ output,
              output ∈ unspent ↔ (∃ raw ∈ transactions, Owns sha256 scripts raw output) ∧
                  ∀ raw ∈ transactions, output.key ∉ spendsOf raw) ∧
    ∀ history unspent,
      walletHistory sha256 transactions scripts = .ok history →
        unspentOutputs sha256 transactions scripts = .ok unspent →
        (history.map WalletTransaction.received).sum =
          (history.map WalletTransaction.spent).sum + (unspent.map UnspentOutput.sats).sum := by
  refine ⟨walletHistory_ok_iff hFree, ?_, ?_, ?_⟩
  · intro transactions' hSame
    exact ⟨walletHistory_congr hSame hFree, unspentOutputs_congr hSame hFree⟩
  · intro unspent hUnspent
    exact mem_unspentOutputs_iff hFree hUnspent
  · intro history unspent hHistory hUnspent
    exact conservation hHistory hUnspent

/- A transaction that spends one outpoint. -/
def payment (txid : TxId) (outputs : List (UInt64 × UInt8)) : List UInt8 :=
  Transaction.serialize
    { version := 2
      inputs := [{ txid, vout := 0, value := 0, scriptPubkey := [] }]
      outputs :=
        outputs.map
          (fun output => { value := output.1, scriptPubkey := [output.2], tokenPrefix := none })
      locktime := 0
      sequence := 0 }
    []

def parentDigest : TxId :=
  #v[0x8b, 0x2b, 0x5b, 0x38, 0x08, 0xb7, 0x5e, 0xd6, 0xda, 0xea, 0x30, 0xe8, 0x65, 0x1f, 0xbb, 0x6d,
    0xfc, 0xe8, 0x2a, 0x85, 0x8e, 0xa4, 0x92, 0x11, 0x9a, 0x26, 0x9e, 0x88, 0x42, 0x31, 0x7e, 0x2c]

def parentId : TxId :=
  #v[0xa2, 0x58, 0x2d, 0xd2, 0x4f, 0xbe, 0x1b, 0x9f, 0x38, 0x4a, 0x69, 0xef, 0x21, 0x6b, 0x1e, 0x49,
    0xd5, 0x6b, 0xc5, 0x82, 0x4b, 0x2a, 0x6d, 0x7b, 0xe7, 0xed, 0xba, 0xf8, 0x4f, 0x94, 0x3f, 0xad]

def childDigest : TxId :=
  #v[0x7f, 0xaa, 0x88, 0xd6, 0x81, 0x20, 0x5d, 0xe8, 0x9b, 0xbb, 0x13, 0x81, 0x05, 0x3f, 0x57, 0x23,
    0x26, 0xfd, 0x82, 0x59, 0xdd, 0xe5, 0xda, 0x93, 0xaf, 0xb0, 0x4a, 0xb2, 0x36, 0xb0, 0x57, 0xb0]

def childId : TxId :=
  #v[0x77, 0xf7, 0xc4, 0xbe, 0x0c, 0x8b, 0x49, 0xfc, 0x2f, 0x39, 0x6d, 0x2a, 0x2f, 0x3b, 0xb7, 0x67,
    0xbf, 0x83, 0x6d, 0xb7, 0xba, 0x1b, 0xda, 0x30, 0x1c, 0xfb, 0x6b, 0x8d, 0xc6, 0x87, 0x8b, 0xdf]

def richDigest : TxId :=
  #v[0xd7, 0x6e, 0xbc, 0x63, 0x74, 0x76, 0x67, 0xa3, 0x65, 0x9b, 0x5f, 0x5e, 0x6b, 0xf5, 0x40, 0x9e,
    0x3b, 0x2a, 0x14, 0xf6, 0x43, 0xf2, 0x10, 0x79, 0x67, 0xb6, 0x33, 0xec, 0x3d, 0xc0, 0xeb, 0x1d]

def richId : TxId :=
  #v[0x2e, 0x74, 0x4e, 0x54, 0xb2, 0x71, 0xf9, 0x91, 0x55, 0xd7, 0xcb, 0xe9, 0x7a, 0x09, 0xc9, 0x0c,
    0x30, 0x34, 0x46, 0x6f, 0xeb, 0x45, 0x3e, 0x62, 0x99, 0x0a, 0x7f, 0x1d, 0x9d, 0x1e, 0x2b, 0x79]

def parentPayment : List UInt8 := payment (Vector.replicate 32 7) [(1000, 0x51), (500, 0x52)]

/- It spends the first output of the parent. -/
def childPayment : List UInt8 := payment parentId [(900, 0x51)]

/- Its two outputs are together more than a word. -/
def richPayment : List UInt8 :=
  payment (Vector.replicate 32 7) [(0xffffffffffffffff, 0x51), (1, 0x51)]

/- The digest function at the bytes of these payments. -/
def paymentSha256 (bytes : List UInt8) : Vector UInt8 32 :=
  if bytes = parentPayment then parentDigest
  else if bytes = parentDigest.toList then parentId
  else if bytes = childPayment then childDigest
  else if bytes = childDigest.toList then childId
  else if bytes = richPayment then richDigest
  else if bytes = richDigest.toList then richId
  else Vector.replicate 32 0

theorem collisionFree_payments :
    CollisionFree paymentSha256 {raw | raw ∈ [childPayment, parentPayment]} := by
  have hParent : doubleSha256 paymentSha256 parentPayment = parentId := by decide +kernel
  have hChild : doubleSha256 paymentSha256 childPayment = childId := by decide +kernel
  have hNe : parentId ≠ childId := by decide +kernel
  intro raw hRaw raw' hRaw' hSame
  rcases List.mem_pair.mp hRaw with rfl | rfl <;>
    rcases List.mem_pair.mp hRaw' with rfl | rfl
  · rfl
  · rw [hParent, hChild] at hSame
    exact absurd hSame.symm hNe
  · rw [hParent, hChild] at hSame
    exact absurd hSame hNe
  · rfl

/- The child receives 900 of the 1000 that it spends. -/
theorem wallet_laws_payments :
    walletHistory paymentSha256 [childPayment, parentPayment] [[0x51]] =
      .ok [⟨childId, 900, 1000⟩, ⟨parentId, 1000, 0⟩] ∧
    walletHistory paymentSha256 [parentPayment, childPayment, parentPayment] [[0x51]] =
      .ok [⟨childId, 900, 1000⟩, ⟨parentId, 1000, 0⟩] := by
  have hHistory :
      walletHistory paymentSha256 [childPayment, parentPayment] [[0x51]] =
        .ok [⟨childId, 900, 1000⟩, ⟨parentId, 1000, 0⟩] := by
    decide +kernel
  refine ⟨hHistory, ?_⟩
  have hLaws :=
    wallet_laws paymentSha256 [[0x51]] [childPayment, parentPayment] collisionFree_payments
  have hSame :=
    (hLaws.2.1 [parentPayment, childPayment, parentPayment]
      (by
        intro raw
        simp only [List.mem_cons, List.not_mem_nil]
        tauto)).1
  rw [hHistory] at hSame
  exact StagedUpdate.eq_ok_of_toOption hSame

/-
  A history can fail where the unspent outputs are found, and the error of both depends on the
  order of transactions.
-/
theorem history_fails_alone :
    CollisionFree paymentSha256 {raw | raw ∈ [richPayment]} ∧
    unspentOutputs paymentSha256 [richPayment] [[0x51]] =
      .ok [⟨richId, 0, ⟨0xffffffffffffffff, [0x51], none⟩⟩, ⟨richId, 1, ⟨1, [0x51], none⟩⟩] ∧
    walletHistory paymentSha256 [richPayment] [[0x51]] =
      .error (.protocol "wallet received value exceeds u64 range") ∧
    unspentOutputs paymentSha256 [[], [0, 0, 0, 0]] [] ≠
      unspentOutputs paymentSha256 [[0, 0, 0, 0], []] [] := by
  refine ⟨?_, by decide +kernel, by decide +kernel, by decide +kernel⟩
  intro raw hRaw raw' hRaw' _
  rw [List.mem_singleton.mp hRaw, List.mem_singleton.mp hRaw']

end OptnWallet
