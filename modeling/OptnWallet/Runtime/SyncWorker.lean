import OptnWallet.Core.WalletProjection
import OptnWallet.Core.WatchOnly

/-
  What a provider observed of a wallet, and how far its answer is checked before anything is read
  from it.

  Main declarations:
    * `WalletNetworkSnapshot`
    * `WalletNetworkSnapshot.validateScriptScope`
    * `WalletNetworkSnapshot.usedScripts`
-/

--- Snapshots

namespace OptnWallet

/- What a wallet asks a provider for. -/
inductive WalletInterest where
  | script (script : List UInt8)
  | outpoint (txid : TxId) (vout : UInt32)
  | rpaPrefix (text : String)
deriving DecidableEq

/- The script of an interest that is one. -/
def WalletInterest.script? : WalletInterest → Option (List UInt8)
  | .script watched => some watched
  | .outpoint _ _ => none
  | .rpaPrefix _ => none

structure ChainTip where
  height : UInt32
  hash : TxId
deriving DecidableEq

structure ObservedTransaction where
  txid : TxId
  raw : List UInt8
  blockHeight : Option UInt32
deriving DecidableEq

/- The address book is derived here, never by a provider. -/
structure WalletNetworkSnapshot where
  hd : Option HdAddressBook
  interests : List WalletInterest
  transactions : List ObservedTransaction
  tip : Option ChainTip
deriving DecidableEq

--- Scope

namespace WalletNetworkSnapshot

/- A height is above zero and not above the tip. -/
def heightInScope (tip : Option ChainTip) (height : UInt32) : Bool :=
  decide (height ≠ 0) && tip.any (fun tip => decide (height ≤ tip.height))

/- Each id has one height and is the digest of its bytes. -/
def validateTransactions (sha256 : List UInt8 → Vector UInt8 32) (tip : Option ChainTip) :
    BTreeMap TxId (Option UInt32) → List ObservedTransaction → Except CliError Unit
  | _, [] => .ok ()
  | heights, transaction :: rest =>
    if (heights.get? transaction.txid).any (fun previous => previous ≠ transaction.blockHeight)
    then .error (.protocol "conflicting transaction heights in snapshot")
    else if doubleSha256 sha256 transaction.raw ≠ transaction.txid
    then .error (.protocol "snapshot transaction identity mismatch")
    else if transaction.blockHeight.any (fun height => !heightInScope tip height)
    then .error (.protocol "snapshot transaction height exceeds its chain scope")
    else
      validateTransactions sha256 tip (heights.insert transaction.txid transaction.blockHeight) rest

def validateScriptScope (sha256 : List UInt8 → Vector UInt8 32) (snapshot : WalletNetworkSnapshot)
    (script : List UInt8) : Except CliError Unit :=
  if WalletInterest.script script ∉ snapshot.interests then
    .error (.protocol "script was not covered by this wallet snapshot")
  else validateTransactions sha256 snapshot.tip BTreeMap.new snapshot.transactions

/- The scripts of the outputs of these transactions. -/
def collectScripts :
    Finset (List UInt8) → List ObservedTransaction → Except CliError (Finset (List UInt8))
  | used, [] => .ok used
  | used, transaction :: rest => do
      let decoded ← decode transaction.raw
      collectScripts
        (decoded.outputs.foldl (fun used output => insert output.scriptPubkey used) used) rest

/- Spent outputs and those without value count as well. -/
def usedScripts (sha256 : List UInt8 → Vector UInt8 32) (snapshot : WalletNetworkSnapshot) :
    Except CliError (Finset (List UInt8)) :=
  match snapshot.interests.findSome? WalletInterest.script? with
  | none => .error (.protocol "HD snapshot has no scripts")
  | some first => do
      validateScriptScope sha256 snapshot first
      collectScripts ∅ snapshot.transactions

/- Some transaction of the snapshot pays to the script. -/
def Pays (snapshot : WalletNetworkSnapshot) (script : List UInt8) : Prop :=
  ∃ transaction ∈ snapshot.transactions,
    ∃ decoded,
      decode transaction.raw = .ok decoded ∧
        ∃ output ∈ decoded.outputs, output.scriptPubkey = script

variable {used : Finset (List UInt8)} {script : List UInt8}

theorem mem_foldl_insert_iff {outputs : List DecodedOutput} :
    script ∈ outputs.foldl (fun used output => insert output.scriptPubkey used) used ↔
    script ∈ used ∨ ∃ output ∈ outputs, output.scriptPubkey = script := by
  induction outputs generalizing used with
  | nil => simp
  | cons output outputs ih =>
    rw [List.foldl_cons, ih, Finset.mem_insert, List.exists_mem_cons_iff]
    constructor
    · rintro ((hHere | hUsed) | hRest)
      · exact Or.inr (Or.inl hHere.symm)
      · exact Or.inl hUsed
      · exact Or.inr (Or.inr hRest)
    · rintro (hUsed | hHere | hRest)
      · exact Or.inl (Or.inr hUsed)
      · exact Or.inl (Or.inl hHere.symm)
      · exact Or.inr hRest

/- By induction over the transactions. -/
theorem mem_collectScripts_iff {transactions : List ObservedTransaction}
    {used' : Finset (List UInt8)} (hCollect : collectScripts used transactions = .ok used') :
    script ∈ used' ↔
    script ∈ used ∨
      ∃ transaction ∈ transactions,
        ∃ decoded,
          decode transaction.raw = .ok decoded ∧
            ∃ output ∈ decoded.outputs, output.scriptPubkey = script := by
  induction transactions generalizing used with
  | nil =>
    cases hCollect
    simp
  | cons transaction rest ih =>
    unfold collectScripts at hCollect
    cases hDecode : decode transaction.raw with
    | error error =>
      rw [hDecode] at hCollect
      cases hCollect
    | ok decoded =>
      rw [hDecode] at hCollect
      rw [ih hCollect, mem_foldl_insert_iff, List.exists_mem_cons_iff, hDecode]
      simp only [Except.ok.injEq, exists_eq_left', or_assoc]

theorem mem_usedScripts_iff {sha256 : List UInt8 → Vector UInt8 32}
    {snapshot : WalletNetworkSnapshot} (hUsed : snapshot.usedScripts sha256 = .ok used) :
    script ∈ used ↔ snapshot.Pays script := by
  unfold usedScripts at hUsed
  split at hUsed
  · cases hUsed
  · rename_i first hFirst
    cases hScope : snapshot.validateScriptScope sha256 first with
    | error error =>
      rw [hScope] at hUsed
      cases hUsed
    | ok scope =>
      rw [hScope] at hUsed
      rw [mem_collectScripts_iff hUsed]
      simp [Pays]

end WalletNetworkSnapshot

end OptnWallet
