import OptnWallet.Core.Coins
import OptnWallet.Library.KeyedList

/-
  The operations of a coin set, as methods on a mutable receiver: what they answer and the set
  that they leave.

  Main declarations:
    * `CoinSet.insert`, `freeze`, `unfreeze`, `setLabel`, `restoreAnnotations` and `replace`
    * `CoinSet.Balanced`
    * `replaceChainOutputs_keeps_holds`
-/

--- Coins At Rest

namespace OptnWallet

open KeyedList

namespace Coin

def isSpendable (coin : Coin) : Bool :=
  0 < coin.valueSats && coin.freeze.isNone && coin.token.isNone

def isReserved (coin : Coin) : Bool := !coin.isSpendable

def setLabel (coin : Coin) (label : Option String) : Coin :=
  { coin with
    label :=
      label.bind
        (fun value =>
          let trimmed := Text.trim value
          if trimmed = "" then none else some trimmed) }

def restoreFreeze (coin : Coin) (freeze : Option FreezeReason) : Coin :=
  { coin with freeze }

end Coin

--- Methods

namespace CoinSet

/- What a method answers, and the set it leaves. -/
abbrev Answer (α : Type) := Except CoinError α × CoinSet

def get (set : CoinSet) (outpoint : Outpoint) : Option Coin :=
  find Coin.outpoint outpoint set.coins

/- A method on the first coin at an outpoint. -/
def onCoin {α : Type} (set : CoinSet) (outpoint : Outpoint)
    (method : Coin → Except CoinError α × Coin) : Answer α :=
  let found := modify Coin.outpoint outpoint method set.coins
  (found.1.getD (.error .unknownOutpoint), { coins := found.2 })

def insert (set : CoinSet) (coin : Coin) : Answer Unit :=
  if set.coins.any (fun existing => existing.outpoint = coin.outpoint)
  then (.error .duplicateOutpoint, set)
  else
    match WordSums.checkedSum coin.valueSats (set.coins.map Coin.valueSats)
    with
    | none => (.error .amountOverflow, set)
    | some _ => (.ok (), { coins := set.coins ++ [coin] })

variable (label : Option String)

def restoringRecords (freeze : Option FreezeReason) (fuseDepth : UInt32) (coin : Coin) :
    Except CoinError Unit × Coin :=
  (.ok (), { (coin.setLabel label).restoreFreeze freeze with fuseDepth })

def restoreAnnotations (set : CoinSet) (outpoint : Outpoint) (label : Option String)
    (freeze : Option FreezeReason) (fuseDepth : UInt32) : Answer Unit :=
  set.onCoin outpoint (restoringRecords label freeze fuseDepth)

/- The complete projection is assigned, or nothing is. -/
def replace (set : CoinSet) (outputs : List Coin) : Answer Unit :=
  StagedUpdate.assign set (set.replaceChainOutputs outputs)

def freezing (reason : FreezeReason) (coin : Coin) : Except CoinError Unit × Coin :=
  if coin.freeze.isSome then (.error .alreadyFrozen, coin)
  else (.ok (), { coin with freeze := some reason })

def freeze (set : CoinSet) (outpoint : Outpoint) (reason : FreezeReason) : Answer Unit :=
  set.onCoin outpoint (freezing reason)

/- The hold is taken before it is looked at. -/
def unfreezing (coin : Coin) : Except CoinError FreezeReason × Coin :=
  let taken := { coin with freeze := none }
  match coin.freeze with
  | some reason => (.ok reason, taken)
  | none => (.error .notFrozen, taken)

def unfreeze (set : CoinSet) (outpoint : Outpoint) : Answer FreezeReason :=
  set.onCoin outpoint unfreezing

def labelling (label : Option String) (coin : Coin) : Except CoinError Unit × Coin :=
  (.ok (), coin.setLabel label)

def setLabel (set : CoinSet) (outpoint : Outpoint) (label : Option String) : Answer Unit :=
  set.onCoin outpoint (labelling label)

def clear (_ : CoinSet) : CoinSet := new

--- Balances

section

variable (set : CoinSet)

def spendable : List Coin := set.coins.filter Coin.isSpendable

def reserved : List Coin := set.coins.filter Coin.isReserved

/- Sums of words wrap; see `Balanced.spendableSats`. -/
def spendableSats : UInt64 :=
  WordSums.wrappingSum (set.spendable.map Coin.valueSats)

def reservedSats : UInt64 := WordSums.wrappingSum (set.reserved.map Coin.valueSats)

def rpaSats : UInt64 :=
  WordSums.wrappingSum ((set.spendable.filter (fun coin => coin.source.isRpa)).map Coin.valueSats)

def findExactSpendable (amountSats : UInt64) : Option Coin :=
  set.spendable.find? (fun coin => coin.valueSats = amountSats)

end

--- The Invariant

/- What all coins are worth together. -/
def totalSats (set : CoinSet) : Nat := WordSums.total (set.coins.map Coin.valueSats)

/- Each output once, all amounts together within a word. -/
structure Balanced (set : CoinSet) : Prop where
  unique : (set.coins.map Coin.outpoint).Nodup
  fits : set.totalSats < 2 ^ 64

theorem balanced_new : new.Balanced where
  unique := List.nodup_nil
  fits := by
    unfold totalSats new
    rw [List.map_nil, WordSums.total_nil]
    decide

/- Both classes together are all coins. -/
theorem total_spendable_add_reserved (set : CoinSet) :
    WordSums.total (set.spendable.map Coin.valueSats) +
        WordSums.total (set.reserved.map Coin.valueSats) = set.totalSats :=
  WordSums.total_filter_add Coin.valueSats Coin.isSpendable set.coins

namespace Balanced

variable {set : CoinSet}

theorem spendableSats (hBalanced : set.Balanced) :
    set.spendableSats.toNat = WordSums.total (set.spendable.map Coin.valueSats) := by
  apply WordSums.toNat_wrappingSum
  have hFits := hBalanced.fits
  rw [← set.total_spendable_add_reserved] at hFits
  omega

theorem reservedSats (hBalanced : set.Balanced) :
    set.reservedSats.toNat = WordSums.total (set.reserved.map Coin.valueSats) := by
  apply WordSums.toNat_wrappingSum
  have hFits := hBalanced.fits
  rw [← set.total_spendable_add_reserved] at hFits
  omega

theorem spendable_add_reserved (hBalanced : set.Balanced) :
    set.spendableSats.toNat + set.reservedSats.toNat = set.totalSats := by
  rw [hBalanced.spendableSats, hBalanced.reservedSats, set.total_spendable_add_reserved]

end Balanced

--- What A Method Can Do

/- A coin is added whose outpoint is new and whose amount fits, or nothing changes. -/
theorem insert_spec (set : CoinSet) (coin : Coin) :
    (set.insert coin = (.ok (), { coins := set.coins ++ [coin] }) ∧
        coin.outpoint ∉ set.coins.map Coin.outpoint ∧
        set.totalSats + coin.valueSats.toNat < 2 ^ 64) ∨
      ∃ e, set.insert coin = (.error e, set) := by
  unfold insert
  split
  · right
    exact ⟨_, rfl⟩
  · rename_i hAny
    split
    · right
      exact ⟨_, rfl⟩
    · rename_i sum hSum
      left
      refine ⟨rfl, ?_, ?_⟩
      · intro hMem
        apply hAny
        rcases List.mem_map.mp hMem with ⟨prior, hPrior, hEq⟩
        rw [List.any_eq_true]
        exact ⟨prior, hPrior, decide_eq_true hEq⟩
      · apply lt_of_not_ge
        intro hOver
        have hNone := WordSums.checkedSum_eq_none_iff.mpr (by rw [Nat.add_comm]; exact hOver)
        rw [hNone] at hSum
        cases hSum

/- A method on one coin that keeps its outpoint and value. -/
def KeepsChain {α : Type} (method : Coin → Except CoinError α × Coin) : Prop :=
  ∀ coin, (method coin).2.chainFields = coin.chainFields

/- A method on one coin that fails leaves it as it was. -/
def Atomic {α : Type} (method : Coin → Except CoinError α × Coin) : Prop :=
  ∀ coin e, (method coin).1 = .error e → (method coin).2 = coin

variable {coins : List Coin}

theorem outpoints_of_chainFields {coins' : List Coin}
    (hFields : coins.map Coin.chainFields = coins'.map Coin.chainFields) :
    coins.map Coin.outpoint = coins'.map Coin.outpoint := by
  have hOutpoints := congrArg (List.map ChainFields.outpoint) hFields
  rw [List.map_map, List.map_map] at hOutpoints
  exact hOutpoints

theorem values_of_chainFields {coins' : List Coin}
    (hFields : coins.map Coin.chainFields = coins'.map Coin.chainFields) :
    coins.map Coin.valueSats = coins'.map Coin.valueSats := by
  have hValues := congrArg (List.map ChainFields.valueSats) hFields
  rw [List.map_map, List.map_map] at hValues
  exact hValues

section OnCoin

variable {α : Type} {method : Coin → Except CoinError α × Coin}

theorem onCoin_chainFields (hKeeps : KeepsChain method) (set : CoinSet) (outpoint : Outpoint) :
    (set.onCoin outpoint method).2.coins.map Coin.chainFields = set.coins.map Coin.chainFields :=
  modify_map hKeeps set.coins

theorem KeepsChain.outpoint (hKeeps : KeepsChain method) (coin : Coin) :
    (method coin).2.outpoint = coin.outpoint := congrArg ChainFields.outpoint (hKeeps coin)

theorem onCoin_fst (set : CoinSet) (outpoint : Outpoint) :
    (set.onCoin outpoint method).1 =
      ((set.get outpoint).map (fun coin => (method coin).1)).getD (.error .unknownOutpoint) := by
  unfold onCoin get
  dsimp only
  rw [modify_fst]

theorem onCoin_atomic (hAtomic : Atomic method) {set : CoinSet} {outpoint : Outpoint}
    {e : CoinError} (hError : (set.onCoin outpoint method).1 = .error e) :
    (set.onCoin outpoint method).2 = set := by
  rw [onCoin_fst] at hError
  have hSame : (modify Coin.outpoint outpoint method set.coins).2 = set.coins := by
    apply modify_of_fixed
    intro coin hCoin
    unfold get at hError
    rw [hCoin] at hError
    exact hAtomic coin e hError
  unfold onCoin
  dsimp only
  rw [hSame]

/- What the method makes of the coin, and all others as they were. -/
theorem get_onCoin (hKeeps : KeepsChain method) (set : CoinSet) (outpoint : Outpoint) :
    (set.onCoin outpoint method).2.get outpoint =
      (set.get outpoint).map (fun coin => (method coin).2) :=
  find_modify hKeeps.outpoint set.coins

theorem get_onCoin_of_ne (hKeeps : KeepsChain method) (set : CoinSet) {outpoint other : Outpoint}
    (hOther : other ≠ outpoint) : (set.onCoin outpoint method).2.get other = set.get other :=
  find_modify_of_ne hKeeps.outpoint hOther set.coins

theorem Balanced.onCoin {set : CoinSet} (hBalanced : set.Balanced) (hKeeps : KeepsChain method)
    (outpoint : Outpoint) : (set.onCoin outpoint method).2.Balanced := by
  have hFields := onCoin_chainFields hKeeps set outpoint
  constructor
  · rw [outpoints_of_chainFields hFields]
    exact hBalanced.unique
  · unfold totalSats
    rw [values_of_chainFields hFields]
    exact hBalanced.fits

end OnCoin

--- The Methods On One Coin

theorem keepsChain_freezing (reason : FreezeReason) : KeepsChain (freezing reason) := by
  intro coin
  unfold freezing
  split <;> rfl

theorem atomic_freezing (reason : FreezeReason) : Atomic (freezing reason) := by
  intro coin e hError
  unfold freezing at hError ⊢
  split at hError
  · rename_i hFrozen
    rw [if_pos hFrozen]
  · cases hError

theorem keepsChain_unfreezing : KeepsChain unfreezing := by
  intro coin
  unfold unfreezing
  dsimp only
  split <;> rfl

/- A coin that was not held is left as it was. -/
theorem atomic_unfreezing : Atomic unfreezing := by
  intro coin e hError
  unfold unfreezing at hError ⊢
  dsimp only at hError ⊢
  split at hError
  · cases hError
  · rename_i hFreeze
    cases coin
    cases hFreeze
    rfl

theorem keepsChain_labelling : KeepsChain (labelling label) := by
  intro coin
  rfl

theorem atomic_labelling : Atomic (labelling label) := by
  intro coin e hError
  cases hError

section

variable (freeze : Option FreezeReason) (fuseDepth : UInt32)

theorem keepsChain_restoringRecords : KeepsChain (restoringRecords label freeze fuseDepth) := by
  intro coin
  rfl

theorem atomic_restoringRecords : Atomic (restoringRecords label freeze fuseDepth) := by
  intro coin e hError
  cases hError

end

--- Replacement

/- The coin that the map of previous coins kept for an outpoint. -/
def previousAt (previous : List Coin) (outpoint : Outpoint) : Option Coin :=
  find Coin.outpoint outpoint previous.reverse

variable {outputs : List Coin}

/- By induction over the outputs. -/
theorem replaceOutputs_eq {previous : List Coin} {seen : Finset Outpoint} {total : UInt64}
    (hReplace : replaceOutputs previous seen total outputs = .ok coins) :
    coins = outputs.map (fun coin => coin.annotatedFrom (previousAt previous coin.outpoint)) := by
  induction outputs generalizing seen total coins with
  | nil =>
    cases hReplace
    rfl
  | cons coin rest ih =>
    unfold replaceOutputs at hReplace
    split at hReplace
    · cases hReplace
    split at hReplace
    · cases hReplace
    rcases StagedUpdate.bind_eq_ok_iff.mp hReplace with ⟨coins', hRest, hReplace⟩
    cases hReplace
    rw [List.map_cons, ih hRest]
    rfl

/- The loop refuses an outpoint that it has seen, and an amount that does not fit what is left of a
   word. -/
theorem replaceOutputs_balanced {previous : List Coin} {seen : Finset Outpoint} {total : UInt64}
    (hReplace : replaceOutputs previous seen total outputs = .ok coins) :
    (outputs.map Coin.outpoint).Nodup ∧
    (∀ outpoint ∈ outputs.map Coin.outpoint, outpoint ∉ seen) ∧
    total.toNat + WordSums.total (outputs.map Coin.valueSats) < 2 ^ 64 := by
  induction outputs generalizing seen total coins with
  | nil =>
    refine ⟨List.nodup_nil, ?_, total.toNat_lt⟩
    intro outpoint hMem
    cases hMem
  | cons coin rest ih =>
    unfold replaceOutputs at hReplace
    split at hReplace
    · cases hReplace
    rename_i hSeen
    split at hReplace
    · cases hReplace
    rename_i hAmount
    rcases StagedUpdate.bind_eq_ok_iff.mp hReplace with ⟨coins', hRest, -⟩
    rcases ih hRest with ⟨hNodup, hUnseen, hFits⟩
    refine ⟨?_, ?_, ?_⟩
    · rw [List.map_cons, List.nodup_cons]
      refine ⟨?_, hNodup⟩
      intro hMem
      exact hUnseen coin.outpoint hMem (Finset.mem_insert_self _ _)
    · rw [List.map_cons]
      intro outpoint hMem
      rcases List.mem_cons.mp hMem with rfl | hMem
      · exact hSeen
      · intro hIn
        exact hUnseen outpoint hMem (Finset.mem_insert_of_mem hIn)
    · rw [UInt64.toNat_add, Nat.mod_eq_of_lt (by omega)] at hFits
      rw [List.map_cons, WordSums.total_cons]
      omega

theorem replaceChainOutputs_eq {set set' : CoinSet}
    (hReplace : set.replaceChainOutputs outputs = .ok set') :
    set'.coins =
      outputs.map (fun coin => coin.annotatedFrom (previousAt set.coins coin.outpoint)) := by
  unfold replaceChainOutputs at hReplace
  rcases StagedUpdate.bind_eq_ok_iff.mp hReplace with ⟨coins, hCoins, hSet⟩
  cases hSet
  exact replaceOutputs_eq hCoins

theorem balanced_replaceChainOutputs {set set' : CoinSet}
    (hReplace : set.replaceChainOutputs outputs = .ok set') : set'.Balanced := by
  have hFields := replaceChainOutputs_chainFields hReplace
  unfold replaceChainOutputs at hReplace
  rcases StagedUpdate.bind_eq_ok_iff.mp hReplace with ⟨coins, hCoins, hSet⟩
  rcases replaceOutputs_balanced hCoins with ⟨hNodup, -, hFits⟩
  constructor
  · rw [outpoints_of_chainFields hFields]
    exact hNodup
  · unfold totalSats
    rw [values_of_chainFields hFields]
    rw [UInt64.toNat_zero, Nat.zero_add] at hFits
    exact hFits

/- What the sole coin at an outpoint is remembered as. -/
theorem previousAt_of_sole {prior : Coin} (hMem : prior ∈ coins)
    (hSole : ∀ other ∈ coins, other.outpoint = prior.outpoint → other = prior) :
    previousAt coins prior.outpoint = some prior := by
  unfold previousAt
  cases hFind : find Coin.outpoint prior.outpoint coins.reverse with
  | none => exact absurd hFind (find_ne_none_of_mem (List.mem_reverse.mpr hMem))
  | some other =>
    have hOther := List.mem_reverse.mp (mem_of_find hFind)
    rw [hSole other hOther (key_of_find hFind)]

theorem previousAt_eq_none_iff {outpoint : Outpoint} :
    previousAt coins outpoint = none ↔ ∀ prior ∈ coins, prior.outpoint ≠ outpoint := by
  unfold previousAt
  rw [find_eq_none_iff]
  simp only [List.mem_reverse]

theorem source_annotatedFrom_of_rpa {coin prior : Coin} (hRpa : prior.source.isRpa = true)
    (hAddress : prior.address = coin.address) :
    (coin.annotatedFrom (some prior)).source = prior.source := by
  have hFilter :
      (some prior).filter
          (fun prior => decide (prior.address = coin.address ∧ prior.source.isRpa = true)) =
        some prior := by
    apply Option.filter_some_pos
    exact decide_eq_true ⟨hAddress, hRpa⟩
  unfold Coin.annotatedFrom
  dsimp only
  rw [hFilter]

theorem source_annotatedFrom_of_other {coin : Coin} {prior? : Option Coin}
    (hOther : ∀ prior,
        prior? = some prior → prior.source.isRpa = true → prior.address ≠ coin.address) :
    (coin.annotatedFrom prior?).source = coin.source := by
  have hFilter :
      prior?.filter
          (fun prior => decide (prior.address = coin.address ∧ prior.source.isRpa = true)) =
        none := by
    rw [Option.filter_eq_none_iff]
    intro prior hPrior hBoth
    have hBoth := of_decide_eq_true hBoth
    exact hOther prior hPrior hBoth.2 hBoth.1
  unfold Coin.annotatedFrom
  dsimp only
  rw [hFilter]

--- A Refresh And The Local Records

/-
  A refresh has the outputs of the projection and what the chain says of them.  What the wallet
  recorded of an output that stays is kept, and nothing is recorded of a new one. The origin is
  the prior one where that is a Cash Code at the same address, and otherwise that of the projected
  record.
-/
theorem replaceChainOutputs_keeps_holds {set set' : CoinSet} {outputs : List Coin}
    (hReplace : set.replaceChainOutputs outputs = .ok set') :
    set'.coins.map Coin.outpoint = outputs.map Coin.outpoint ∧
    set'.coins.map Coin.chainFields = outputs.map Coin.chainFields ∧
    (∀ prior ∈ set.coins,
        (∀ other ∈ set.coins, other.outpoint = prior.outpoint → other = prior) →
          ∀ coin ∈ set'.coins,
            coin.outpoint = prior.outpoint → coin.label = prior.label ∧
                coin.freeze = prior.freeze ∧
                coin.fuseDepth = prior.fuseDepth ∧
                (prior.source.isRpa = true → prior.address = coin.address →
                  coin.source = prior.source)) ∧
    (∀ coin ∈ set'.coins,
        (∀ prior ∈ set.coins, prior.outpoint ≠ coin.outpoint) →
          coin.label = none ∧ coin.freeze = none ∧ coin.fuseDepth = 0) ∧
    ∀ coin ∈ set'.coins,
      (∀ prior ∈ set.coins,
            prior.outpoint = coin.outpoint → prior.source.isRpa = true →
              prior.address ≠ coin.address) →
        ∀ output ∈ outputs, output.outpoint = coin.outpoint → coin.source = output.source := by
  have hCoins := replaceChainOutputs_eq hReplace
  have hFields := replaceChainOutputs_chainFields hReplace
  have hOutpoints := outpoints_of_chainFields hFields
  have hUnique := (balanced_replaceChainOutputs hReplace).unique
  rw [hOutpoints] at hUnique
  -- each coin is an output with the records of the prior one
  have hOrigin :
      ∀ coin ∈ set'.coins,
      ∃ output ∈ outputs, coin = output.annotatedFrom (previousAt set.coins output.outpoint) := by
    intro coin hCoin
    rw [hCoins] at hCoin
    rcases List.mem_map.mp hCoin with ⟨output, hOutput, hEq⟩
    exact ⟨output, hOutput, hEq.symm⟩
  refine ⟨hOutpoints, hFields, ?_, ?_, ?_⟩
  · intro prior hPrior hSole coin hCoin hAt
    rcases hOrigin coin hCoin with ⟨output, -, rfl⟩
    have hHere : output.outpoint = prior.outpoint := hAt
    rw [hHere, previousAt_of_sole hPrior hSole]
    refine ⟨rfl, rfl, rfl, ?_⟩
    intro hRpa hAddress
    exact source_annotatedFrom_of_rpa hRpa hAddress
  · intro coin hCoin hNew
    rcases hOrigin coin hCoin with ⟨output, -, rfl⟩
    have hNone : previousAt set.coins output.outpoint = none := previousAt_eq_none_iff.mpr hNew
    rw [hNone]
    exact ⟨rfl, rfl, rfl⟩
  · intro coin hCoin hNoOrigin output hOutput hAt
    rcases hOrigin coin hCoin with ⟨output', hOutput', rfl⟩
    have hSame : output = output' := List.inj_on_of_nodup_map hUnique hOutput hOutput' hAt
    subst hSame
    apply source_annotatedFrom_of_other
    intro prior hPrior
    exact hNoOrigin prior (List.mem_reverse.mp (mem_of_find hPrior)) (key_of_find hPrior)

/- A held coin that a Cash Code paid, and one of the chain. -/
def sampleOutpoint : Outpoint := { txid := Vector.replicate 32 7, vout := 0 }

def sampleCoin (source : CoinSource) (freeze : Option FreezeReason) : Coin :=
  { token := none
    source
    outpoint := sampleOutpoint
    valueSats := 5000
    address := "bchtest:q"
    label := none
    freeze
    fuseDepth := 0 }

/- An observed output at the outpoint of a held coin. -/
theorem replaceChainOutputs_keeps_holds_sample :
    ∃ set',
      replaceChainOutputs
          { coins := [sampleCoin (.rpa "ab" 1 "02") (some .user)] }
          [sampleCoin .hd none] = .ok set' ∧
        ∀ coin ∈ set'.coins, coin.outpoint = sampleOutpoint → coin.freeze = some .user := by
  refine ⟨_, rfl, ?_⟩
  have hKept :=
    (@replaceChainOutputs_keeps_holds
      { coins := [sampleCoin (.rpa "ab" 1 "02") (some .user)] }
      _ [sampleCoin .hd none] rfl).2.2.1
      (sampleCoin (.rpa "ab" 1 "02") (some .user))
      (List.mem_singleton_self _)
      (fun other hOther _ => List.mem_singleton.mp hOther)
  intro coin hCoin hAt
  exact (hKept coin hCoin hAt).2.1

/- A new output is what the projection says that it came from, a Cash Code included. -/
theorem new_output_imports_origin :
    ¬ ∀ (set set' : CoinSet) (outputs : List Coin), set.replaceChainOutputs outputs = .ok set' → ∀
      coin ∈ set'.coins, (∀ prior ∈ set.coins, prior.outpoint ≠ coin.outpoint) → coin.source =
      .hd := by
  intro hClaim
  have hOrigin :=
    hClaim new
      { coins := [sampleCoin (.rpa "ab" 1 "02") none] }
      [sampleCoin (.rpa "ab" 1 "02") none] rfl
      (sampleCoin (.rpa "ab" 1 "02") none)
      (List.mem_singleton_self _)
      (fun prior hPrior => by cases hPrior)
  cases hOrigin

end CoinSet

end OptnWallet
