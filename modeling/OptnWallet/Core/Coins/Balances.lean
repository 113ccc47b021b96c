import OptnWallet.Core.Flipstarter
import OptnWallet.Library.Runs

/-
  Balances over whole runs of operations on coins and pledges: every output once, amounts that fit
  into a word, and classes that add up.

  Main declarations:
    * `CoinOperation` and `PledgedCoins.operate`
    * `preparePledge_cases` and `cancelPledge_cases`
    * `operate_balanced` and `operate_atomic`
    * `coins_stay_balanced`
-/

--- Operations

namespace OptnWallet

inductive CoinOperation where
  | insert (coin : Coin)
  | replaceChainOutputs (outputs : List Coin)
  | freeze (outpoint : Outpoint) (reason : FreezeReason)
  | unfreeze (outpoint : Outpoint)
  | setLabel (outpoint : Outpoint) (label : Option String)
  | restoreAnnotations (outpoint : Outpoint) (label : Option String) (freeze : Option FreezeReason)
      (fuseDepth : UInt32)
  | clear
  | preparePledge (blob : String) (nowUnix : Option UInt64)
  | cancelPledge (pledgeId : UInt32)

namespace PledgedCoins

open Flipstarter

/- An answer of the coins, of which the value is dropped. -/
def onCoins {α : Type} (self : PledgedCoins) (answer : CoinSet.Answer α) :
    Result Unit × PledgedCoins :=
  ((answer.1.map (fun _ => ())).mapError (fun e => .error (.coin e)),
    { self with coins := answer.2 })

def operate (codecs : CampaignCodecs) (network : Network) (self : PledgedCoins) :
    CoinOperation → Result Unit × PledgedCoins
  | .insert coin => self.onCoins (self.coins.insert coin)
  | .replaceChainOutputs outputs => self.onCoins (self.coins.replace outputs)
  | .freeze outpoint reason => self.onCoins (self.coins.freeze outpoint reason)
  | .unfreeze outpoint => self.onCoins (self.coins.unfreeze outpoint)
  | .setLabel outpoint label => self.onCoins (self.coins.setLabel outpoint label)
  | .restoreAnnotations outpoint label freeze fuseDepth =>
    self.onCoins (self.coins.restoreAnnotations outpoint label freeze fuseDepth)
  | .clear => self.onCoins (.ok (), self.coins.clear)
  | .preparePledge blob nowUnix =>
    let prepared := self.preparePledge codecs network blob nowUnix
    (prepared.1.map (fun _ => ()), prepared.2)
  | .cancelPledge pledgeId =>
    let cancelled := self.cancelPledge pledgeId
    (cancelled.1.map (fun _ => ()), cancelled.2)

--- What Pledges Do To Coins

variable {self : PledgedCoins}

theorem findExactSpendable_spec {set : CoinSet} {amountSats : UInt64} {coin : Coin}
    (hFind : set.findExactSpendable amountSats = some coin) :
    coin ∈ set.coins ∧ coin.isSpendable = true ∧ coin.valueSats = amountSats := by
  unfold CoinSet.findExactSpendable CoinSet.spendable at hFind
  rcases List.mem_filter.mp (List.mem_of_find?_eq_some hFind) with ⟨hMem, hSpendable⟩
  have hAmount := List.find?_some hFind
  exact ⟨hMem, hSpendable, of_decide_eq_true hAmount⟩

/-
  A preparation fails and nothing changes, or a spendable coin is frozen for a new pledge.
-/
theorem preparePledge_cases (codecs : CampaignCodecs) (self : PledgedCoins) (network : Network)
    (blob : String) (nowUnix : Option UInt64) :
    (∃ failure,
      self.preparePledge codecs network blob nowUnix = (.error failure, self)) ∨
      ∃ coin ∈ self.coins.coins,
        ∃ pledge,
          coin.isSpendable = true ∧
            (self.coins.freeze coin.outpoint .flipstarterPledge).1 = .ok () ∧
            pledge.id = nextId self.pledges ∧
            pledge.outpoint = coin.outpoint ∧
            pledge.status = .frozen ∧
            self.preparePledge codecs network blob nowUnix = (.ok pledge.id,
                { coins := (self.coins.freeze coin.outpoint .flipstarterPledge).2
                  pledges := self.pledges ++ [pledge] }) := by
  unfold preparePledge
  split
  · left
    exact ⟨_, rfl⟩
  · split
    · left
      exact ⟨_, rfl⟩
    · split
      · left
        exact ⟨_, rfl⟩
      · rename_i campaign _ _ _ coin hFind
        rcases findExactSpendable_spec hFind with ⟨hMem, hSpendable, -⟩
        unfold pledgeCoin
        dsimp only
        split
        · rename_i e hFreeze
          have hSame : (self.coins.freeze coin.outpoint .flipstarterPledge).2 = self.coins :=
            CoinSet.onCoin_atomic (CoinSet.atomic_freezing _) hFreeze
          left
          rw [hSame]
          exact ⟨_, rfl⟩
        · rename_i hFreeze
          right
          exact ⟨coin, hMem, self.newPledge campaign coin, hSpendable, hFreeze, rfl, rfl, rfl, rfl⟩

/-
  A cancellation fails and nothing changes, or it releases the coin of a pledge that is frozen and
  marks that pledge.
-/
theorem cancelPledge_cases (self : PledgedCoins) (pledgeId : UInt32) :
    (∃ failure,
      self.cancelPledge pledgeId = (.error failure, self)) ∨
      ∃ pledge reason,
        KeyedList.find FlipstarterPledge.id pledgeId self.pledges = some pledge ∧
          pledge.status = .frozen ∧
          (self.coins.unfreeze pledge.outpoint).1 = .ok reason ∧
          self.cancelPledge pledgeId = (.ok pledge.outpoint,
              { coins := (self.coins.unfreeze pledge.outpoint).2
                pledges :=
                  (KeyedList.modify FlipstarterPledge.id pledgeId
                    markCancelled self.pledges).2 }) := by
  unfold cancelPledge
  split
  · left
    exact ⟨_, rfl⟩
  · rename_i pledge hFind
    split
    · left
      exact ⟨_, rfl⟩
    · rename_i hStatus
      dsimp only
      split
      · rename_i e hRelease
        have hSame : (self.coins.unfreeze pledge.outpoint).2 = self.coins :=
          CoinSet.onCoin_atomic CoinSet.atomic_unfreezing hRelease
        left
        rw [hSame]
        exact ⟨_, rfl⟩
      · rename_i reason hRelease
        right
        exact ⟨pledge, reason, hFind, not_not.mp hStatus, hRelease, rfl⟩

end PledgedCoins

--- Steps

namespace CoinSet

variable {set : CoinSet}

theorem Balanced.insert (hBalanced : set.Balanced) (coin : Coin) :
    (set.insert coin).2.Balanced := by
  rcases insert_spec set coin with ⟨hInsert, hNew, hFits⟩ | ⟨e, hInsert⟩
  · rw [hInsert]
    constructor
    · rw [List.map_append, List.map_singleton]
      apply List.nodup_append.mpr
      refine ⟨hBalanced.unique, List.nodup_singleton _, ?_⟩
      intro first hFirst last hLast hEq
      rw [List.mem_singleton.mp hLast] at hEq
      exact hNew (hEq ▸ hFirst)
    · unfold totalSats at hFits ⊢
      rw [List.map_append, List.map_singleton, WordSums.total_concat]
      exact hFits
  · rw [hInsert]
    exact hBalanced

theorem Balanced.replace (hBalanced : set.Balanced) (outputs : List Coin) :
    (set.replace outputs).2.Balanced := by
  unfold CoinSet.replace StagedUpdate.assign
  cases hReplace : set.replaceChainOutputs outputs with
  | error e => exact hBalanced
  | ok set' => exact balanced_replaceChainOutputs hReplace

theorem insert_atomic {coin : Coin} {e : CoinError} (hError : (set.insert coin).1 = .error e) :
    (set.insert coin).2 = set := by
  rcases insert_spec set coin with ⟨hInsert, -, -⟩ | ⟨e', hInsert⟩
  · rw [hInsert] at hError
    cases hError
  · rw [hInsert]

theorem replace_atomic {outputs : List Coin} {e : CoinError}
    (hError : (set.replace outputs).1 = .error e) : (set.replace outputs).2 = set := by
  unfold replace at hError ⊢
  exact (StagedUpdate.assign_eq_error_iff.mp (Prod.ext hError rfl)).2

end CoinSet

namespace PledgedCoins

open Flipstarter

variable {codecs : CampaignCodecs} {network : Network} {self : PledgedCoins}

/- One operation keeps the balance. -/
theorem operate_balanced (hBalanced : self.coins.Balanced) (operation : CoinOperation) :
    (self.operate codecs network operation).2.coins.Balanced := by
  cases operation with
  | insert coin => exact hBalanced.insert coin
  | replaceChainOutputs outputs => exact hBalanced.replace outputs
  | freeze outpoint reason => exact hBalanced.onCoin (CoinSet.keepsChain_freezing reason) outpoint
  | unfreeze outpoint => exact hBalanced.onCoin CoinSet.keepsChain_unfreezing outpoint
  | setLabel outpoint label => exact hBalanced.onCoin (CoinSet.keepsChain_labelling label) outpoint
  | restoreAnnotations outpoint label freeze fuseDepth =>
    exact hBalanced.onCoin (CoinSet.keepsChain_restoringRecords label freeze fuseDepth) outpoint
  | clear => exact CoinSet.balanced_new
  | preparePledge blob nowUnix =>
    unfold operate
    dsimp only
    rcases preparePledge_cases codecs self network blob nowUnix with ⟨failure, hPrepare⟩ |
      ⟨coin, -, pledge, -, -, -, -, -, hPrepare⟩
    · rw [hPrepare]
      exact hBalanced
    · rw [hPrepare]
      exact hBalanced.onCoin (CoinSet.keepsChain_freezing .flipstarterPledge) coin.outpoint
  | cancelPledge pledgeId =>
    unfold operate
    dsimp only
    rcases cancelPledge_cases self pledgeId with ⟨failure, hCancel⟩ |
      ⟨pledge, reason, -, -, -, hCancel⟩
    · rw [hCancel]
      exact hBalanced
    · rw [hCancel]
      exact hBalanced.onCoin CoinSet.keepsChain_unfreezing pledge.outpoint

/- An answer of the coins that is an error changed nothing, where the coins did not change. -/
theorem onCoins_atomic {α : Type} {answer : CoinSet.Answer α}
    (hAtomic : ∀ e, answer.1 = .error e → answer.2 = self.coins) {failure : Fault FlipstarterError}
    (hError : (self.onCoins answer).1 = .error failure) : (self.onCoins answer).2 = self := by
  unfold onCoins at hError ⊢
  dsimp only at hError ⊢
  cases hAnswer : answer.1 with
  | ok value =>
    rw [hAnswer] at hError
    cases hError
  | error e => rw [hAtomic e hAnswer]

/- An operation that fails leaves coins and pledges alone. -/
theorem operate_atomic {operation : CoinOperation} {failure : Fault FlipstarterError}
    (hError : (self.operate codecs network operation).1 = .error failure) :
    (self.operate codecs network operation).2 = self := by
  cases operation with
  | insert coin => exact onCoins_atomic (fun e hFail => CoinSet.insert_atomic hFail) hError
  | replaceChainOutputs outputs =>
    exact onCoins_atomic (fun e hFail => CoinSet.replace_atomic hFail) hError
  | freeze outpoint reason =>
    exact onCoins_atomic
      (fun e hFail => CoinSet.onCoin_atomic (CoinSet.atomic_freezing reason) hFail) hError
  | unfreeze outpoint =>
    exact
      onCoins_atomic (fun e hFail => CoinSet.onCoin_atomic CoinSet.atomic_unfreezing hFail) hError
  | setLabel outpoint label =>
    exact onCoins_atomic
      (fun e hFail => CoinSet.onCoin_atomic (CoinSet.atomic_labelling label) hFail) hError
  | restoreAnnotations outpoint label freeze fuseDepth =>
    exact onCoins_atomic
      (fun e hFail =>
        CoinSet.onCoin_atomic (CoinSet.atomic_restoringRecords label freeze fuseDepth) hFail) hError
  | clear => cases hError
  | preparePledge blob nowUnix =>
    unfold operate at hError ⊢
    dsimp only at hError ⊢
    rcases preparePledge_cases codecs self network blob nowUnix with ⟨failure', hPrepare⟩ |
      ⟨coin, -, pledge, -, -, -, -, -, hPrepare⟩
    · rw [hPrepare]
    · rw [hPrepare] at hError
      cases hError
  | cancelPledge pledgeId =>
    unfold operate at hError ⊢
    dsimp only at hError ⊢
    rcases cancelPledge_cases self pledgeId with ⟨failure', hCancel⟩ |
      ⟨pledge, reason, -, -, -, hCancel⟩
    · rw [hCancel]
    · rw [hCancel] at hError
      cases hError

--- Runs

/- What an operation leaves. -/
def after (codecs : CampaignCodecs) (network : Network) (self : PledgedCoins)
    (operation : CoinOperation) : PledgedCoins := (self.operate codecs network operation).2

theorem balanced_run (codecs : CampaignCodecs) (network : Network)
    (operations : List CoinOperation) :
    (operations.foldl (after codecs network) empty).coins.Balanced := by
  induction operations using List.reverseRecOn with
  | nil => exact CoinSet.balanced_new
  | append_singleton operations operation ih =>
    rw [List.foldl_concat]
    exact operate_balanced ih operation

/-
  In every state of every run of operations each output is there once, all amounts fit into a
  word, the two balances are the exact sums of their classes and add up to the total; and an
  operation that fails changes nothing.
-/
theorem coins_stay_balanced (codecs : CampaignCodecs) (network : Network)
    (operations : List CoinOperation) :
    Runs.EachState (after codecs network)
      (fun self => (self.coins.coins.map Coin.outpoint).Nodup ∧
          self.coins.totalSats < 2 ^ 64 ∧
          self.coins.spendableSats.toNat =
            WordSums.total (self.coins.spendable.map Coin.valueSats) ∧
          self.coins.reservedSats.toNat = WordSums.total (self.coins.reserved.map Coin.valueSats) ∧
          self.coins.spendableSats.toNat + self.coins.reservedSats.toNat = self.coins.totalSats)
      empty operations ∧
    Runs.EachStep (after codecs network)
      (fun self operation => ∀ failure,
          (self.operate codecs network operation).1 = .error failure →
            after codecs network self operation = self) empty operations := by
  constructor
  · intro done rest hSplit
    have hBalanced := balanced_run codecs network done
    exact ⟨hBalanced.unique, hBalanced.fits, hBalanced.spendableSats, hBalanced.reservedSats,
      hBalanced.spendable_add_reserved⟩
  · intro done operation rest hSplit failure hError
    exact operate_atomic hError

end PledgedCoins

end OptnWallet
