import OptnWallet.Core.Cashaddr.RoundTrip
import OptnWallet.Core.Coins.Balances

/-
  Coins and pledges of the application: how its actions, and the refreshes of the runtime, keep
  the two in step.

  Main declarations:
    * `AppPledges` and `AppPledges.reduce`
    * `PledgedCoins.Held` and `AppPledges.Keeps`
    * `held_reduce`
    * `pledges_stay_held`
-/

--- Actions

namespace OptnWallet

open KeyedList

/- What the application holds of coins and pledges. -/
structure AppPledges extends PledgedCoins where
  network : Network
  notice : Option String
deriving DecidableEq

/- Actions on them.  A refresh is the runtime's: it replaces the coins by a complete projection. -/
inductive PledgeAction where
  | insertCoin (coin : Coin)
  | freezeCoin (outpoint : Outpoint)
  | unfreezeCoin (outpoint : Outpoint)
  | setCoinLabel (outpoint : Outpoint) (label : Option String)
  | prepareFlipstarterPledge (blob : String) (nowUnix : Option UInt64)
  | cancelFlipstarterPledge (pledgeId : UInt32)
  | refreshCoins (outputs : List Coin)
  | setNetwork (network : Network)
  | openWallet
  | lockWallet

inductive PledgeEvent where
  | coinsChanged
  | flipstarterPledgesChanged
  | noticeChanged
  | networkChanged (network : Network)
  | walletOpened
  | walletLocked
deriving DecidableEq

namespace AppPledges

open Flipstarter

def initial (network : Network) : AppPledges :=
  { PledgedCoins.empty with network, notice := none }

def reject (self : AppPledges) (message : String) : AppPledges × Option PledgeEvent :=
  ({ self with notice := some message }, some .noticeChanged)

/- A result is announced, or its error is.  A panic ends the program and is no further state. -/
def announce {α : Type} (self : AppPledges) (event : PledgeEvent)
    (result : Result α × PledgedCoins) : AppPledges × Option PledgeEvent :=
  match result.1 with
  | .ok _ => ({ self with toPledgedCoins := result.2, notice := none }, some event)
  | .error (.error e) => reject { self with toPledgedCoins := result.2 } e.toString
  | .error .panic => (self, none)

/- Of the pledges on a coin that was held for one, the first in the list is marked. -/
def unfreezeCoin (self : PledgedCoins) (outpoint : Outpoint) : Result FreezeReason × PledgedCoins :=
  let released := self.coins.unfreeze outpoint
  match released.1 with
  | .error e => (.error (.error (.coin e)), { self with coins := released.2 })
  | .ok reason => (.ok reason,
      { coins := released.2
        pledges :=
          if reason = .flipstarterPledge then
            (modify FlipstarterPledge.outpoint outpoint PledgedCoins.markCancelled self.pledges).2
          else self.pledges })

/- Coins and pledges belong to one chain and one wallet. -/
def cleared (self : AppPledges) : AppPledges :=
  { self with coins := self.coins.clear, pledges := [] }

def reduce (codecs : CampaignCodecs) (self : AppPledges) :
    PledgeAction → AppPledges × Option PledgeEvent
  | .insertCoin coin => self.announce .coinsChanged (self.onCoins (self.coins.insert coin))
  | .freezeCoin outpoint =>
    self.announce .coinsChanged (self.onCoins (self.coins.freeze outpoint .user))
  | .unfreezeCoin outpoint =>
    self.announce .coinsChanged (unfreezeCoin self.toPledgedCoins outpoint)
  | .setCoinLabel outpoint label =>
    self.announce .coinsChanged (self.onCoins (self.coins.setLabel outpoint label))
  | .prepareFlipstarterPledge blob nowUnix =>
    self.announce .flipstarterPledgesChanged (self.preparePledge codecs self.network blob nowUnix)
  | .cancelFlipstarterPledge pledgeId =>
    self.announce .flipstarterPledgesChanged (self.cancelPledge pledgeId)
  | .refreshCoins outputs => ({ self with coins := (self.coins.replace outputs).2 }, none)
  | .setNetwork network =>
    if self.network = network then (self, none)
    else ({ self.cleared with network }, some (.networkChanged network))
  | .openWallet => ({ self.cleared with notice := none }, some .walletOpened)
  | .lockWallet => (self.cleared, some .walletLocked)

/- What an action leaves. -/
def after (codecs : CampaignCodecs) (self : AppPledges) (action : PledgeAction) : AppPledges :=
  (self.reduce codecs action).1

end AppPledges

--- The Invariant

/-
  Pledges have ids of their own and, while they are frozen, coins of their own.  A coin of the set
  is held for the frozen pledge on it.
-/
structure PledgedCoins.Held (state : PledgedCoins) : Prop where
  balanced : state.coins.Balanced
  uniqueIds : (state.pledges.map FlipstarterPledge.id).Nodup
  sole :
    ∀ pledge ∈ state.pledges, ∀ other ∈ state.pledges,
      pledge.status = .frozen →
      other.status = .frozen →
      pledge.outpoint = other.outpoint → pledge = other
  held :
    ∀ pledge ∈ state.pledges,
    pledge.status = .frozen →
      ∀ coin, state.coins.get pledge.outpoint = some coin → coin.freeze = some .flipstarterPledge

/-
  The actions that keep it.  A coin that is unfrozen has its frozen pledge in front of any other
  one on it; a coin that comes into the set is not one that a frozen pledge had lost; and the next
  id is a new one.
-/
def AppPledges.Keeps (self : AppPledges) : PledgeAction → Prop
  | .insertCoin coin => coin.outpoint ∉ self.coins.coins.map Coin.outpoint →
    self.coins.totalSats + coin.valueSats.toNat < 2 ^ 64 →
      ∀ pledge ∈ self.pledges, pledge.status = .frozen → pledge.outpoint ≠ coin.outpoint
  | .unfreezeCoin outpoint => (self.coins.get outpoint).isSome → ∀ pledge ∈ self.pledges,
        pledge.status = .frozen → pledge.outpoint = outpoint →
          find FlipstarterPledge.outpoint outpoint self.pledges = some pledge
  | .prepareFlipstarterPledge _ _ =>
    ∀ pledge ∈ self.pledges, pledge.id ≠ PledgedCoins.nextId self.pledges
  | .refreshCoins outputs => (outputs.map Coin.outpoint).Nodup →
    WordSums.total (outputs.map Coin.valueSats) < 2 ^ 64 → ∀ output ∈ outputs,
        self.coins.get output.outpoint = none →
          ∀ pledge ∈ self.pledges, pledge.status = .frozen → pledge.outpoint ≠ output.outpoint
  | _ => True

instance AppPledges.instDecidableKeeps (self : AppPledges) (action : PledgeAction) :
    Decidable (self.Keeps action) :=
  match action with
  | .insertCoin _ => inferInstanceAs (Decidable (_ → _ → _))
  | .freezeCoin _ => inferInstanceAs (Decidable True)
  | .unfreezeCoin _ => inferInstanceAs (Decidable (_ → _))
  | .setCoinLabel _ _ => inferInstanceAs (Decidable True)
  | .prepareFlipstarterPledge _ _ => inferInstanceAs (Decidable (∀ _ ∈ self.pledges, _))
  | .cancelFlipstarterPledge _ => inferInstanceAs (Decidable True)
  | .refreshCoins _ => inferInstanceAs (Decidable (_ → _ → _))
  | .setNetwork _ => inferInstanceAs (Decidable True)
  | .openWallet => inferInstanceAs (Decidable True)
  | .lockWallet => inferInstanceAs (Decidable True)

namespace PledgedCoins

variable {self : PledgedCoins}

theorem held_empty : empty.Held where
  balanced := CoinSet.balanced_new
  uniqueIds := List.nodup_nil
  sole := by
    intro pledge hPledge
    cases hPledge
  held := by
    intro pledge hPledge
    cases hPledge

variable {coin : Coin}

/- A coin of the set is the one that a lookup finds. -/
theorem get_of_mem {set : CoinSet} (hBalanced : set.Balanced) (hCoin : coin ∈ set.coins) :
    set.get coin.outpoint = some coin := find_of_mem hBalanced.unique hCoin

variable {outpoint : Outpoint}

/-
  A method on one coin that leaves the hold of a pledged coin keeps the invariant.
-/
theorem Held.onCoin (hHeld : self.Held) {α : Type} {method : Coin → Except CoinError α × Coin}
    (hKeeps : CoinSet.KeepsChain method)
    (hHold : ∀ coin,
          coin.freeze = some .flipstarterPledge → (method coin).2.freeze = some .flipstarterPledge)
        :
    Held
      { self with coins := (self.coins.onCoin outpoint method).2 } where
  balanced := hHeld.balanced.onCoin hKeeps outpoint
  uniqueIds := hHeld.uniqueIds
  sole := hHeld.sole
  held := by
    intro pledge hPledge hFrozen coin hCoin
    dsimp only at hPledge hCoin
    by_cases hHere : pledge.outpoint = outpoint
    · rw [hHere, CoinSet.get_onCoin hKeeps] at hCoin
      rcases Option.map_eq_some_iff.mp hCoin with ⟨prior, hPrior, rfl⟩
      apply hHold
      apply hHeld.held pledge hPledge hFrozen
      rw [hHere]
      exact hPrior
    · rw [CoinSet.get_onCoin_of_ne hKeeps _ hHere] at hCoin
      exact hHeld.held pledge hPledge hFrozen coin hCoin

variable {reason : FreezeReason}

theorem freezing_holds (hHold : coin.freeze = some .flipstarterPledge) :
    (CoinSet.freezing reason coin).2.freeze = some .flipstarterPledge := by
  unfold CoinSet.freezing
  rw [if_pos (by rw [hHold]; rfl)]
  exact hHold

theorem freezing_of_none (hNone : coin.freeze = none) :
    (CoinSet.freezing reason coin).2.freeze = some reason := by
  unfold CoinSet.freezing
  rw [if_neg]
  rw [hNone]
  decide

/- A coin that comes in is not one of a frozen pledge. -/
theorem Held.insert (hHeld : self.Held)
    (hNew : coin.outpoint ∉ self.coins.coins.map Coin.outpoint →
            self.coins.totalSats + coin.valueSats.toNat < 2 ^ 64 →
            ∀ pledge ∈ self.pledges, pledge.status = .frozen → pledge.outpoint ≠ coin.outpoint) :
    Held { self with coins := (self.coins.insert coin).2 } where
  balanced := hHeld.balanced.insert coin
  uniqueIds := hHeld.uniqueIds
  sole := hHeld.sole
  held := by
    intro pledge hPledge hFrozen held hGet
    dsimp only at hPledge hGet
    rcases CoinSet.insert_spec self.coins coin with ⟨hInsert, hOutpoint, hFits⟩ | ⟨e, hInsert⟩
    · have hOther := hNew hOutpoint hFits pledge hPledge hFrozen
      rw [hInsert] at hGet
      unfold CoinSet.get at hGet
      have hMem := mem_of_find hGet
      have hKey := key_of_find hGet
      rcases List.mem_append.mp hMem with hOld | hHere
      · apply hHeld.held pledge hPledge hFrozen
        rw [← hKey]
        exact get_of_mem hHeld.balanced hOld
      · rw [List.mem_singleton.mp hHere] at hKey
        exact absurd hKey.symm hOther
    · rw [hInsert] at hGet
      exact hHeld.held pledge hPledge hFrozen held hGet

/- A refresh keeps the holds of the coins that stay. -/
theorem Held.replace (hHeld : self.Held) {outputs : List Coin}
    (hNew : (outputs.map Coin.outpoint).Nodup →
            WordSums.total (outputs.map Coin.valueSats) < 2 ^ 64 →
            ∀ output ∈ outputs, self.coins.get output.outpoint = none → ∀ pledge ∈ self.pledges,
          pledge.status = .frozen → pledge.outpoint ≠ output.outpoint) :
    Held
      { self with coins := (self.coins.replace outputs).2 } where
  balanced := hHeld.balanced.replace outputs
  uniqueIds := hHeld.uniqueIds
  sole := hHeld.sole
  held := by
    intro pledge hPledge hFrozen coin hGet
    dsimp only at hPledge hGet
    unfold CoinSet.replace StagedUpdate.assign at hGet
    cases hReplace : self.coins.replaceChainOutputs outputs with
    | error e =>
      rw [hReplace] at hGet
      exact hHeld.held pledge hPledge hFrozen coin hGet
    | ok set =>
      rw [hReplace] at hGet
      dsimp only at hGet
      unfold CoinSet.get at hGet
      have hMem := mem_of_find hGet
      have hKey := key_of_find hGet
      have hFields := CoinSet.replaceChainOutputs_chainFields hReplace
      have hBalanced := CoinSet.balanced_replaceChainOutputs hReplace
      have hUnique := hBalanced.unique
      have hFits := hBalanced.fits
      unfold CoinSet.totalSats at hFits
      rw [CoinSet.outpoints_of_chainFields hFields] at hUnique
      rw [CoinSet.values_of_chainFields hFields] at hFits
      rw [CoinSet.replaceChainOutputs_eq hReplace] at hMem
      rcases List.mem_map.mp hMem with ⟨output, hOutput, rfl⟩
      have hAt : output.outpoint = pledge.outpoint := hKey
      cases hPrior : self.coins.get output.outpoint with
      | none =>
        exact absurd hAt.symm (hNew hUnique hFits output hOutput hPrior pledge hPledge hFrozen)
      | some prior =>
        unfold CoinSet.get at hPrior
        have hMemPrior := mem_of_find hPrior
        have hKeyPrior := key_of_find hPrior
        have hPrevious : CoinSet.previousAt self.coins.coins output.outpoint = some prior := by
          rw [← hKeyPrior]
          apply CoinSet.previousAt_of_sole hMemPrior
          intro other hOther hSame
          exact List.inj_on_of_nodup_map hHeld.balanced.unique hOther hMemPrior hSame
        have hFreeze : prior.freeze = some .flipstarterPledge := by
          apply hHeld.held pledge hPledge hFrozen
          rw [← hAt, ← hKeyPrior]
          exact get_of_mem hHeld.balanced hMemPrior
        rw [hPrevious]
        exact hFreeze

/- A new pledge holds a coin that no other one holds. -/
theorem Held.preparePledge (hHeld : self.Held) (codecs : CampaignCodecs) (network : Network)
    (blob : String) (nowUnix : Option UInt64)
    (hId : ∀ pledge ∈ self.pledges, pledge.id ≠ nextId self.pledges) :
    (self.preparePledge codecs network blob nowUnix).2.Held := by
  rcases preparePledge_cases codecs self network blob nowUnix with ⟨failure, hPrepare⟩ |
    ⟨coin, hCoin, pledge, hSpendable, hFreeze, hPledgeId, hOutpoint, hStatus, hPrepare⟩
  · rw [hPrepare]
    exact hHeld
  have hGet := get_of_mem hHeld.balanced hCoin
  have hUnheld : coin.freeze = none := by
    unfold Coin.isSpendable at hSpendable
    simp only [Bool.and_eq_true, Option.isNone_iff_eq_none] at hSpendable
    exact hSpendable.1.2
  -- no frozen pledge is on a coin that is not held
  have hOther :
      ∀ other ∈ self.pledges, other.status = .frozen → other.outpoint ≠ coin.outpoint := by
    intro other hMem hFrozen hSame
    have hHold := hHeld.held other hMem hFrozen coin (hSame ▸ hGet)
    rw [hUnheld] at hHold
    cases hHold
  have hCoins :
      Held
        { self with
          coins := (self.coins.freeze coin.outpoint .flipstarterPledge).2 } :=
    hHeld.onCoin (CoinSet.keepsChain_freezing .flipstarterPledge) (fun _ => freezing_holds)
  rw [hPrepare]
  constructor
  · exact hCoins.balanced
  · rw [List.map_append, List.map_singleton]
    apply List.nodup_append.mpr
    refine ⟨hHeld.uniqueIds, List.nodup_singleton _, ?_⟩
    intro id hOld id' hNew hEq
    rcases List.mem_map.mp hOld with ⟨other, hOtherMem, rfl⟩
    rw [List.mem_singleton.mp hNew, hPledgeId] at hEq
    exact hId other hOtherMem hEq
  · intro first hFirst second hSecond hFrozen hFrozen' hSame
    rcases List.mem_append.mp hFirst with hOld | hNew <;>
      rcases List.mem_append.mp hSecond with hOld' | hNew'
    · exact hHeld.sole first hOld second hOld' hFrozen hFrozen' hSame
    · rw [List.mem_singleton.mp hNew', hOutpoint] at hSame
      exact absurd hSame (hOther first hOld hFrozen)
    · rw [List.mem_singleton.mp hNew, hOutpoint] at hSame
      exact absurd hSame.symm (hOther second hOld' hFrozen')
    · rw [List.mem_singleton.mp hNew, List.mem_singleton.mp hNew']
  · intro other hMem hFrozen held hHere
    dsimp only at hMem hHere
    rcases List.mem_append.mp hMem with hOld | hNew
    · exact hCoins.held other hOld hFrozen held hHere
    · have hKeeps := CoinSet.keepsChain_freezing .flipstarterPledge
      rw [List.mem_singleton.mp hNew, hOutpoint] at hHere
      unfold CoinSet.freeze at hHere
      rw [CoinSet.get_onCoin hKeeps, hGet] at hHere
      cases hHere
      exact freezing_of_none hUnheld

--- Releases

/- A coin that is released had a hold, and now has none. -/
theorem unfreeze_spec {set : CoinSet}
    (hRelease : (set.unfreeze outpoint).1 = .ok reason) :
    ∃ coin,
      set.get outpoint = some coin ∧ coin.freeze = some reason ∧
        (set.unfreeze outpoint).2.get outpoint = some { coin with freeze := none } := by
  unfold CoinSet.unfreeze at hRelease ⊢
  rw [CoinSet.onCoin_fst] at hRelease
  rw [CoinSet.get_onCoin CoinSet.keepsChain_unfreezing]
  cases hGet : set.get outpoint with
  | none =>
    rw [hGet] at hRelease
    cases hRelease
  | some coin =>
    rw [hGet] at hRelease
    unfold CoinSet.unfreezing at hRelease ⊢
    dsimp only [Option.map_some, Option.getD_some] at hRelease ⊢
    cases hFreeze : coin.freeze with
    | none =>
      rw [hFreeze] at hRelease
      cases hRelease
    | some held =>
      rw [hFreeze] at hRelease
      cases hRelease
      exact ⟨coin, rfl, hFreeze, rfl⟩

/- Where the first pledge with a key was marked, the pledges that are frozen are others, which were
   there before. -/
theorem frozen_of_marked {κ : Type} [DecidableEq κ] {keyOf : FlipstarterPledge → κ} {key : κ}
    {pledges : List FlipstarterPledge} {first pledge : FlipstarterPledge}
    (hIds : (pledges.map FlipstarterPledge.id).Nodup)
    (hKeep : ∀ pledge, keyOf (markCancelled pledge).2 = keyOf pledge)
    (hFirst : find keyOf key pledges = some first)
    (hMem : pledge ∈ (modify keyOf key markCancelled pledges).2)
    (hFrozen : pledge.status = .frozen) : pledge ∈ pledges ∧ pledge ≠ first := by
  constructor
  · rcases mem_modify hMem with hOld | ⟨other, -, rfl⟩
    · exact hOld
    · cases hFrozen
  · intro hEq
    have hMarked :
        find keyOf key (modify keyOf key markCancelled pledges).2 =
          some (markCancelled first).2 := by
      rw [find_modify hKeep, hFirst]
      rfl
    have hSameIds :
        (modify keyOf key markCancelled pledges).2.map FlipstarterPledge.id =
          pledges.map FlipstarterPledge.id :=
      modify_map (fun _ => rfl) pledges
    have hBoth : pledge = (markCancelled first).2 := by
      apply List.inj_on_of_nodup_map (hSameIds ▸ hIds) hMem (mem_of_find hMarked)
      rw [hEq]
      rfl
    rw [hBoth] at hFrozen
    cases hFrozen

/-
  A release keeps the invariant where no pledge on the coin stays frozen.
-/
theorem Held.release (hHeld : self.Held) {pledges : List FlipstarterPledge}
    (hIds : (pledges.map FlipstarterPledge.id).Nodup)
    (hFrozen : ∀ pledge ∈ pledges,
          pledge.status = .frozen → pledge ∈ self.pledges ∧ pledge.outpoint ≠ outpoint) :
    Held
      { coins := (self.coins.unfreeze outpoint).2, pledges } where
  balanced := hHeld.balanced.onCoin CoinSet.keepsChain_unfreezing outpoint
  uniqueIds := hIds
  sole := by
    intro pledge hPledge other hOther hHere hThere hSame
    exact hHeld.sole pledge (hFrozen pledge hPledge hHere).1 other (hFrozen other hOther hThere).1
      hHere hThere hSame
  held := by
    intro pledge hPledge hHere coin hGet
    rcases hFrozen pledge hPledge hHere with ⟨hOld, hOther⟩
    unfold CoinSet.unfreeze at hGet
    rw [CoinSet.get_onCoin_of_ne CoinSet.keepsChain_unfreezing _ hOther] at hGet
    exact hHeld.held pledge hOld hHere coin hGet

theorem Held.cancelPledge (hHeld : self.Held) (pledgeId : UInt32) :
    (self.cancelPledge pledgeId).2.Held := by
  rcases cancelPledge_cases self pledgeId with ⟨failure, hCancel⟩ |
    ⟨pledge, reason, hFind, hStatus, hRelease, hCancel⟩
  · rw [hCancel]
    exact hHeld
  · rw [hCancel]
    apply hHeld.release
    · rw [modify_map (fun _ => rfl)]
      exact hHeld.uniqueIds
    · intro other hOther hFrozen
      rcases frozen_of_marked hHeld.uniqueIds (fun _ => rfl) hFind hOther hFrozen with ⟨hOld, hNe⟩
      refine ⟨hOld, ?_⟩
      intro hSame
      exact hNe (hHeld.sole other hOld pledge (mem_of_find hFind) hFrozen hStatus hSame)

end PledgedCoins

namespace AppPledges

open PledgedCoins

theorem unfreezeCoin_atomic {self : PledgedCoins} {outpoint : Outpoint} {e : CoinError}
    (hError : (self.coins.unfreeze outpoint).1 = .error e) :
    (self.coins.unfreeze outpoint).2 = self.coins :=
  CoinSet.onCoin_atomic CoinSet.atomic_unfreezing hError

/- The pledge that is marked is the frozen one, if any is. -/
theorem held_unfreezeCoin {self : PledgedCoins} (hHeld : self.Held) {outpoint : Outpoint}
    (hFirst : (self.coins.get outpoint).isSome → ∀ pledge ∈ self.pledges,
        pledge.status = .frozen → pledge.outpoint = outpoint →
          find FlipstarterPledge.outpoint outpoint self.pledges = some pledge) :
    (unfreezeCoin self outpoint).2.Held := by
  unfold unfreezeCoin
  dsimp only
  split
  · rename_i e hError
    rw [unfreezeCoin_atomic hError]
    exact hHeld
  · rename_i reason hRelease
    rcases unfreeze_spec hRelease with ⟨coin, hGet, hFreeze, -⟩
    have hFirst := hFirst (by rw [hGet]; rfl)
    apply hHeld.release
    · split
      · rw [modify_map (fun _ => rfl)]
        exact hHeld.uniqueIds
      · exact hHeld.uniqueIds
    · intro pledge hPledge hFrozen
      split at hPledge
      · rcases mem_modify hPledge with hOld | ⟨other, -, rfl⟩
        · refine ⟨hOld, ?_⟩
          intro hAt
          exact (frozen_of_marked hHeld.uniqueIds (fun _ => rfl) (hFirst pledge hOld hFrozen hAt)
              hPledge hFrozen).2 rfl
        · cases hFrozen
      · rename_i hReason
        refine ⟨hPledge, ?_⟩
        intro hAt
        have hHold := hHeld.held pledge hPledge hFrozen coin (hAt ▸ hGet)
        rw [hFreeze] at hHold
        exact hReason (Option.some.inj hHold)

variable {self : AppPledges}

/- One action keeps the invariant, under its condition. -/
theorem held_reduce {codecs : CampaignCodecs} {action : PledgeAction}
    (hHeld : self.toPledgedCoins.Held) (hKeeps : self.Keeps action) :
    (self.after codecs action).toPledgedCoins.Held := by
  have hAnnounce :
      ∀ {α : Type} (event : PledgeEvent) (result : Flipstarter.Result α × PledgedCoins),
      result.2.Held → (self.announce event result).1.toPledgedCoins.Held := by
    intro α event result hResult
    unfold announce
    split
    · exact hResult
    · exact hResult
    · exact hHeld
  unfold after
  cases action with
  | insertCoin coin => exact hAnnounce _ _ (hHeld.insert hKeeps)
  | freezeCoin outpoint =>
    exact hAnnounce _ _ (hHeld.onCoin (CoinSet.keepsChain_freezing .user) (fun _ => freezing_holds))
  | unfreezeCoin outpoint => exact hAnnounce _ _ (held_unfreezeCoin hHeld hKeeps)
  | setCoinLabel outpoint label =>
    exact hAnnounce _ _ (hHeld.onCoin (CoinSet.keepsChain_labelling label) (fun _ hHold => hHold))
  | prepareFlipstarterPledge blob nowUnix =>
    exact hAnnounce _ _ (hHeld.preparePledge codecs self.network blob nowUnix hKeeps)
  | cancelFlipstarterPledge pledgeId => exact hAnnounce _ _ (hHeld.cancelPledge pledgeId)
  | refreshCoins outputs => exact hHeld.replace hKeeps
  | setNetwork network =>
    unfold reduce
    dsimp only
    split
    · exact hHeld
    · exact held_empty
  | openWallet => exact held_empty
  | lockWallet => exact held_empty

--- Runs

/- Frozen pledges whose coins are in the set hold them, and no two pledges have one id. -/
structure Exclusive (state : AppPledges) : Prop where
  held :
    ∀ pledge ∈ state.pledges,
    pledge.status = .frozen → ∀ coin ∈ state.coins.coins,
        coin.outpoint = pledge.outpoint → coin.freeze = some .flipstarterPledge
  uniqueIds : (state.pledges.map FlipstarterPledge.id).Nodup

/-
  A cancellation that succeeds releases the hold of its pledge: that of a coin held for a pledge,
  of which no other pledge is frozen.  Every other coin stays as it is.  A preparation that fails
  leaves coins and pledges as they are.
-/
def Confined (codecs : CampaignCodecs) (self : AppPledges) : PledgeAction → Prop
  | .cancelFlipstarterPledge pledgeId => ∀ outpoint,
      (self.cancelPledge pledgeId).1 = .ok outpoint → ∃ pledge ∈ self.pledges, ∃ coin,
          pledge.id = pledgeId ∧ pledge.status = .frozen ∧
            pledge.outpoint = outpoint ∧
            (∀ other ∈ self.pledges,
                other.status = .frozen → other.outpoint = outpoint → other = pledge) ∧
            self.coins.get outpoint = some coin ∧
            coin.freeze = some .flipstarterPledge ∧
            (self.cancelPledge pledgeId).2.coins.get outpoint = some { coin with freeze := none } ∧
            ∀ place,
              place ≠ outpoint →
                (self.cancelPledge pledgeId).2.coins.get place = self.coins.get place
  | .prepareFlipstarterPledge blob nowUnix => ∀ failure,
      (self.preparePledge codecs self.network blob nowUnix).1 = .error failure →
        (self.preparePledge codecs self.network blob nowUnix).2 = self.toPledgedCoins
  | _ => True

theorem exclusive_of_held (hHeld : self.toPledgedCoins.Held) : self.Exclusive where
  held := by
    intro pledge hPledge hFrozen coin hCoin hAt
    apply hHeld.held pledge hPledge hFrozen
    rw [← hAt]
    exact get_of_mem hHeld.balanced hCoin
  uniqueIds := hHeld.uniqueIds

theorem confined_of_held (codecs : CampaignCodecs) (hHeld : self.toPledgedCoins.Held)
    (action : PledgeAction) : self.Confined codecs action := by
  cases action with
  | cancelFlipstarterPledge pledgeId =>
    intro outpoint hOk
    rcases cancelPledge_cases self.toPledgedCoins pledgeId with ⟨failure, hCancel⟩ |
      ⟨pledge, reason, hFind, hStatus, hRelease, hCancel⟩
    · rw [hCancel] at hOk
      cases hOk
    · rw [hCancel] at hOk ⊢
      cases hOk
      have hPledge := mem_of_find hFind
      rcases unfreeze_spec hRelease with ⟨coin, hGet, -, hReleased⟩
      refine ⟨pledge, hPledge, coin, key_of_find hFind, hStatus, rfl, ?_, hGet,
        hHeld.held pledge hPledge hStatus coin hGet, hReleased, ?_⟩
      · intro other hOther hFrozen hSame
        exact hHeld.sole other hOther pledge hPledge hFrozen hStatus hSame
      · intro place hPlace
        exact CoinSet.get_onCoin_of_ne CoinSet.keepsChain_unfreezing _ hPlace
  | prepareFlipstarterPledge blob nowUnix =>
    intro failure hError
    rcases preparePledge_cases codecs self.toPledgedCoins self.network blob nowUnix with
      ⟨failure', hPrepare⟩ | ⟨coin, -, pledge, -, -, -, -, -, hPrepare⟩
    · rw [hPrepare]
    · rw [hPrepare] at hError
      cases hError
  | insertCoin coin => trivial
  | freezeCoin outpoint => trivial
  | unfreezeCoin outpoint => trivial
  | setCoinLabel outpoint label => trivial
  | refreshCoins outputs => trivial
  | setNetwork network => trivial
  | openWallet => trivial
  | lockWallet => trivial

/-
  In a run whose actions all meet the condition every frozen pledge holds its coin for as long as
  the coin is in the set, and cancellations and failed preparations are confined.
-/
theorem pledges_stay_held (codecs : CampaignCodecs) (network : Network)
    (actions : List PledgeAction)
    (hKeeps : Runs.EachStep (after codecs) Keeps (initial network) actions) :
    Runs.EachState (after codecs) Exclusive (initial network) actions ∧
    Runs.EachStep (after codecs) (Confined codecs) (initial network) actions := by
  have hHeld :
      Runs.EachState (after codecs)
        (fun self => self.toPledgedCoins.Held) (initial network)
        actions :=
    @Runs.eachState_of_eachStep AppPledges PledgeAction (after codecs)
      (fun self => self.toPledgedCoins.Held) Keeps (fun _ _ hHere hKeep => held_reduce hHere hKeep)
      (initial network) held_empty actions hKeeps
  constructor
  · intro done rest hSplit
    exact exclusive_of_held (hHeld done rest hSplit)
  · exact
      Runs.eachStep_of_eachState (fun _ action hHere => confined_of_held codecs hHere action) hHeld

/- A campaign that asks for one coin of 8000 satoshis. -/
def sampleJson : String :=
  "\x7b\"outputs\":[\x7b\"value\":500000,\"address\":\"bchtest:qppyysjzgfpyysjzgfpyysjzgfpyysjzggjj5lzzlc\"\x7d],\"donation\":\x7b\"amount\":8000\x7d\x7d"

def sampleBlob : String :=
  "ewAiAG8AdQB0AHAAdQB0AHMAIgA6AFsAewAiAHYAYQBsAHUAZQAiADoANQAwADAAMAAwADAALAAiAGEAZABkAHIAZQBzAHMAIgA6ACIAYgBjAGgAdABlAHMAdAA6AHEAcABwAHkAeQBzAGoAegBnAGYAcAB5AHkAcwBqAHoAZwBmAHAAeQB5AHMAagB6AGcAZgBwAHkAeQBzAGoAegBnAGcAagBqADUAbAB6AHoAbABjACIAfQBdACwAIgBkAG8AbgBhAHQAaQBvAG4AIgA6AHsAIgBhAG0AbwB1AG4AdAAiADoAOAAwADAAMAB9AH0A"

/- What the two decoders answer for it. -/
def sampleCodecs : CampaignCodecs :=
  { tables := Address.caselessTables
    decodeBase64 := fun bytes =>
      if bytes = Cashaddr.utf8 sampleBlob.toList then
        some (sampleJson.toList.flatMap (fun c => [UInt8.ofNat c.toNat, 0]))
      else none
    parseJson := fun text =>
      if text = sampleJson then .ok
          { outputs := [ (500000, "bchtest:qppyysjzgfpyysjzgfpyysjzgfpyysjzggjj5lzzlc") ]
            aliasName := none
            comment := none
            donationAmount := 8000
            expires := none }
      else .error "expected value at line 1 column 1" }

def sampleCampaign : Campaign :=
  { outputs :=
      [ { valueSats := 500000
          address := "bchtest:qppyysjzgfpyysjzgfpyysjzgfpyysjzggjj5lzzlc" } ]
    donationSats := 8000
    aliasName := none
    comment := none
    expires := none }

def samplePledgeCoin : Coin :=
  { token := none
    source := .hd
    outpoint := CoinSet.sampleOutpoint
    valueSats := 8000
    address := "bchtest:qppyysjzgfpyysjzgfpyysjzgfpyysjzggjj5lzzlc"
    label := none
    freeze := none
    fuseDepth := 0 }

set_option maxRecDepth 8000 in
theorem trim_sampleBlob : Text.trim sampleBlob = sampleBlob := by
  unfold sampleBlob
  apply trim_of_all_ends
  · decide +kernel
  · decide +kernel

theorem sampleCampaign_eq :
    Flipstarter.decodeCampaignBlob sampleCodecs sampleBlob .chipnet = .ok sampleCampaign := by
  have hBase64 :
      sampleCodecs.decodeBase64 (Cashaddr.utf8 sampleBlob.toList) =
        some (sampleJson.toList.flatMap (fun c => [UInt8.ofNat c.toNat, 0])) := by
    unfold sampleCodecs
    dsimp only
    rw [if_pos rfl]
  have hUtf16 :
      Flipstarter.utf16leToString (sampleJson.toList.flatMap (fun c => [UInt8.ofNat c.toNat, 0])) =
        .ok sampleJson := by
    decide +kernel
  have hJson :
      sampleCodecs.parseJson sampleJson = .ok
          { outputs := [ (500000, "bchtest:qppyysjzgfpyysjzgfpyysjzgfpyysjzggjj5lzzlc") ]
            aliasName := none
            comment := none
            donationAmount := 8000
            expires := none } := by
    unfold sampleCodecs
    dsimp only
    rw [if_pos rfl]
  unfold Flipstarter.decodeCampaignBlob
  rw [trim_sampleBlob]
  dsimp only
  rw [if_neg (by decide +kernel), hBase64]
  simp only [hUtf16, bind, Except.bind, hJson]
  decide +kernel

/- What preparing a pledge to a campaign comes to. -/
def prepared (self : AppPledges) (campaign : Campaign) : AppPledges :=
  (self.announce .flipstarterPledgesChanged
    (match self.coins.findExactSpendable campaign.donationSats
    with
      | none => (.error (.error (.noExactCoin campaign.donationSats)), self.toPledgedCoins)
      | some coin => self.pledgeCoin campaign coin)).1

theorem after_prepare {codecs : CampaignCodecs} {network : Network} {blob : String}
    {campaign : Campaign} (hNetwork : self.network = network)
    (hCampaign : Flipstarter.decodeCampaignBlob codecs blob network = .ok campaign) :
    self.after codecs (.prepareFlipstarterPledge blob none) = self.prepared campaign := by
  have hFresh : ¬ isExpired campaign.expires none = true := by
    unfold isExpired
    split
    · rename_i hSome
      cases hSome
    · decide
  unfold after reduce prepared PledgedCoins.preparePledge
  dsimp only
  rw [hNetwork, hCampaign]
  dsimp only
  exact congrArg (fun result => (self.announce .flipstarterPledgesChanged result).1) (if_neg hFresh)

/- The coin is pledged, and released, and pledged again. -/
def pledgedOnce : AppPledges :=
  ((initial .chipnet).after sampleCodecs (.insertCoin samplePledgeCoin)).prepared sampleCampaign

def pledgedTwice : AppPledges :=
  (pledgedOnce.after sampleCodecs (.cancelFlipstarterPledge 1)).prepared sampleCampaign

theorem pledges_stay_held_sample :
    Runs.EachState (after sampleCodecs) Exclusive (initial .chipnet)
      [.insertCoin samplePledgeCoin, .prepareFlipstarterPledge sampleBlob none,
        .unfreezeCoin CoinSet.sampleOutpoint] := by
  refine (pledges_stay_held sampleCodecs .chipnet
    [.insertCoin samplePledgeCoin, .prepareFlipstarterPledge sampleBlob none,
      .unfreezeCoin CoinSet.sampleOutpoint] ?_).1
  rw [Runs.eachStep_cons, Runs.eachStep_cons,
    Runs.eachStep_cons, after_prepare (by decide +kernel) sampleCampaign_eq]
  refine ⟨?_, ?_, ?_, Runs.eachStep_nil⟩ <;> decide +kernel

/-
  A coin that was pledged twice is unfrozen.  The first pledge on it is marked, which was
  cancelled already, and the second one stays frozen without a hold.
-/
theorem second_pledge_loses_hold :
    ¬ Runs.EachState (after sampleCodecs) Exclusive (initial .chipnet)
      [.insertCoin samplePledgeCoin, .prepareFlipstarterPledge sampleBlob none,
        .cancelFlipstarterPledge 1, .prepareFlipstarterPledge sampleBlob none,
        .unfreezeCoin CoinSet.sampleOutpoint] := by
  intro hEach
  have hLast := hEach _ [] (List.append_nil _).symm
  rw [List.foldl_cons, List.foldl_cons, after_prepare (by decide +kernel) sampleCampaign_eq,
    List.foldl_cons, List.foldl_cons, after_prepare (by decide +kernel) sampleCampaign_eq,
    List.foldl_cons, List.foldl_nil] at hLast
  have hLost :
      ∃ pledge ∈ (pledgedTwice.after sampleCodecs (.unfreezeCoin CoinSet.sampleOutpoint)).pledges,
      pledge.status = .frozen ∧ ∃ coin ∈
            (pledgedTwice.after sampleCodecs (.unfreezeCoin CoinSet.sampleOutpoint)).coins.coins,
          coin.outpoint = pledge.outpoint ∧ coin.freeze ≠ some .flipstarterPledge := by
    decide +kernel
  rcases hLost with ⟨pledge, hPledge, hFrozen, coin, hCoin, hAt, hFreeze⟩
  exact hFreeze (hLast.held pledge hPledge hFrozen coin hCoin hAt)

end AppPledges

end OptnWallet
