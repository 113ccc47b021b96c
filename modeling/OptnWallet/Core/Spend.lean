import Mathlib.Algebra.Order.BigOperators.Group.List
import OptnWallet.Core.Cashaddr.RoundTrip
import OptnWallet.Core.Coins.Balances

/-
  Plans of ordinary sends: which coin pays, to whom and how it is signed.

  Main declarations:
    * `prepareSpendWithFeeAndCoin` and `prepareSpend`
    * `ValidDestination` and `Eligible`
    * `prepareSpend_exact`
-/

--- Plans

namespace OptnWallet

open StagedUpdate

/- In satoshis per 1000 bytes. -/
structure FeeRate where
  satoshisPerKb : UInt64
deriving DecidableEq

def relayMinimumFeeRate : FeeRate := { satoshisPerKb := 1000 }

inductive SpendingCapability where
  | seed
  | watchOnly
  | hardware
deriving DecidableEq

inductive SpendKind where
  | seedSpecified
  | watchOnlyUnsignedPsbt
  | hardwareUnsignedPsbt
deriving DecidableEq

structure SpendPlan where
  selected : Outpoint
  amountSats : UInt64
  destination : String
  sighash : UInt8
  kind : SpendKind
  feeRate : FeeRate
deriving DecidableEq

inductive SpendError where
  | emptyDestination
  | invalidDestination (address : String)
  | networkMismatch (address : String) (expected : Network)
  | zeroAmount
  | insufficientSpendable (needed available : UInt64)
  | frozenCoin
  | tokenCoin
  | unknownCoin
  | coinTooSmall (needed coinValue : UInt64)
deriving DecidableEq

def SpendError.toString : SpendError → String
  | emptyDestination => "enter a destination address"
  | invalidDestination address => s!"invalid destination address {address}"
  | networkMismatch address expected =>
    s!"destination {address} is not a {expected.toString} address"
  | zeroAmount => "send amount must be greater than zero"
  | insufficientSpendable needed available =>
    s!"need {needed} spendable sats, only {available} available"
  | frozenCoin => "frozen coins cannot be selected for a send"
  | tokenCoin => "token-bearing coins require a token-aware transfer"
  | unknownCoin => "that coin is not in this wallet"
  | coinTooSmall needed coinValue =>
    s!"that coin holds {coinValue} sats, which does not cover {needed}"

/- SIGHASH_ALL and SIGHASH_FORKID. -/
def sighashAllForkid : UInt8 := 0x41

def SpendingCapability.kind : SpendingCapability → SpendKind
  | seed => .seedSpecified
  | watchOnly => .watchOnlyUnsignedPsbt
  | hardware => .hardwareUnsignedPsbt

--- Coins

def assertCoinIsSpendable (coin : Coin) : Except SpendError Unit :=
  if coin.token.isSome then .error .tokenCoin
  else if coin.isReserved then .error .frozenCoin
  else .ok ()

section

variable (coins : CoinSet) (amountSats : UInt64)

/- The coin that was named, or the reason why it cannot be used. -/
def namedCoin (outpoint : Outpoint) : Except SpendError Coin :=
  match coins.get outpoint with
  | none => .error .unknownCoin
  | some coin => do
      assertCoinIsSpendable coin
      if coin.valueSats < amountSats then .error (.coinTooSmall amountSats coin.valueSats)
      else .ok coin

/- The first spendable coin that is large enough. -/
def firstCoin : Except SpendError Coin :=
  let available := coins.spendableSats
  if available < amountSats then .error (.insufficientSpendable amountSats available)
  else
    match coins.spendable.find? (fun coin => amountSats ≤ coin.valueSats)
    with
    | none => .error (.insufficientSpendable amountSats available)
    | some coin => do
        assertCoinIsSpendable coin
        .ok coin

def selectedCoin (chosen : Option Outpoint) : Except SpendError Coin :=
  match chosen with
  | some outpoint => namedCoin coins amountSats outpoint
  | none => firstCoin coins amountSats

end

--- Preparing

variable (tables : UnicodeTables)

section

variable (coins : CoinSet) (network : Network) (destination : String) (amountSats : UInt64)
  (capability : SpendingCapability)

def prepareSpendWithFeeAndCoin (feeRate : FeeRate)
    (chosen : Option Outpoint) : Except (Fault SpendError) SpendPlan :=
  let trimmed := Text.trim destination
  if trimmed = "" then .error (.error .emptyDestination)
  else if amountSats = 0 then .error (.error .zeroAmount)
  else
    match Address.decode tables trimmed with
    | .error .panic => .error .panic
    | .error (.error _) => .error (.error (.invalidDestination trimmed))
    | .ok address =>
      if address.addressPrefix ≠ network.addressPrefix then
        .error (.error (.networkMismatch trimmed network))
      else
        match selectedCoin coins amountSats chosen with
        | .error error => .error (.error error)
        | .ok selected =>
          -- whole bytes always convert
          match address.encode with
          | none => .error .panic
          | some encoded => .ok
              { selected := selected.outpoint
                amountSats
                destination := encoded
                sighash := sighashAllForkid
                kind := capability.kind
                feeRate }

def prepareSpendWith (chosen : Option Outpoint) : Except (Fault SpendError) SpendPlan :=
  prepareSpendWithFeeAndCoin tables coins network destination amountSats capability
    relayMinimumFeeRate chosen

def prepareSpend : Except (Fault SpendError) SpendPlan :=
  prepareSpendWithFeeAndCoin tables coins network destination amountSats capability
    relayMinimumFeeRate none

end

--- Eligible Coins

/- A coin that may pay the amount, and is the one that was named, if one was. -/
structure Eligible (coins : CoinSet) (amountSats : UInt64) (chosen : Option Outpoint)
    (coin : Coin) : Prop where
  mem : coin ∈ coins.coins
  unfrozen : coin.freeze = none
  token_free : coin.token = none
  covers : amountSats ≤ coin.valueSats
  named : ∀ outpoint, chosen = some outpoint → coin.outpoint = outpoint

variable {coin : Coin}

theorem isSpendable_iff :
    coin.isSpendable = true ↔ 0 < coin.valueSats ∧ coin.freeze = none ∧ coin.token = none := by
  unfold Coin.isSpendable
  simp [and_assoc]

theorem assertCoinIsSpendable_eq_ok_iff :
    assertCoinIsSpendable coin = .ok () ↔ coin.isSpendable = true := by
  unfold assertCoinIsSpendable Coin.isReserved
  cases hToken : coin.token with
  | some token =>
    unfold Coin.isSpendable
    simp [hToken]
  | none =>
    cases hSpendable : coin.isSpendable with
    | true => simp
    | false => simp

variable {coins : CoinSet} {amountSats : UInt64} {chosen : Option Outpoint}

theorem isSpendable_of_covers (hPositive : 0 < amountSats)
    (hEligible : Eligible coins amountSats chosen coin) : coin.isSpendable = true := by
  apply isSpendable_iff.mpr
  exact ⟨UInt64.lt_of_lt_of_le hPositive hEligible.covers, hEligible.unfrozen, hEligible.token_free⟩

/- In a set without repetitions a named coin is found exactly when it is eligible. -/
theorem namedCoin_eq_ok_iff (hBalanced : coins.Balanced) (hPositive : 0 < amountSats)
    {outpoint : Outpoint} :
    namedCoin coins amountSats outpoint = .ok coin ↔
    Eligible coins amountSats (some outpoint) coin := by
  unfold namedCoin
  constructor
  · intro hNamed
    cases hGet : coins.get outpoint with
    | none =>
      rw [hGet] at hNamed
      cases hNamed
    | some found =>
      rw [hGet] at hNamed
      rcases bind_eq_ok_iff.mp hNamed with ⟨_, hSpendable, hFound⟩
      split at hFound
      · cases hFound
      · rename_i hCovers
        cases hFound
        rcases isSpendable_iff.mp (assertCoinIsSpendable_eq_ok_iff.mp hSpendable) with
          ⟨-, hUnfrozen, hToken⟩
        refine ⟨KeyedList.mem_of_find hGet, hUnfrozen, hToken, UInt64.not_lt.mp hCovers, ?_⟩
        intro outpoint' hSame
        cases hSame
        exact KeyedList.key_of_find hGet
  · intro hEligible
    have hKey := hEligible.named outpoint rfl
    have hGet : coins.get outpoint = some coin := by
      unfold CoinSet.get
      rw [← hKey]
      exact KeyedList.find_of_mem hBalanced.unique hEligible.mem
    have hSpendable :=
      assertCoinIsSpendable_eq_ok_iff.mpr (isSpendable_of_covers hPositive hEligible)
    rw [hGet]
    dsimp only
    rw [bind_of_ok hSpendable, if_neg (UInt64.not_lt.mpr hEligible.covers)]

theorem le_total_of_mem {word : UInt64} {words : List UInt64} (hMem : word ∈ words) :
    word.toNat ≤ WordSums.total words := by
  unfold WordSums.total
  exact List.single_le_sum (fun _ _ => Nat.zero_le _) _ (List.mem_map_of_mem hMem)

/- The first coin that is found is eligible. -/
theorem eligible_of_firstCoin (hFirst : firstCoin coins amountSats = .ok coin) :
    Eligible coins amountSats none coin := by
  unfold firstCoin at hFirst
  dsimp only at hFirst
  split at hFirst
  · cases hFirst
  · split at hFirst
    · cases hFirst
    · rename_i found hFind
      rcases bind_eq_ok_iff.mp hFirst with ⟨_, hSpendable, hFound⟩
      cases hFound
      have hMem := List.mem_of_find?_eq_some hFind
      unfold CoinSet.spendable at hMem
      rcases List.mem_filter.mp hMem with ⟨hHeld, hFree⟩
      rcases isSpendable_iff.mp hFree with ⟨-, hUnfrozen, hToken⟩
      have hCovers := List.find?_some hFind
      refine ⟨hHeld, hUnfrozen, hToken, of_decide_eq_true hCovers, ?_⟩
      intro outpoint hNamed
      cases hNamed

section

variable (hBalanced : coins.Balanced) (hPositive : 0 < amountSats)
include hBalanced hPositive

/- And there is one when any coin is eligible: the balance is the exact sum, so it covers what one
   coin covers. -/
theorem exists_firstCoin (hEligible : Eligible coins amountSats none coin) :
    ∃ found, firstCoin coins amountSats = .ok found := by
  have hSpendable := isSpendable_of_covers hPositive hEligible
  have hMem : coin ∈ coins.spendable := List.mem_filter.mpr ⟨hEligible.mem, hSpendable⟩
  have hAvailable : amountSats ≤ coins.spendableSats := by
    rw [UInt64.le_iff_toNat_le, hBalanced.spendableSats]
    have hCovers := UInt64.le_iff_toNat_le.mp hEligible.covers
    have hTotal := le_total_of_mem (List.mem_map_of_mem (f := Coin.valueSats) hMem)
    exact hCovers.trans hTotal
  unfold firstCoin
  dsimp only
  rw [if_neg (UInt64.not_lt.mpr hAvailable)]
  cases hFind :
      coins.spendable.find?
        (fun coin => amountSats ≤ coin.valueSats) with
  | none =>
    rw [List.find?_eq_none] at hFind
    have hSmall := hFind coin hMem
    rw [decide_eq_true_eq] at hSmall
    exact absurd hEligible.covers hSmall
  | some found =>
    have hFree := (List.mem_filter.mp (List.mem_of_find?_eq_some hFind)).2
    refine ⟨found, ?_⟩
    dsimp only
    rw [bind_of_ok (assertCoinIsSpendable_eq_ok_iff.mpr hFree)]

/- A selected coin is eligible, and some coin is selected when one is. -/
theorem eligible_of_selectedCoin (hSelected : selectedCoin coins amountSats chosen = .ok coin) :
    Eligible coins amountSats chosen coin := by
  cases chosen with
  | none => exact eligible_of_firstCoin hSelected
  | some outpoint => exact (namedCoin_eq_ok_iff hBalanced hPositive).mp hSelected

theorem exists_selectedCoin (hEligible : Eligible coins amountSats chosen coin) :
    ∃ found, selectedCoin coins amountSats chosen = .ok found := by
  cases chosen with
  | none => exact exists_firstCoin hBalanced hPositive hEligible
  | some outpoint => exact ⟨coin, (namedCoin_eq_ok_iff hBalanced hPositive).mpr hEligible⟩

end

--- What a Plan Says

/- The address is one of the network. -/
def ValidDestination (tables : UnicodeTables) (network : Network) (destination : String) : Prop :=
  ∃ address,
    Address.decode tables (Text.trim destination) = .ok address ∧
      address.addressPrefix = network.addressPrefix

/- An address that is read can be written. -/
theorem Address.exists_encode (address : Address) : ∃ encoded, address.encode = some encoded := by
  rcases Cashaddr.encodes address.addressPrefix.toList
    ([address.kind.versionByte] ++ address.hash.toList) with ⟨payload5, checks, hEncodes⟩
  unfold Address.encode
  rw [hEncodes.text]
  exact ⟨_, rfl⟩

/- An empty text is no address. -/
theorem Address.decode_empty (address : Address) : Address.decode tables "" ≠ .ok address := by
  intro hDecode
  cases hDecode

section Requests

variable {tables : UnicodeTables} {coins : CoinSet} {network : Network} {destination : String}
variable {amountSats : UInt64} {capability : SpendingCapability} {feeRate : FeeRate}
variable {chosen : Option Outpoint}

theorem prepareSpend_eq_ok_iff {plan : SpendPlan} :
    prepareSpendWithFeeAndCoin tables coins network destination
        amountSats capability feeRate chosen =
      .ok plan ↔
      0 < amountSats ∧ ∃ address coin encoded,
          Address.decode tables (Text.trim destination) = .ok address ∧
            address.addressPrefix = network.addressPrefix ∧
              selectedCoin coins amountSats chosen = .ok coin ∧ address.encode = some encoded ∧
                  plan =
                    { selected := coin.outpoint
                      amountSats
                      destination := encoded
                      sighash := sighashAllForkid
                      kind := capability.kind
                      feeRate } := by
  unfold prepareSpendWithFeeAndCoin
  dsimp only
  constructor
  · intro hPlan
    split at hPlan
    · cases hPlan
    · split at hPlan
      · cases hPlan
      · rename_i hAmount
        split at hPlan
        · cases hPlan
        · cases hPlan
        · rename_i address hDecode
          split at hPlan
          · cases hPlan
          · rename_i hPrefix
            split at hPlan
            · cases hPlan
            · rename_i coin hCoin
              split at hPlan
              · cases hPlan
              · rename_i encoded hEncoded
                cases hPlan
                exact ⟨UInt64.pos_iff_ne_zero.mpr hAmount, address, coin, encoded, hDecode,
                  not_not.mp hPrefix, hCoin, hEncoded, rfl⟩
  · rintro ⟨hPositive, address, coin, encoded, hDecode, hPrefix, hCoin, hEncoded, rfl⟩
    have hNonempty : Text.trim destination ≠ "" := by
      intro hEmpty
      rw [hEmpty] at hDecode
      exact Address.decode_empty tables address hDecode
    rw [if_neg hNonempty, if_neg (UInt64.pos_iff_ne_zero.mp hPositive), hDecode]
    dsimp only
    rw [if_neg (not_not.mpr hPrefix), hCoin]
    dsimp only
    rw [hEncoded]

end Requests

/-
  In every state that the operations of a coin set lead to, a plan names a coin of the set that
  may pay the amount, the one that was asked for if one was, and there is a plan exactly when the
  destination is valid, the amount is positive and there is such a coin.
-/
theorem prepareSpend_exact (codecs : CampaignCodecs) (walletNetwork : Network)
    (operations : List CoinOperation) (tables : UnicodeTables) (network : Network)
    (destination : String) (amountSats : UInt64) (capability : SpendingCapability)
    (feeRate : FeeRate) (chosen : Option Outpoint) :
    let coins :=
      (operations.foldl (PledgedCoins.after codecs walletNetwork) PledgedCoins.empty).coins
    (∀ plan,
          prepareSpendWithFeeAndCoin tables coins network destination amountSats capability feeRate
                chosen = .ok plan →
            ∃ coin,
              Eligible coins amountSats chosen coin ∧ plan.selected = coin.outpoint ∧
                plan.amountSats = amountSats) ∧
      ((∃ plan,
              prepareSpendWithFeeAndCoin tables coins network destination amountSats capability
                  feeRate chosen = .ok plan) ↔
          ValidDestination tables network destination ∧ 0 < amountSats ∧ ∃ coin,
        Eligible coins amountSats chosen coin) := by
  intro coins
  have hBalanced : coins.Balanced := PledgedCoins.balanced_run codecs walletNetwork operations
  constructor
  · intro plan hPlan
    rcases prepareSpend_eq_ok_iff.mp hPlan with
      ⟨hPositive, address, coin, encoded, -, -, hCoin, -, rfl⟩
    exact ⟨coin, eligible_of_selectedCoin hBalanced hPositive hCoin, rfl, rfl⟩
  · constructor
    · rintro ⟨plan, hPlan⟩
      rcases prepareSpend_eq_ok_iff.mp hPlan with
        ⟨hPositive, address, coin, encoded, hDecode, hPrefix, hCoin, -, -⟩
      exact ⟨⟨address, hDecode, hPrefix⟩, hPositive, coin,
        eligible_of_selectedCoin hBalanced hPositive hCoin⟩
    · rintro ⟨⟨address, hDecode, hPrefix⟩, hPositive, coin, hEligible⟩
      rcases exists_selectedCoin hBalanced hPositive hEligible with ⟨found, hFound⟩
      rcases address.exists_encode with ⟨encoded, hEncoded⟩
      exact ⟨_,
        prepareSpend_eq_ok_iff.mpr
          ⟨hPositive, address, found, encoded, hDecode, hPrefix, hFound, hEncoded, rfl⟩⟩

end OptnWallet
