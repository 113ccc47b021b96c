import OptnWallet.Core.Text
import OptnWallet.Core.WalletProjection

/-
  The coins of a wallet: outputs on the chain with what is recorded of them locally.

  Main declarations:
    * `Coin.fromObservation`
    * `CoinSet.replaceChainOutputs`
    * `replaceChainOutputs_chainFields`
-/

--- Coins

namespace OptnWallet

/- A transaction id as it is displayed, and an index. -/
structure Outpoint where
  txid : TxId
  vout : UInt32
deriving DecidableEq

inductive FreezeReason where
  | user
  | flipstarterPledge
  | authhead
  | fusionInFlight
deriving DecidableEq

/- Where the key of a coin comes from. -/
inductive CoinSource where
  | hd
  | rpa (prevoutTxid : String) (prevoutIndex : UInt32) (senderPubkeyHex : String)
deriving DecidableEq

def CoinSource.isRpa : CoinSource → Bool
  | hd => false
  | rpa _ _ _ => true

structure Coin where
  token : Option TokenData
  source : CoinSource
  outpoint : Outpoint
  valueSats : UInt64
  address : String
  label : Option String
  freeze : Option FreezeReason
  fuseDepth : UInt32
deriving DecidableEq

inductive CoinError where
  | duplicateOutpoint
  | amountOverflow
  | unknownOutpoint
  | alreadyFrozen
  | notFrozen
  | zeroValue
  | emptyAddress
  | invalidTxid
deriving DecidableEq

def CoinError.toString : CoinError → String
  | duplicateOutpoint => "that coin is already in the set"
  | amountOverflow => "wallet output values overflow the supported amount range"
  | unknownOutpoint => "unknown coin"
  | alreadyFrozen => "coin is already frozen"
  | notFrozen => "coin is not frozen"
  | zeroValue => "coin value must be greater than zero"
  | emptyAddress => "coin address is empty"
  | invalidTxid => "txid must be 32 bytes of hex"

namespace Coin

def fromObservation (outpoint : Outpoint) (valueSats : UInt64) (address : String)
    (token : Option TokenData) : Except CoinError Coin :=
  if Text.isBlank address then .error .emptyAddress
  else .ok
      { token
        source := .hd
        outpoint
        valueSats
        address
        label := none
        freeze := none
        fuseDepth := 0 }

/- Local records of the coin that was there before.  A Cash Code origin is kept for the same address
   only. -/
def annotatedFrom (coin : Coin) (prior : Option Coin) : Coin :=
  { coin with
    label := prior.bind Coin.label
    freeze := prior.bind Coin.freeze
    fuseDepth := (prior.map Coin.fuseDepth).getD 0
    source :=
      match prior.filter (fun prior => prior.address = coin.address ∧ prior.source.isRpa)
      with
      | some prior => prior.source
      | none => coin.source }

end Coin

--- Coin Sets

structure CoinSet where
  coins : List Coin
deriving DecidableEq

namespace CoinSet

def new : CoinSet := { coins := [] }

/- The coins that are left, with the records of the previous ones: each outpoint once, all amounts
   within a word. -/
def replaceOutputs (previous : List Coin) :
    Finset Outpoint → UInt64 → List Coin → Except CoinError (List Coin)
  | _, _, [] => .ok []
  | seen, total, coin :: rest =>
    if coin.outpoint ∈ seen then .error .duplicateOutpoint
    else if 2 ^ 64 ≤ total.toNat + coin.valueSats.toNat
    then .error .amountOverflow
    else do
      -- of equal outpoints the map kept the last
      let prior := previous.reverse.find? (fun prior => prior.outpoint = coin.outpoint)
      let rest ← replaceOutputs previous (insert coin.outpoint seen) (total + coin.valueSats) rest
      .ok (coin.annotatedFrom prior :: rest)

def replaceChainOutputs (set : CoinSet) (outputs : List Coin) : Except CoinError CoinSet := do
  let coins ← replaceOutputs set.coins ∅ 0 outputs
  .ok { coins }

end CoinSet

--- Chain Fields

/- What a coin has from the chain. -/
structure ChainFields where
  outpoint : Outpoint
  valueSats : UInt64
  address : String
  token : Option TokenData
deriving DecidableEq

def Coin.chainFields (coin : Coin) : ChainFields :=
  { outpoint := coin.outpoint
    valueSats := coin.valueSats
    address := coin.address
    token := coin.token }

theorem Coin.chainFields_fromObservation {outpoint : Outpoint} {valueSats : UInt64}
    {address : String} {token : Option TokenData} {coin : Coin}
    (hCoin : fromObservation outpoint valueSats address token = .ok coin) :
    coin.chainFields = ⟨outpoint, valueSats, address, token⟩ := by
  unfold fromObservation at hCoin
  split at hCoin
  · cases hCoin
  · cases hCoin
    rfl

namespace CoinSet

/- By induction over the outputs. -/
theorem replaceOutputs_chainFields {previous outputs coins : List Coin} {seen : Finset Outpoint}
    {total : UInt64} (hReplace : replaceOutputs previous seen total outputs = .ok coins) :
    coins.map Coin.chainFields = outputs.map Coin.chainFields := by
  induction outputs generalizing seen total coins with
  | nil =>
    cases hReplace
    rfl
  | cons coin rest ih =>
    unfold replaceOutputs at hReplace
    split at hReplace
    · cases hReplace
    split at hReplace
    · cases hReplace
    dsimp only [bind, Except.bind] at hReplace
    split at hReplace
    · cases hReplace
    · rename_i coins' hRest
      cases hReplace
      rw [List.map_cons, List.map_cons, ih hRest]
      rfl

/- A refresh takes what the chain says and nothing else. -/
theorem replaceChainOutputs_chainFields {set set' : CoinSet} {outputs : List Coin}
    (hReplace : set.replaceChainOutputs outputs = .ok set') :
    set'.coins.map Coin.chainFields = outputs.map Coin.chainFields := by
  unfold replaceChainOutputs at hReplace
  dsimp only [bind, Except.bind] at hReplace
  split at hReplace
  · cases hReplace
  · rename_i coins hCoins
    cases hReplace
    exact replaceOutputs_chainFields hCoins

end CoinSet

end OptnWallet
