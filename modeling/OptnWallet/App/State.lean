import OptnWallet.Core.Coins
import OptnWallet.Core.WatchOnly

/-
  The application state that synchronization reads and writes: the opened wallet, its coins and
  what is shown of its history.

  Main declarations:
    * `AppState`
    * `WalletSyncView`
-/

namespace OptnWallet

inductive WalletKind where
  | seed
  | watchOnly
  | hardware
deriving DecidableEq

/- An opened wallet.  The policy is that of a multisig one. -/
structure OpenedWallet where
  kind : WalletKind
  receiveAddress : String
  accountPath : String
  multisigPolicy : Option String
  accountXpub : Option String
deriving DecidableEq

inductive HistoryKind where
  | received
  | sent
  | transfer
  | pendingSend
deriving DecidableEq

structure HistoryEntry where
  kind : HistoryKind
  txid : String
  amountSats : UInt64
  address : String
  reserved : Bool
  blockHeight : Option UInt32
deriving DecidableEq

/- Balances, history and status of synchronization.  Without a complete observation there is no
   confirmed balance. -/
structure WalletSyncView where
  refreshing : Bool
  historyFresh : Bool
  utxosFresh : Bool
  source : Option String
  evidence : Option String
  tipHeight : Option UInt32
  confirmedSats : Option UInt64
  pendingSats : Int
  history : List HistoryEntry
  error : Option String
deriving DecidableEq

def WalletSyncView.empty : WalletSyncView :=
  { refreshing := false
    historyFresh := false
    utxosFresh := false
    source := none
    evidence := none
    tipHeight := none
    confirmedSats := none
    pendingSats := 0
    history := []
    error := none }

/- A prepared spend is dropped, never read. -/
structure AppState where
  network : Network
  coins : CoinSet
  notice : Option String
  wallet : Option OpenedWallet
  hdAddresses : Option HdAddressAllocation
  walletSync : WalletSyncView
  spendPrepared : Bool
deriving DecidableEq

/- The events that synchronization tells apart. -/
inductive AppEvent where
  | walletOpened
  | walletLocked
  | networkChanged (network : Network)
  | serversChanged
  | walletRebuilt
  | coinsChanged
  | noticeChanged
  | other
deriving DecidableEq

end OptnWallet
