import OptnWallet.App.Pledges
import OptnWallet.Bip37.PartialTrees
import OptnWallet.Bip37.Shv
import OptnWallet.Core.AccountPath
import OptnWallet.Core.Airgap
import OptnWallet.Core.Asert.NextTarget
import OptnWallet.Core.Connect.Commitment
import OptnWallet.Core.HeaderTime.Lookups
import OptnWallet.Core.Multisig.Detection
import OptnWallet.Core.Multisig.KeyRecords
import OptnWallet.Core.Nip44.RoundTrip
import OptnWallet.Core.Psbt.Strict
import OptnWallet.Core.Rpa.Detection
import OptnWallet.Core.Scan.Base58
import OptnWallet.Core.Scan.NetworkSafe
import OptnWallet.Core.Spend
import OptnWallet.Core.Tx.Selection
import OptnWallet.Core.WatchOnly.Allocation
import OptnWallet.Fusion.Blame.Review
import OptnWallet.Fusion.ElectrumInput.Revalidation
import OptnWallet.Fusion.P2pSign.Approved
import OptnWallet.Fusion.RoundCancel
import OptnWallet.Fusion.RoundLease
import OptnWallet.Fusion.Run.Keys
import OptnWallet.Fusion.Run.Whole
import OptnWallet.Fusion.ServerPlan.Conserved
import OptnWallet.MultisigCore.Agreement
import OptnWallet.Neutrino.Blocks.Committed
import OptnWallet.Neutrino.Gcs
import OptnWallet.Nostr.CoordinatorRound.Assembled
import OptnWallet.Nostr.Rendezvous.Acknowledged
import OptnWallet.Nostr.Rendezvous.Rounds
import OptnWallet.Runtime.HeaderRecovery.Resumption
import OptnWallet.Runtime.HeaderStore.Invariants
import OptnWallet.Runtime.HeaderStore.Ranges
import OptnWallet.Runtime.HeaderView.Restored
import OptnWallet.Runtime.RpaReceive.Streaming
import OptnWallet.Runtime.RpaReceive.Sweep
import OptnWallet.Runtime.SyncWorker.Completeness
import OptnWallet.Runtime.SyncWorker.HeaderAgreement
import OptnWallet.Runtime.WalletBirthday
import OptnWallet.Runtime.WalletSync.Evidence
