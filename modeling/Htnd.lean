import Htnd.Consensus.Merkle
import Htnd.Consensus.PastMedianTime
import Htnd.Utxo.Representations
import Htnd.ConsensusState.StoreRuns
import Htnd.ConsensusState.SelectedTip
import Htnd.Ghostdag.KCluster
import Htnd.Reachability.DagRun
import Htnd.Reachability.NextAncestor
import Htnd.MiningManager.FeeRateOrder
import Htnd.MiningManager.Rejections
import Htnd.UtxoIndex.Run
import Htnd.TransactionValidator.Amounts
import Htnd.TransactionValidator.CommittedSigOps
import Htnd.TransactionValidator.LockTimeAgreement
import Htnd.Txscript.MultiSignatures
import Htnd.Txscript.Safety
import Htnd.Txscript.Verdicts
import Htnd.MergeDepth.Roots
import Htnd.BlockParents.BuiltHeaders
import Htnd.ConsensusState.InheritedOffset
import Htnd.Ghostdag.Voting
import Htnd.Difficulty.Windows
import Htnd.Database.Transactions
import Htnd.Ghostdag.ChainMeeting
import Htnd.Consensus.OffHeapCache
