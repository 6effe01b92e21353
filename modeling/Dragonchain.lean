import Dragonchain.ScriptFlags
import Dragonchain.ScriptNum
import Dragonchain.Supply
import Dragonchain.Replay
import Dragonchain.CompactBlockRebuild
import Dragonchain.NetMessage
import Dragonchain.Checkpoints
import Dragonchain.FailedHeaders
import Dragonchain.WorkedData
import Dragonchain.SigOpBound
import Dragonchain.ExtKeys
import Dragonchain.DustInputs
import Dragonchain.PartialMerkleBuild
import Dragonchain.Destinations
import Dragonchain.OwnedSigning
import Dragonchain.CoinSelection
import Dragonchain.OrphanPool
import Dragonchain.HeaderCache
import Dragonchain.RollingBloom
import Dragonchain.TimeData
import Dragonchain.LockPoints
import Dragonchain.BlockAssembly
import Dragonchain.MempoolIndexes
import Dragonchain.TransactionsRequest
import Dragonchain.SighashCommitment
import Dragonchain.SighashReference
import Dragonchain.GetBlocks
import Dragonchain.KeyRecovery
