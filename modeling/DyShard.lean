import DyShard.Atomic.CoordinatorSafety
import DyShard.Atomic.CoordinatorTermination
import DyShard.Atomic.FollowerSafety
import DyShard.Atomic.FollowerSignals
import DyShard.Atomic.Migration
import DyShard.Core.Conservation
import DyShard.Load.Copy
import DyShard.State.Copy
import DyShard.Core.Tracing
import DyShard.Core.Proposer
import DyShard.Consensus.Tally
import DyShard.Consensus.Certificate
import DyShard.Slash.Soundness
import DyShard.CrossShard.Receipts
import DyShard.CrossShard.CrossLinks
import DyShard.Staking.Index
import DyShard.Staking.Uniqueness
import DyShard.Stream.Bookkeeping
import DyShard.Wire.Memory
import DyShard.State.Frozen
import DyShard.Core.Reward
import DyShard.Pool.Validate
import DyShard.Slash.Records
import DyShard.Slash.Rate
import DyShard.Shard.RangeMap
import DyShard.Consensus.FbftLog
