import Pglens.Delta.RowLock
import Pglens.Topology.Orphan
import Pglens.DiskBuffer.Checkpoint
import Pglens.Server.Resend
import Pglens.Staleness.NoPrimary
import Pglens.Alerting.Deliveries
import Pglens.Alerting.Order
import Pglens.Explain.Keyword
import Pglens.Explain.Exact
import Pglens.Explain.Spacing
import Pglens.Redact.Split
import Pglens.Staleness.SlotSpells
import Pglens.Commands.Lives
import Pglens.Alerting.ForTimer
import Pglens.Advisor.Pass
import Pglens.Advisor.RedundantPrefix
import Pglens.Check.Sequences
import Pglens.Ash.Resolution
import Pglens.Ash.Fold
import Pglens.Ash.Aggregator
import Pglens.Cardinality.Forgetting
import Pglens.Server.Budget
import Pglens.Server.Sessions
import Pglens.Server.LoginWindows
import Pglens.Agent.Pusher
import Pglens.Agent.Schedule
import Pglens.DiskBuffer.Counters
import Pglens.DiskBuffer.PartialWrites
import Pglens.Locks.BlockedCount
import Pglens.Replication.Layout
import Pglens.Server.ObjectFacts
import Pglens.Identity.Store
import Pglens.Agent.Scheduler
