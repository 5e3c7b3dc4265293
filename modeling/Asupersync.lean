import Asupersync.Record.RegionAdmission
import Asupersync.Scheduler.ThreeLaneFairness
import Asupersync.Runtime.Quiescence
import Asupersync.Runtime.CancelPropagation
import Asupersync.Runtime.FinalizerDiscipline
import Asupersync.Runtime.RegionHeap
import Asupersync.Cancel.RetryQueue
import Asupersync.Plan.CertificateCompleteness
import Asupersync.Plan.CongruenceClosure
import Asupersync.Obligation.LeakSoundness
import Asupersync.Obligation.RecoveryStability
import Asupersync.Trace.Monoid
import Asupersync.Trace.Dpor
import Asupersync.Trace.CausalOrder
import Asupersync.Sync.SemaphoreFairness
import Asupersync.Sync.MutexHandover
import Asupersync.Sync.RwLockStarvation
import Asupersync.Sync.PoolProgress
import Asupersync.Channel.WatchUpdates
import Asupersync.Supervision.StartOrder
import Asupersync.Distributed.ConsistentHash
