import Nosv.Lib.Run
import Nosv.Preferred
import Nosv.AffinityRouting
import Nosv.RuntimeSteps
import Nosv.RuntimeInv
import Nosv.YieldMark
import Nosv.Degree
import Nosv.ParallelTask
import Nosv.Backbone
import Nosv.PauseSubmit
import Nosv.DeadlineWake
import Nosv.EventSuspend
import Nosv.DeadlineMoves
import Nosv.DeadlineRuns
import Nosv.Lib.Ring
import Nosv.Mutex
import Nosv.Barrier
import Nosv.CondInv
import Nosv.CondMoves
import Nosv.CondRuns
import Nosv.CondTimed
import Nosv.EventQueue
import Nosv.Threads
import Nosv.FindTask
import Nosv.ParallelCalls
import Nosv.ProcessSelection
import Nosv.WorkConservation
import Nosv.Lib.TreeLinks
import Nosv.PriorityQueue
import Nosv.InQueue
import Nosv.Segment
import Nosv.SegmentRuns
import Nosv.Lib.Ledger
import Nosv.Teardown
import Nosv.Lib.HashTable
import Nosv.ThreadAffinity
import Nosv.ThreadAffinityRuns
import Nosv.TopoHierarchy
import Nosv.YieldOrder
import Nosv.DeadlineLapse
import Nosv.TimedWait
import Nosv.CondTimeout
import Nosv.EventCount
import Nosv.SuspendSetting
import Nosv.TimedSuspend
import Nosv.InlineSubmit
import Nosv.NestedAttach
import Nosv.SubmitWindow
import Nosv.ThreadTokens
import Nosv.ThreadTokenSteps
import Nosv.SubmitLoop
import Nosv.CpuBitset
import Nosv.BindingMask
import Nosv.DefaultAffinity
import Nosv.ConfigSize
import Nosv.ConfigOverride
import Nosv.ConfigDomains
import Nosv.ConfiguredLevels
import Nosv.ConfigIds
import Nosv.NumaFallback
import Nosv.ThreadTokenHands
import Nosv.ThreadTokenMoves
import Nosv.ImmediateSlot
import Nosv.Futex
import Nosv.HashStore
import Nosv.ListHeads
import Nosv.InstrControl
import Nosv.ProcStat
import Nosv.SegmentCreate
import Nosv.IntrusiveHeap
import Nosv.ConfigMemory
import Nosv.ConfigShape
import Nosv.ConfigTyped
import Nosv.TaskMonitor
import Nosv.TaskMonitorRuns
import Nosv.DtLock
import Nosv.DtLockTickets
import Nosv.DtLockAnswers
import Nosv.Governor
import Nosv.GovernorRuns
import Nosv.SlabRuns
import Nosv.OneEach
