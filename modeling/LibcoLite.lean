import LibcoLite.Lib.Run
import LibcoLite.Lib.TailQueue
import LibcoLite.Lib.Cycle
import LibcoLite.Lib.Memory
import LibcoLite.Lib.X86
import LibcoLite.Thread
import LibcoLite.Epoll
import LibcoLite.Sched
import LibcoLite.Coroutine
import LibcoLite.Cosyscall
import LibcoLite.Coeventloop
import LibcoLite.Machine
import LibcoLite.Integrity
import LibcoLite.Replay
import LibcoLite.Fairness
import LibcoLite.Join
import LibcoLite.BlockQueue
import LibcoLite.Control
import LibcoLite.WellFormed
import LibcoLite.Exit
import LibcoLite.Owner
import LibcoLite.Events
import LibcoLite.Waiters
import LibcoLite.Interest
import LibcoLite.Switch
import LibcoLite.Threads
import LibcoLite.Pick
import LibcoLite.Sleep
import LibcoLite.Records
import LibcoLite.Readiness
import LibcoLite.Registrations
import LibcoLite.Failure
import LibcoLite.Descriptor
import LibcoLite.Agreement
import LibcoLite.Reuse
import LibcoLite.Waking
import LibcoLite.TaskLayout
import LibcoLite.Start
import LibcoLite.SwitchI386
import LibcoLite.Batch
import LibcoLite.FdsList
import LibcoLite.Lib.Pieces
import LibcoLite.Server
import LibcoLite.Request
import LibcoLite.Replies
import LibcoLite.Status
import LibcoLite.Careful
import LibcoLite.Program
import LibcoLite.Stray
import LibcoLite.Demo03
import LibcoLite.Safety
import LibcoLite.Echo
import LibcoLite.Service
import LibcoLite.Lib.Trace
import LibcoLite.Blocking
import LibcoLite.Refinement
import LibcoLite.Clients
import LibcoLite.Cli
import LibcoLite.Dry
import LibcoLite.Demo01
import LibcoLite.Lib.Reach
import LibcoLite.Sleepers
import LibcoLite.Completion
