import LibcoLite.Lib.TailQueue
import Mathlib.Logic.Function.Basic
import Mathlib.Data.Fintype.Basic

/-!
# Tasks and thread environments

The data of `coroutine.h`. A task is a block that `calloc` returned; its address never
returns to another task, and an access after `free` stops the run. The `block_entry` of
every task and the `block_queue` heads form one memory of tail-queue links, beside the
other fields. The stack of a task is represented by its control point, the place in the
library or in its own code where it executes or will be resumed. The kernel holds the
interest list of the thread's epoll instance; the clock delivers arbitrary readings.
-/

namespace LibcoLite

/-- `NR_TASKS`, slots of one thread. -/
def nrTasks : Nat := 10240
/-- `MAX_FD`, length of every per-descriptor array. -/
def maxFd : Nat := 1024

/-- Address of a `task_struct_t`, never null. -/
abbrev TaskPtr := Nat
/-- Address of a `thread_env_t`, never null. -/
abbrev EnvPtr := Nat
/-- A set of epoll event bits, `uint32_t` in the kernel and `int` in `revents`. -/
abbrev Mask := BitVec 32

/-- `EPOLLIN`. -/
def epollIn : Mask := 0x001
/-- `EPOLLOUT`. -/
def epollOut : Mask := 0x004
/-- `EPOLLERR`. -/
def epollErr : Mask := 0x008
/-- `EPOLLHUP`. -/
def epollHup : Mask := 0x010

/-- `COROUTINE_RUNNING`, `COROUTINE_SLEEP`, `COROUTINE_WAIT` and `COROUTINE_EXIT`. -/
inductive Status where
  | running
  | sleep
  | wait
  | exit
deriving DecidableEq, Repr

/-- `struct epoll_event` with its `data.fd`. -/
structure EpollEvent where
  /-- Requested or reported bits. -/
  events : Mask
  /-- `data.fd`. -/
  dataFd : Nat
deriving DecidableEq, Repr

/-- `struct task_struct_t` without `block_entry` and without the fields the context switch
and the trampoline use (`esp`, `co_fn`, `arg`, `stack`). -/
structure TaskStruct where
  /-- Slot of the task. -/
  id : Nat
  /-- Millisecond count a sleeping task waits for. -/
  wakeuptime : BitVec 32
  /-- The environment the task belongs to. -/
  threadEnv : Option EnvPtr
  /-- Scheduling status. -/
  status : Status
  /-- Number of recorded descriptors. -/
  fdsIdx : Nat
  /-- Recorded descriptors. -/
  fds : Nat → Nat
  /-- The task's own record of each registration. -/
  events : Nat → EpollEvent
  /-- Event bits received for each descriptor. -/
  revents : Nat → Mask

/-- The zeroed block `calloc` returns. -/
def TaskStruct.calloc : TaskStruct where
  id := 0
  wakeuptime := 0
  threadEnv := none
  status := .running
  fdsIdx := 0
  fds _ := 0
  events _ := ⟨0, 0⟩
  revents _ := 0

/-- The blocking calls of `cosyscall.c`. -/
inductive Call where
  /-- `co_accept`. -/
  | accept
  /-- `co_read`. -/
  | read
  /-- `co_write`. -/
  | write
deriving DecidableEq, Repr

instance : Fintype Call where
  elems := {.accept, .read, .write}
  complete call := by cases call <;> decide

/-- The event bit a call waits for. -/
def Call.event : Call → Mask
  | .accept => epollIn
  | .read => epollIn
  | .write => epollOut

/-- The event of a call is a single bit. -/
theorem Call.event_bit (call : Call) : ∃ bit, call.event = BitVec.twoPow 32 bit := by
  cases call with
  | accept => exact ⟨0, by decide⟩
  | read => exact ⟨0, by decide⟩
  | write => exact ⟨2, by decide⟩

/-- Events that meet the event of a call contain it. -/
theorem Call.event_of_meets (call : Call) {events : Mask} (meets : events &&& call.event ≠ 0) :
    events &&& call.event = call.event := by
  obtain ⟨bit, single⟩ := call.event_bit
  rw [single, BitVec.and_twoPow] at meets ⊢
  split at meets
  · exact if_pos ‹_›
  · exact absurd rfl meets

/-- Where a task executes, or will be resumed. -/
inductive Pc where
  /-- In its own code, outside the library. -/
  | user
  /-- In `co_join`, before the test of `task[cid]->status`. -/
  | join (cid : Nat)
  /-- In a blocking call, before the test of `revents[fd]`. -/
  | wait (call : Call) (fd : Nat)
  /-- In a blocking call, before the system call it ends in. -/
  | syscall (call : Call) (fd : Nat)
  /-- In `co_eventloop`, before `epoll_wait`. -/
  | epollWait
  /-- In `co_eventloop`, before handling the listed events. -/
  | handle (events : List EpollEvent)
  /-- In `start`, before the test of `fds_idx`. -/
  | cleanup
  /-- In `start`, behind the call of `schedule` that must not return. -/
  | finished
  /-- Before a call of `schedule`, to continue behind it at a control point. -/
  | schedule (behind : Pc)
deriving DecidableEq, Repr

/-- Why a run cannot go on. -/
inductive Stop where
  /-- A null or freed task is accessed. -/
  | fault (fault : TailQueue.Fault)
  /-- An array is indexed outside its bounds. -/
  | bounds
  /-- A task of another thread environment is switched to. -/
  | foreign
  /-- The process ends. -/
  | exited
  /-- `pick` has not found a task within the allowed rounds. -/
  | spinning
  /-- The input is not one the control point takes. -/
  | disabled
deriving DecidableEq, Repr

/-- `struct thread_env_t` without `epoll`. -/
structure ThreadEnv where
  /-- Number of tasks. -/
  taskCount : Int
  /-- The task that executes. -/
  current : TaskPtr
  /-- The task table. -/
  task : Nat → Option TaskPtr

/-- Everything the execution of one thread depends on. -/
structure State extends ThreadEnv where
  /-- Address of the environment itself. -/
  self : EnvPtr
  /-- Queue heads of `epoll.block_queue` and the `block_entry` of every task. -/
  links : TailQueue.Links Nat TaskPtr
  /-- Contents of every task block. -/
  tasks : TaskPtr → TaskStruct
  /-- The blocks that are allocated and not freed. -/
  live : TaskPtr → Bool
  /-- The block `calloc` returns next; no block from here on was ever allocated. -/
  fresh : TaskPtr
  /-- Control point of every task. -/
  pc : TaskPtr → Pc
  /-- Interest list of the epoll instance, by descriptor. -/
  interest : Nat → Option EpollEvent
  /-- What the successive clock readings are, in microseconds. -/
  clock : Nat → Nat
  /-- Number of clock readings taken. -/
  readings : Nat

namespace State

/-- Access a task block. -/
def deref (s : State) (tsk : TaskPtr) : Except Stop TaskStruct :=
  if s.live tsk then .ok (s.tasks tsk) else .error (.fault .freed)

/-- Change the fields of a task block. -/
def modify (s : State) (tsk : TaskPtr) (change : TaskStruct → TaskStruct) : State :=
  { s with tasks := Function.update s.tasks tsk (change (s.tasks tsk)) }

/-- Continue the executing task at a control point. -/
def goto (s : State) (pc : Pc) : State :=
  { s with pc := Function.update s.pc s.current pc }

/-- Take over the links an operation leaves, or stop where it fails. -/
def relink (s : State) (links : Except TailQueue.Fault (TailQueue.Links Nat TaskPtr)) :
    Except Stop State :=
  match links with
  | .ok links => .ok { s with links }
  | .error fault => .error (.fault fault)

/-- An accessible block is live, and the access yields its contents. -/
theorem deref_ok {s : State} {tsk : TaskPtr} {found : TaskStruct} :
    s.deref tsk = .ok found ↔ s.live tsk = true ∧ found = s.tasks tsk := by
  by_cases alive : s.live tsk = true
  · simp [deref, alive, @eq_comm _ (s.tasks tsk)]
  · simp [deref, alive]

end State

/-- Address of the initial task, the first block of a thread. -/
def initTask : TaskPtr := 0

/-- The environment `co_get_thread_env` creates at the first library call of a thread. -/
def State.init (self : EnvPtr) (clock : Nat → Nat) : State where
  taskCount := 1
  current := initTask
  task := Function.update (fun _ => none) 0 (some initTask)
  self := self
  links := .init
  tasks := Function.update (fun _ => .calloc) initTask
    { TaskStruct.calloc with threadEnv := some self, status := .running }
  live := Function.update (fun _ => false) initTask true
  fresh := initTask + 1
  pc _ := .user
  interest _ := none
  clock := clock
  readings := 0

end LibcoLite
