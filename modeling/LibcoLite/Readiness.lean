import LibcoLite.Records
import LibcoLite.Replay

/-!
# Readiness is fresh

The bits a task has received stay until its next call on the descriptor, and events replace
them as a whole. A blocking call nevertheless reaches its system call only behind an event
that was obtained and handled since the call began, because `add_queue` clears the awaited
bit first. The history of a run says what has happened since a call began.
-/

namespace LibcoLite

open Transition (Move Run)

/-- A move finds a task in the wait loop of a call, so the task executes none of its own
code in it. -/
def Waits (p : TaskPtr) (call : Call) (fd : Nat) (move : Move State Input) : Prop :=
  (move.before.pc p).waiting = some (call, fd)

/-- In a history, latest move first, a task has made a blocking call and has been in its wait
loop since. -/
inductive Calling (p : TaskPtr) (call : Call) (fd : Nat) : History → Prop where
  /-- The call. -/
  | calls (move : Move State Input) (past : History) (granted : Bool) :
      move.input = .io call fd granted → move.before.current = p →
      move.after.pc p = .wait call fd → Calling p call fd (move :: past)
  /-- A move while the task waits. -/
  | waits (move : Move State Input) (past : History) : Calling p call fd past →
      Waits p call fd move → Calling p call fd (move :: past)

/-- Since the call began, `epoll_wait` has reported events in the task `q`, which has handled
all but the listed ones. -/
inductive Polling (p : TaskPtr) (call : Call) (fd : Nat) (q : TaskPtr) :
    List EpollEvent → History → Prop where
  /-- The call of `epoll_wait`. Each event is what is reported for its descriptor. -/
  | polls (move : Move State Input) (past : History) (reports : List (Nat × Mask))
      (events : List EpollEvent) : Calling p call fd past → Waits p call fd move →
      move.before.current = q → move.before.pc q = .epollWait →
      move.input = .ready (some reports) → epollWait move.before.interest reports = some events →
      (∀ ev ∈ events, (ev.dataFd, ev.events) ∈ reports) →
      Polling p call fd q events (move :: past)
  /-- An event is handled. -/
  | handles (move : Move State Input) (past : History) (ev : EpollEvent)
      (rest : List EpollEvent) : Polling p call fd q (ev :: rest) past → Waits p call fd move →
      move.before.current = q → move.before.pc q = .handle (ev :: rest) →
      Polling p call fd q rest (move :: past)

/-- Since the call began, an event for its descriptor that contains the awaited bit has been
obtained and handled, and the task was dequeued with it. -/
inductive Delivered (p : TaskPtr) (call : Call) (fd : Nat) : History → Prop where
  /-- The event is handled. -/
  | handles (move : Move State Input) (past : History) (q : TaskPtr) (ev : EpollEvent)
      (rest : List EpollEvent) : Polling p call fd q (ev :: rest) past → Waits p call fd move →
      move.before.current = q → move.before.pc q = .handle (ev :: rest) → ev.dataFd = fd →
      ev.events &&& call.event = call.event → move.before.links.first fd = some p →
      move.before.links.remove move.before.live fd p = .ok move.after.links →
      Delivered p call fd (move :: past)
  /-- A move while the task waits. -/
  | waits (move : Move State Input) (past : History) : Delivered p call fd past →
      Waits p call fd move → Delivered p call fd (move :: past)

variable {self : EnvPtr} {clock : Nat → Nat} {past : History} {s s' : State} {i : Input}
  {p : TaskPtr} {call : Call} {fd : Nat}

/-- A waiting task receives the awaited bit only from an event that dequeues it. -/
theorem step_received (inv : Integrity s) (taken : step s i = .ok s') (alive : s.live p = true)
    (inside : (s.pc p).waiting = some (call, fd))
    (lacks : (s.tasks p).revents fd &&& call.event = 0)
    (received : (s'.tasks p).revents fd &&& call.event ≠ 0) :
    ∃ ev rest, s.pc s.current = .handle (ev :: rest) ∧ ev.dataFd = fd ∧
      ev.events &&& call.event ≠ 0 ∧ ((s.tasks p).events fd).events &&& ev.events ≠ 0 ∧
      s.links.first fd = some p ∧ s.links.remove s.live fd p = .ok s'.links := by
  have changes : (s'.tasks p).revents fd ≠ (s.tasks p).revents fd := by
    intro same
    rw [same] at received
    exact received lacks
  -- a step outside the wait loops changes the block of another task
  have other {tsk : TaskStruct} (out : (s.pc s.current).waiting = none)
      (tasks : s'.tasks = Function.update s.tasks s.current tsk) : False := by
    have away : p ≠ s.current := by
      rintro rfl
      cases out.symm.trans inside
    exact changes (by rw [tasks, Function.update_of_ne away])
  -- a task that leaves its wait loop has the bit already
  have leaves {call' : Call} {fd' : Nat} {tsk : TaskStruct} (pc : s.pc s.current = .wait call' fd')
      (bit : (s.tasks s.current).revents fd' &&& call'.event ≠ 0)
      (tasks : s'.tasks = Function.update s.tasks s.current tsk) : False := by
    have away : p ≠ s.current := by
      rintro rfl
      rw [pc] at inside
      obtain ⟨rfl, rfl⟩ := Prod.mk.inj (Option.some.inj inside)
      exact bit lacks
    exact changes (by rw [tasks, Function.update_of_ne away])
  obtain ⟨_, kind⟩ := step_cases taken
  cases kind with
  | create cid pc =>
    obtain ⟨_, _, same⟩ := coCreate_other cid (inv.notFresh alive)
    exact absurd (congrArg (fun tsk => tsk.revents fd) same) changes
  | sleep seconds pc => exact (other (by rw [pc]; rfl) rfl).elim
  | refused call' fd' granted tsk ctl pc => exact (other (by rw [pc]; rfl) rfl).elim
  | queued call' fd' granted tsk ctl links pc => exact (other (by rw [pc]; rfl) rfl).elim
  | ret pc notInit => exact (other (by rw [pc]; rfl) rfl).elim
  | released links pc more removed => exact (other (by rw [pc]; rfl) rfl).elim
  | writeFailed fd' granted pc bit failed => exact (leaves pc bit rfl).elim
  | writeEnd fd' granted pc bit ok => exact (leaves pc bit rfl).elim
  | waitAgain call' fd' granted pc waiting =>
    apply absurd _ changes
    by_cases own : p = s.current
    · subst own
      simp [State.goto, State.modify]
    · simp [State.goto, State.modify, Function.update_of_ne own]
  | handled ev rest q links pc first alive' removed =>
    have dequeued : p = q := by
      apply Classical.byContradiction
      intro different
      exact changes (by simp [State.goto, Function.update_of_ne different])
    subst dequeued
    have after : ((s.tasks p).dispatch ev).revents fd &&& call.event ≠ 0 := by
      simpa [State.goto] using received
    by_cases meets : ((s.tasks p).events ev.dataFd).events &&& ev.events ≠ 0
    · rw [TaskStruct.dispatch_meets meets] at after
      by_cases here : fd = ev.dataFd
      · subst here
        exact ⟨ev, rest, pc, rfl, by simpa using after, meets, first, removed⟩
      · exact absurd lacks (by simpa [Function.update_of_ne here] using after)
    · rw [TaskStruct.dispatch, if_neg meets] at after
      exact absurd lacks after
  | scheduled behind rounds picked q pc found =>
    have woken := (inv.picked pc found).woken
    apply absurd _ changes
    show (picked.tasks p).revents fd = (s.tasks p).revents fd
    rw [woken.fields p]
    rfl
  | _ => exact absurd rfl changes

/-- A task comes to handle events by receiving them from `epoll_wait`, or behind another
event. -/
theorem step_handles (inv : Integrity s) (taken : step s i = .ok s')
    (other : ∀ rounds, i ≠ .pick rounds) {events : List EpollEvent}
    (there : s'.pc s.current = .handle events) :
    (∃ reports, i = .ready (some reports) ∧ s.pc s.current = .epollWait ∧
      epollWait s.interest reports = some events) ∨
    ∃ ev, s.pc s.current = .handle (ev :: events) := by
  have moved {here : Pc} (pc : s'.pc = Function.update s.pc s.current here) :
      here = .handle events := by
    rw [← there, pc, Function.update_self]
  obtain ⟨_, kind⟩ := step_cases taken
  cases kind with
  | create cid pc =>
    obtain ⟨_, same, _⟩ := coCreate_other cid (inv.notFresh inv.seated.alive)
    cases there.symm.trans (same.trans pc)
  | close fd pc => cases there.symm.trans pc
  | released links pc => cases there.symm.trans pc
  | reported reports ev rest pc some =>
    cases moved rfl
    exact .inl ⟨reports, rfl, pc, some⟩
  | handled ev rest p links pc =>
    cases moved rfl
    exact .inr ⟨ev, pc⟩
  | scheduled behind rounds => exact absurd rfl (other rounds)
  | _ => cases moved rfl

/-- A task comes to its system call from a test that has found the awaited bit. -/
theorem step_through (inv : Integrity s) (taken : step s i = .ok s')
    (other : ∀ rounds, i ≠ .pick rounds) (there : s'.pc s.current = .syscall call fd) :
    s.pc s.current = .wait call fd ∧ (s.tasks s.current).revents fd &&& call.event ≠ 0 ∧
      (s'.tasks s.current).status = (s.tasks s.current).status := by
  have moved {here : Pc} (pc : s'.pc = Function.update s.pc s.current here) :
      here = .syscall call fd := by
    rw [← there, pc, Function.update_self]
  obtain ⟨_, kind⟩ := step_cases taken
  cases kind with
  | create cid pc =>
    obtain ⟨_, same, _⟩ := coCreate_other cid (inv.notFresh inv.seated.alive)
    cases there.symm.trans (same.trans pc)
  | close fd pc => cases there.symm.trans pc
  | released links pc => cases there.symm.trans pc
  | waitEnd call fd granted pc bit =>
    cases moved rfl
    exact ⟨pc, bit, rfl⟩
  | writeEnd fd granted pc bit =>
    cases moved rfl
    refine ⟨pc, bit, ?_⟩
    rw [coWriteDone_eq]
    simp [State.goto, State.registered, TaskStruct.narrow]
  | scheduled behind rounds => exact absurd rfl (other rounds)
  | _ => cases moved rfl

/-! ## Histories of waiting tasks -/

/-- What the history says of the waiting tasks and of a task before its system call. -/
structure Heeded (past : History) (s : State) : Prop where
  /-- A waiting task is in a call it has made. -/
  calling : ∀ p call fd, s.live p = true → (s.pc p).waiting = some (call, fd) →
    Calling p call fd past
  /-- A waiting task that has the awaited bit received it since the call began. -/
  delivered : ∀ p call fd, s.live p = true → (s.pc p).waiting = some (call, fd) →
    (s.tasks p).revents fd &&& call.event ≠ 0 → Delivered p call fd past
  /-- The events still to be handled were reported since the call of any waiting task began. -/
  polling : ∀ p call fd, s.live p = true → (s.pc p).waiting = some (call, fd) →
    ∀ events, s.pc s.current = .handle events → Polling p call fd s.current events past
  /-- A task whose test of the awaited bit succeeds is running. -/
  awake : ∀ call fd, s.pc s.current = .wait call fd →
    (s.tasks s.current).revents fd &&& call.event ≠ 0 →
    (s.tasks s.current).status = .running
  /-- A task before its system call received the awaited bit since the call began, and is
  running. -/
  through : ∀ call fd, s.pc s.current = .syscall call fd →
    Delivered s.current call fd past ∧ (s.tasks s.current).status = .running

/-- At the start of a thread nobody waits. -/
theorem Heeded.init (self : EnvPtr) (clock : Nat → Nat) :
    Heeded [] (State.init self clock) where
  calling _ _ _ _ inside := by cases inside
  delivered _ _ _ _ inside := by cases inside
  polling _ _ _ _ inside := by cases inside
  awake _ _ there := by cases there
  through _ _ there := by cases there

/-- Registering leaves the awaited bit cleared. -/
theorem Enters.lacks (enters : Enters s i s' call fd) :
    (s'.tasks s.current).revents fd &&& call.event = 0 := by
  obtain ⟨granted, tsk, ctl, _, _, registers, _, tasks, _⟩ := enters
  rw [tasks, Function.update_self]
  exact registers.lacks.2

namespace Heeded

/-- A step leaves waiting tasks in calls they have made. -/
theorem calling_step (heeded : Heeded past s) (inv : Integrity s) (taken : step s i = .ok s')
    (alive : s'.live p = true) (inside : (s'.pc p).waiting = some (call, fd)) :
    Calling p call fd (⟨s, i, s'⟩ :: past) := by
  rcases step_waiting inv taken alive inside with ⟨before, waits⟩ | ⟨rfl, enters⟩
  · exact .waits _ past (heeded.calling p call fd before waits) waits
  · obtain ⟨granted, _, _, call, _, _, _, _, _, pc⟩ := enters
    refine .calls _ past granted call rfl ?_
    rw [pc, Function.update_self]

/-- A step leaves waiting tasks with bits received since their calls began. -/
theorem delivered_step (heeded : Heeded past s) (inv : Integrity s)
    (taken : step s i = .ok s') (alive : s'.live p = true)
    (inside : (s'.pc p).waiting = some (call, fd))
    (received : (s'.tasks p).revents fd &&& call.event ≠ 0) :
    Delivered p call fd (⟨s, i, s'⟩ :: past) := by
  rcases step_waiting inv taken alive inside with ⟨before, waits⟩ | ⟨rfl, enters⟩
  · by_cases lacks : (s.tasks p).revents fd &&& call.event = 0
    · obtain ⟨ev, rest, handles, name, contains, _, first, removed⟩ :=
        step_received inv taken before waits lacks received
      have polled := heeded.polling p call fd before waits _ handles
      exact .handles _ past s.current ev rest polled waits rfl handles name
        (call.event_of_meets contains) first removed
    · exact .waits _ past (heeded.delivered p call fd before waits lacks) waits
  · exact absurd enters.lacks received

/-- The events `epoll_wait` returns are what is reported for the descriptors they name. -/
theorem reports_of_epollWait (named : Named s) {reports : List (Nat × Mask)}
    {events : List EpollEvent} (polled : epollWait s.interest reports = some events) :
    ∀ ev ∈ events, (ev.dataFd, ev.events) ∈ reports := by
  unfold epollWait at polled
  split at polled
  · rename_i may
    obtain rfl := Option.some.inj polled
    intro ev member
    obtain ⟨report, reported, rfl⟩ := List.mem_map.mp member
    obtain ⟨entry, present⟩ := mayReport_registered (may.2.2 report reported)
    simp only [present, Option.elim_some, named.entries _ _ present]
    exact reported
  · cases polled

/-- A step leaves events to be handled that were reported since the calls of waiting tasks
began. -/
theorem polling_step (heeded : Heeded past s) (inv : Integrity s) (suspended : Suspended s)
    (named : Named s) (taken : step s i = .ok s') (alive : s'.live p = true)
    (inside : (s'.pc p).waiting = some (call, fd)) {events : List EpollEvent}
    (handles : s'.pc s'.current = .handle events) :
    Polling p call fd s'.current events (⟨s, i, s'⟩ :: past) := by
  have other := suspended.notSwitched inv taken (by rw [handles]; exact id)
  rw [(step_cases taken).2.current other] at handles ⊢
  rcases step_waiting inv taken alive inside with ⟨before, waits⟩ | ⟨rfl, enters⟩
  · rcases step_handles inv taken other handles with ⟨reports, rfl, pc, polled⟩ | ⟨ev, pc⟩
    · exact .polls _ past reports events (heeded.calling p call fd before waits) waits rfl pc rfl
        polled (reports_of_epollWait named polled)
    · exact .handles _ past ev events (heeded.polling p call fd before waits _ pc) waits rfl pc
  · rw [handles] at inside
    cases inside

/-- A step leaves a task whose test will succeed running. -/
theorem awake_step (inv : Integrity s) (taken : step s i = .ok s')
    (there : s'.pc s'.current = .wait call fd)
    (received : (s'.tasks s'.current).revents fd &&& call.event ≠ 0) :
    (s'.tasks s'.current).status = .running := by
  rcases i.switches with ⟨rounds, rfl⟩ | other
  · exact step_pick inv taken
  rw [(step_cases taken).2.current other] at there received ⊢
  cases step_own inv taken other with
  | aside waits =>
    rw [there] at waits
    cases waits
  | enters call' fd' granted before entered =>
    cases there.symm.trans entered
    exact absurd (enters_of_pc taken there).lacks received
  | again call' fd' granted before lacks entered => cases there.symm.trans entered
  | starts before entered => cases there.symm.trans entered
  | loops before loops =>
    rw [there] at loops
    exact loops.elim

/-- A step leaves a task before its system call running, with the bit received since the call
began. -/
theorem through_step (heeded : Heeded past s) (inv : Integrity s) (suspended : Suspended s)
    (taken : step s i = .ok s') (there : s'.pc s'.current = .syscall call fd) :
    Delivered s'.current call fd (⟨s, i, s'⟩ :: past) ∧
      (s'.tasks s'.current).status = .running := by
  have other := suspended.notSwitched inv taken (by rw [there]; exact id)
  rw [(step_cases taken).2.current other] at there ⊢
  obtain ⟨pc, bit, same⟩ := step_through inv taken other there
  have waits : (s.pc s.current).waiting = some (call, fd) := by
    rw [pc]
    rfl
  constructor
  · exact .waits _ past (heeded.delivered _ call fd inv.seated.alive waits bit) waits
  · rw [same]
    exact heeded.awake call fd pc bit

/-- Every step keeps what the history says. -/
theorem step (heeded : Heeded past s) (inv : Integrity s) (suspended : Suspended s)
    (named : Named s) (taken : LibcoLite.step s i = .ok s') :
    Heeded (⟨s, i, s'⟩ :: past) s' where
  calling _ _ _ alive inside := heeded.calling_step inv taken alive inside
  delivered _ _ _ alive inside received := heeded.delivered_step inv taken alive inside received
  polling _ _ _ alive inside _ handles :=
    heeded.polling_step inv suspended named taken alive inside handles
  awake _ _ there received := awake_step inv taken there received
  through _ _ there := heeded.through_step inv suspended taken there

end Heeded

/-- In every run the history heeds the waiting tasks. -/
theorem heeded_of_run (run : ThreadRun self clock past s) : Heeded past s := by
  induction run with
  | start => exact .init self clock
  | move before taken ih =>
    exact ih.step (integrity_of_run before) (suspended_of_run before) (named_of_run before) taken

/-! ## System calls -/

/-- A coroutine reads from a descriptor on which input arrives, and comes to its system call. -/
def freshRead : List Input :=
  [.create none, .eventloop, .ready (some []), .pick 1, .io .read 3 true, .ctl true, .pick 1,
    .ready (some [(3, epollIn)]), .run, .run, .pick 1, .ctl true]

end LibcoLite
