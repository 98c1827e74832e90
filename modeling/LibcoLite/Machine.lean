import LibcoLite.Sched
import LibcoLite.Coroutine
import LibcoLite.Cosyscall
import LibcoLite.Coeventloop

/-!
# Runs of one thread

Control passes between the coroutines of a thread only where a library function calls
`schedule`, so the thread takes one step of its current task after the other. An input
resolves what the library does not decide: which call the task's own code makes next,
whether the kernel grants an `epoll_ctl`, which events `epoll_wait` reports, and how many
rounds `pick` is followed. The stack of a coroutine lies in its task block, so a step of a
freed task is an access after `free`.
-/

namespace LibcoLite

/-- What the environment decides about a step. -/
inductive Input where
  /-- The task's code calls `co_create`, passing the variable for the id or null. -/
  | create (cid : Option Int)
  /-- The task's code calls `co_join`. -/
  | join (cid : Nat)
  /-- The task's code calls `co_sleep`. -/
  | sleep (seconds : Int)
  /-- The task's code makes a blocking call, whose `epoll_ctl` the kernel grants or not. -/
  | io (call : Call) (fd : Nat) (granted : Bool)
  /-- The task's code calls `co_eventloop`. -/
  | eventloop
  /-- The task's code closes a descriptor. -/
  | close (fd : Nat)
  /-- The task's `start_routine` returns. -/
  | ret
  /-- The library goes on by itself. -/
  | run
  /-- A wait loop goes on, and the kernel grants the `epoll_ctl` behind it or not. -/
  | ctl (granted : Bool)
  /-- `epoll_wait` fails, or reports descriptors with event bits. -/
  | ready (reports : Option (List (Nat × Mask)))
  /-- `pick` is followed for a number of rounds. -/
  | pick (rounds : Nat)
deriving DecidableEq, Repr

/-- An input is a switch or it is not. -/
theorem Input.switches (i : Input) :
    (∃ rounds, i = .pick rounds) ∨ ∀ rounds, i ≠ .pick rounds := by
  by_cases switches : ∃ rounds, i = .pick rounds
  · exact .inl switches
  · exact .inr (not_exists.mp switches)

/-- One step of the current task. -/
def step (s : State) (i : Input) : Except Stop State :=
  if s.live s.current then
    match s.pc s.current, i with
    | .user, .create cid => .ok (coCreate cid s).1
    | .user, .join cid => .ok (s.goto (.join cid))
    | .user, .sleep seconds => .ok ((coSleep seconds s).goto (.schedule .user))
    | .user, .io call fd granted => coCall call fd granted s
    | .user, .eventloop => .ok (s.goto .epollWait)
    | .user, .close fd => .ok { s with interest := Function.update s.interest fd none }
    | .user, .ret =>
      -- only coroutines run on `start`; the initial task returns from the thread
      if s.current = initTask then .error .exited else .ok ((startExit s).goto .cleanup)
    | .join cid, .run => do
      let (s, ended) ← coJoin cid s
      if ended then .ok (s.goto .user) else .ok (s.goto (.schedule (.join cid)))
    | .wait call fd, .ctl granted => .ok (coWait call fd granted s)
    | .syscall _ _, .run => .ok (s.goto .user)
    | .epollWait, .ready none => .error .exited
    | .epollWait, .ready (some reports) =>
      match epollWait s.interest reports with
      | none => .error .disabled
      | some [] => .ok (s.goto (.schedule .epollWait))
      | some (ev :: rest) => .ok (s.goto (.handle (ev :: rest)))
    | .handle [], .run => .ok (s.goto (.schedule .epollWait))
    | .handle (ev :: rest), .run => do
      let s ← handleEvent ev s
      .ok (s.goto (.handle rest))
    | .cleanup, .run => do
      let (s, again) ← startCleanup s
      if again then .ok s else .ok (s.goto (.schedule .finished))
    | .finished, .run => .error .exited
    | .schedule behind, .pick rounds => schedule rounds (s.goto behind)
    | _, _ => .error .disabled
  else .error (.fault .freed)

/-- The descriptor an input passes to a blocking call. -/
def Input.descriptor : Input → Option Nat
  | .io _ fd _ => some fd
  | _ => none

/-- The steps a thread has taken, latest first. -/
abbrev History := List (Transition.Move State Input)

/-- A thread gets from its first library call, with any clock, to a state. -/
abbrev ThreadRun (self : EnvPtr) (clock : Nat → Nat) : History → State → Prop :=
  Transition.Run step (State.init self clock)

/-- A move passes only positive descriptors that fit the arrays to blocking calls. -/
def InRange (move : Transition.Move State Input) : Prop :=
  ∀ fd ∈ move.input.descriptor, 0 < fd ∧ fd < maxFd

instance (move : Transition.Move State Input) : Decidable (InRange move) :=
  inferInstanceAs (Decidable (∀ fd ∈ move.input.descriptor, 0 < fd ∧ fd < maxFd))

/-! ## What a step does -/

/-- The kinds of steps, each with its guards and the state it leaves. -/
inductive StepCases (s : State) : Input → State → Prop where
  /-- `co_create` is called. -/
  | create (cid : Option Int) : s.pc s.current = .user →
      StepCases s (.create cid) (coCreate cid s).1
  /-- `co_join` is called. -/
  | join (cid : Nat) : s.pc s.current = .user → StepCases s (.join cid) (s.goto (.join cid))
  /-- `co_sleep` is called. -/
  | sleep (seconds : Int) : s.pc s.current = .user →
      StepCases s (.sleep seconds) ((coSleep seconds s).goto (.schedule .user))
  /-- A blocking call is made and fails in `add_queue`. -/
  | refused (call : Call) (fd : Nat) (granted : Bool) (tsk : TaskStruct)
      (ctl : (Nat → Option EpollEvent) × Int) : s.pc s.current = .user → fd < maxFd →
      Registers fd call.event granted s tsk ctl → ctl.2 < 0 →
      StepCases s (.io call fd granted) ((s.registered tsk ctl.1).goto .user)
  /-- A blocking call is made and the task is queued. -/
  | queued (call : Call) (fd : Nat) (granted : Bool) (tsk : TaskStruct)
      (ctl : (Nat → Option EpollEvent) × Int) (links : TailQueue.Links Nat TaskPtr) :
      s.pc s.current = .user → fd < maxFd → Registers fd call.event granted s tsk ctl →
      ¬ctl.2 < 0 → s.links.insertTail s.live fd s.current = .ok links →
      StepCases s (.io call fd granted)
        (State.goto { s.registered tsk ctl.1 with links } (.wait call fd))
  /-- `co_eventloop` is called. -/
  | eventloop : s.pc s.current = .user → StepCases s .eventloop (s.goto .epollWait)
  /-- A descriptor is closed. -/
  | close (fd : Nat) : s.pc s.current = .user →
      StepCases s (.close fd) { s with interest := Function.update s.interest fd none }
  /-- A coroutine's `start_routine` returns. -/
  | ret : s.pc s.current = .user → s.current ≠ initTask →
      StepCases s .ret ((startExit s).goto .cleanup)
  /-- The joined task has not exited. -/
  | joinAgain (cid : Nat) (p : TaskPtr) : s.pc s.current = .join cid → cid < nrTasks →
      s.task cid = some p → s.live p = true → (s.tasks p).status ≠ .exit →
      StepCases s .run (s.goto (.schedule (.join cid)))
  /-- The joined task has exited and is reclaimed. -/
  | joinEnd (cid : Nat) (p : TaskPtr) : s.pc s.current = .join cid → cid < nrTasks →
      s.task cid = some p → s.live p = true → (s.tasks p).status = .exit →
      StepCases s .run (State.goto { s.free p with
        task := Function.update s.task cid none
        taskCount := s.taskCount - 1 } .user)
  /-- The awaited bit has not been received. -/
  | waitAgain (call : Call) (fd : Nat) (granted : Bool) : s.pc s.current = .wait call fd →
      (s.tasks s.current).revents fd &&& call.event = 0 →
      StepCases s (.ctl granted)
        ((s.modify s.current fun tsk => { tsk with status := .wait }).goto
          (.schedule (.wait call fd)))
  /-- The awaited bit of `co_accept` or `co_read` has been received. -/
  | waitEnd (call : Call) (fd : Nat) (granted : Bool) : s.pc s.current = .wait call fd →
      (s.tasks s.current).revents fd &&& call.event ≠ 0 → call ≠ .write →
      StepCases s (.ctl granted) (s.goto (.syscall call fd))
  /-- The awaited bit of `co_write` has been received, and its `epoll_ctl` fails. -/
  | writeFailed (fd : Nat) (granted : Bool) : s.pc s.current = .wait .write fd →
      (s.tasks s.current).revents fd &&& epollOut ≠ 0 → (coWriteDone fd granted s).2 < 0 →
      StepCases s (.ctl granted) ((coWriteDone fd granted s).1.goto .user)
  /-- The awaited bit of `co_write` has been received, and its `epoll_ctl` succeeds. -/
  | writeEnd (fd : Nat) (granted : Bool) : s.pc s.current = .wait .write fd →
      (s.tasks s.current).revents fd &&& epollOut ≠ 0 → ¬(coWriteDone fd granted s).2 < 0 →
      StepCases s (.ctl granted) ((coWriteDone fd granted s).1.goto (.syscall .write fd))
  /-- A blocking call performs its system call and returns. -/
  | syscall (call : Call) (fd : Nat) : s.pc s.current = .syscall call fd →
      StepCases s .run (s.goto .user)
  /-- `epoll_wait` reports nothing. -/
  | timeout (reports : List (Nat × Mask)) : s.pc s.current = .epollWait →
      epollWait s.interest reports = some [] →
      StepCases s (.ready (some reports)) (s.goto (.schedule .epollWait))
  /-- `epoll_wait` reports some events. -/
  | reported (reports : List (Nat × Mask)) (ev : EpollEvent) (rest : List EpollEvent) :
      s.pc s.current = .epollWait → epollWait s.interest reports = some (ev :: rest) →
      StepCases s (.ready (some reports)) (s.goto (.handle (ev :: rest)))
  /-- An event is handled. -/
  | handled (ev : EpollEvent) (rest : List EpollEvent) (p : TaskPtr)
      (links : TailQueue.Links Nat TaskPtr) : s.pc s.current = .handle (ev :: rest) →
      s.links.first ev.dataFd = some p → s.live p = true →
      s.links.remove s.live ev.dataFd p = .ok links →
      StepCases s .run (State.goto { s with
        links
        tasks := Function.update s.tasks p ((s.tasks p).dispatch ev) } (.handle rest))
  /-- All events are handled. -/
  | drained : s.pc s.current = .handle [] → StepCases s .run (s.goto (.schedule .epollWait))
  /-- An exiting task takes back a descriptor. -/
  | released (links : TailQueue.Links Nat TaskPtr) : s.pc s.current = .cleanup →
      0 < (s.tasks s.current).fdsIdx →
      s.links.remove s.live (s.tasks s.current).lastFd s.current = .ok links →
      StepCases s .run { s with
        links
        tasks := Function.update s.tasks s.current
          { s.tasks s.current with fdsIdx := (s.tasks s.current).fdsIdx - 1 }
        interest := Function.update s.interest (s.tasks s.current).lastFd none }
  /-- An exiting task has no descriptor left. -/
  | cleaned : s.pc s.current = .cleanup → (s.tasks s.current).fdsIdx = 0 →
      StepCases s .run (s.goto (.schedule .finished))
  /-- `schedule` switches to the task `pick` returns. -/
  | scheduled (behind : Pc) (rounds : Nat) (picked : State) (p : TaskPtr) :
      s.pc s.current = .schedule behind → pick rounds (s.goto behind) = .ok (picked, p) →
      picked.live p = true → (picked.tasks p).threadEnv = some picked.self →
      StepCases s (.pick rounds) { picked with current := p }

open Transition (bind_eq_ok)

/-- A switch makes the next task, a live task of the same environment, the current one. -/
theorem coSwitchTo_ok {s s' : State} {p : TaskPtr} (done : coSwitchTo s p = .ok s') :
    s.live p = true ∧ (s.tasks p).threadEnv = some s.self ∧ s' = { s with current := p } := by
  obtain ⟨tsk, found, done⟩ := bind_eq_ok.mp done
  obtain ⟨alive, rfl⟩ := State.deref_ok.mp found
  split at done
  · rename_i own
    refine ⟨alive, own, ?_⟩
    split at done
    · rename_i same
      rw [← Except.ok.inj done, ← same]
    · exact (Except.ok.inj done).symm
  · contradiction

/-- Every step is of one of the kinds, taken by a live current task. -/
theorem step_cases {s s' : State} {i : Input} (taken : step s i = .ok s') :
    s.live s.current = true ∧ StepCases s i s' := by
  unfold step at taken
  split at taken
  case isFalse => contradiction
  rename_i alive
  refine ⟨alive, ?_⟩
  split at taken
  case h_1 cid pc => cases taken; exact .create cid pc
  case h_2 cid pc => cases taken; exact .join cid pc
  case h_3 seconds pc => cases taken; exact .sleep seconds pc
  case h_4 call fd granted pc =>
    unfold coCall at taken
    split at taken
    · rename_i bound
      obtain ⟨⟨after, ret⟩, added, taken⟩ := bind_eq_ok.mp taken
      obtain ⟨tsk, ctl, registers, ⟨failed, rfl, rfl⟩ | ⟨ok, rfl, links, inserted, rfl⟩⟩ :=
        addQueue_cases added
      · simp only [failed, ↓reduceIte] at taken
        cases taken
        exact .refused call fd granted tsk ctl pc bound registers failed
      · cases taken
        exact .queued call fd granted tsk ctl links pc bound registers ok inserted
    · contradiction
  case h_5 pc => cases taken; exact .eventloop pc
  case h_6 fd pc => cases taken; exact .close fd pc
  case h_7 pc =>
    split at taken
    · contradiction
    · rename_i notInit
      cases taken
      exact .ret pc notInit
  case h_8 cid pc =>
    obtain ⟨⟨after, ended⟩, joined, went⟩ := bind_eq_ok.mp taken
    obtain ⟨p, bound, slot, live, ⟨more, rfl, rfl⟩ | ⟨exited, rfl, rfl⟩⟩ := coJoin_cases joined
    · cases went
      exact .joinAgain cid p pc bound slot live more
    · cases went
      exact .joinEnd cid p pc bound slot live exited
  case h_9 call fd granted pc =>
    unfold coWait at taken
    split at taken
    · rename_i waiting
      cases taken
      exact .waitAgain call fd granted pc waiting
    · rename_i received
      split at taken
      · rename_i write
        subst write
        dsimp only at taken
        split at taken
        · rename_i failed
          cases taken
          exact .writeFailed fd granted pc received failed
        · rename_i ok
          cases taken
          exact .writeEnd fd granted pc received ok
      · rename_i other
        cases taken
        exact .waitEnd call fd granted pc received other
  case h_10 call fd pc => cases taken; exact .syscall call fd pc
  case h_11 => contradiction
  case h_12 reports pc =>
    split at taken
    · contradiction
    · rename_i none
      cases taken
      exact .timeout reports pc none
    · rename_i ev rest some
      cases taken
      exact .reported reports ev rest pc some
  case h_13 pc => cases taken; exact .drained pc
  case h_14 ev rest pc =>
    obtain ⟨after, handled, taken⟩ := bind_eq_ok.mp taken
    obtain ⟨p, links, first, live, removed, rfl⟩ := handleEvent_cases handled
    cases taken
    exact .handled ev rest p links pc first live removed
  case h_15 pc =>
    obtain ⟨⟨after, again⟩, cleaned, went⟩ := bind_eq_ok.mp taken
    rcases startCleanup_cases cleaned with ⟨more, rfl, links, removed, rfl⟩ | ⟨none, rfl, rfl⟩
    · cases went
      exact .released links pc more removed
    · cases went
      exact .cleaned pc none
  case h_16 => contradiction
  case h_17 behind rounds pc =>
    obtain ⟨⟨picked, p⟩, found, taken⟩ := bind_eq_ok.mp taken
    obtain ⟨live, own, rfl⟩ := coSwitchTo_ok taken
    exact .scheduled behind rounds picked p pc found live own
  case h_18 => contradiction

end LibcoLite
