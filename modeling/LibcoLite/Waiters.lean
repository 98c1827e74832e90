import LibcoLite.Control
import LibcoLite.Events
import LibcoLite.Fairness

/-!
# Waiting tasks are queued

`co_eventloop` dequeues a task before it compares the reported bits with the task's record,
and the wait loops do not queue a task again. So a waiting task stays queued as long as
every event it is dequeued for meets its record and contains the bit it waits for. Such a
task is then scheduled before the event loop: between the two, it keeps its turn.
-/

namespace LibcoLite

open TailQueue Cycle
open Transition (Along Move Run)

/-- A task that left its queue with the bit it waits for. -/
structure Ready (s : State) (p : TaskPtr) (call : Call) (fd : Nat) : Prop where
  /-- It is before the test of its wait loop. -/
  inside : s.pc p = .wait call fd
  /-- It is running. -/
  status : (s.tasks p).status = .running
  /-- The awaited bit has been received. -/
  received : (s.tasks p).revents fd &&& call.event ≠ 0

/-- A move runs `co_eventloop` in the given task only. -/
def LoopsIn (looper : TaskPtr) (move : Move State Input) : Prop :=
  move.input = .eventloop → move.before.current = looper

instance (looper : TaskPtr) (move : Move State Input) : Decidable (LoopsIn looper move) :=
  inferInstanceAs (Decidable (move.input = .eventloop → move.before.current = looper))

/-- When a move handles an event, the first task of the queue has recorded one of the reported
bits, and the bit it waits for is reported. -/
def delivers (move : Move State Input) : Bool :=
  match move.before.pc move.before.current with
  | .handle (ev :: _) =>
    match move.before.links.first ev.dataFd with
    | some p =>
      match (move.before.pc p).waiting with
      | some (call, fd) =>
        ((move.before.tasks p).events fd).events &&& ev.events ≠ 0 ∧ ev.events &&& call.event ≠ 0
      | none => false
    | none => true
  | _ => true

/-- Waiting tasks are queued or ready, and the ready ones come before the event loop. -/
structure Served (looper : TaskPtr) (queue : Nat → List TaskPtr) (s : State) : Prop where
  /-- Only the current task is about to call `schedule`. -/
  rests : ∀ p, s.live p = true → p ≠ s.current → (s.pc p).resting
  /-- Behind a call of `schedule` comes none. -/
  behind : ∀ pc, s.pc s.current = .schedule pc → pc.resting
  /-- One task runs the event loop. -/
  loops : ∀ p, s.live p = true → (s.pc p).looping → p = looper
  /-- A task in a wait loop is queued or ready. -/
  waits : ∀ p call fd, s.live p = true → (s.pc p).waiting = some (call, fd) →
    p ∈ queue fd ∨ Ready s p call fd
  /-- A ready task is scheduled before the event loop calls `epoll_wait`. -/
  turn : ∀ p call fd, s.live p = true → p ≠ s.current → Ready s p call fd →
    s.live looper = true ∧ (s.pc looper).looping ∧
    (s.current = looper → s.pc looper ≠ .epollWait) ∧
    ahead nrTasks (s.tasks s.current).id (s.tasks p).id <
      ahead nrTasks (s.tasks s.current).id (s.tasks looper).id

namespace Served

variable {looper : TaskPtr} {owner : Nat → TaskPtr} {queue queue' : Nat → List TaskPtr}
  {s s' : State}

/-- At the start of a thread nobody waits. -/
theorem init (self : EnvPtr) (clock : Nat → Nat) :
    Served looper (fun _ => []) (State.init self clock) where
  rests _ _ _ := trivial
  behind _ := by simp [State.init]
  loops _ _ := by simp [State.init, Pc.looping]
  waits _ _ _ _ := by simp [State.init, Pc.waiting]
  turn _ _ _ _ _ ready := by cases ready.inside

/-- Queued tasks stay queued, unless they are dequeued for an event. -/
theorem stays_queued (queueing : Queueing queue s) (sole : Sole owner queue s) {i : Input}
    (changed : QueueStep queue s i s' queue') {fd : Nat} {p : TaskPtr} (member : p ∈ queue fd)
    (unhandled : ∀ ev rest, s.pc s.current = .handle (ev :: rest) →
      s.links.first ev.dataFd ≠ some p) : p ∈ queue' fd := by
  cases changed with
  | keeps => exact member
  | appends call fd' granted =>
    by_cases here : fd = fd'
    · subst here; simp [member]
    · rwa [Function.update_of_ne here]
  | removes ev rest q behind pc shape =>
    by_cases here : fd = ev.dataFd
    · subst here
      rw [shape] at member
      have first := queueing.spells.first_eq ev.dataFd
      rw [shape] at first
      rcases List.mem_cons.mp member with rfl | member
      · exact absurd first (unhandled ev rest pc)
      · simpa using member
    · rwa [Function.update_of_ne here]
  | clears head releases next prev links => rwa [sole.clears queueing releases prev]
  | cuts head first rest after releases next => cases (sole.next s.current).symm.trans next

/-- A dequeued task whose event delivers becomes ready. -/
theorem ready_of_delivers (served : Served looper queue s) (queueing : Queueing queue s)
    {i : Input} (taken : step s i = .ok s') (delivered : delivers ⟨s, i, s'⟩ = true)
    {ev : EpollEvent} {rest : List EpollEvent} (pc : s.pc s.current = .handle (ev :: rest))
    {p : TaskPtr} (first : s.links.first ev.dataFd = some p) (away : p ≠ s.current)
    (same : s'.pc p = s.pc p) :
    ∃ call, Ready s' p call ev.dataFd := by
  have lead := queueing.spells.first_eq ev.dataFd
  rw [first] at lead
  obtain ⟨alive, call, blocked⟩ := queueing.members _ p (List.mem_of_head? lead.symm)
  have meets : ((s.tasks p).events ev.dataFd).events &&& ev.events ≠ 0 ∧
      ev.events &&& call.event ≠ 0 := by
    simpa [delivers, pc, first, blocked.inside] using delivered
  obtain ⟨_, q, first', _, tasks, _⟩ := step_handled taken pc
  obtain rfl := Option.some.inj (first.symm.trans first')
  rw [TaskStruct.dispatch_meets meets.1] at tasks
  refine ⟨call, same.trans (Pc.resting_wait (served.rests p alive away) blocked.inside), ?_, ?_⟩
  · rw [tasks, Function.update_self]
  · rw [tasks, Function.update_self]
    simpa using meets.2

/-- A ready task stays ready until it is scheduled; it is in no queue to be dequeued from. -/
theorem stays_ready (queueing : Queueing queue s) {p : TaskPtr} {call : Call} {fd : Nat}
    (ready : Ready s p call fd) (pc : s'.pc p = s.pc p)
    (tasks : s'.tasks p = s.tasks p ∨ ∃ ev rest,
      s.pc s.current = .handle (ev :: rest) ∧ s.links.first ev.dataFd = some p) :
    Ready s' p call fd := by
  rcases tasks with same | ⟨ev, rest, _, first⟩
  · exact ⟨pc.trans ready.inside, by rw [same]; exact ready.status,
      by rw [same]; exact ready.received⟩
  · rw [queueing.spells.first_eq] at first
    obtain ⟨_, _, blocked⟩ := queueing.members _ p (List.mem_of_head? first)
    cases blocked.status.symm.trans ready.status

/-- Steps other than a switch keep waiting tasks queued or ready. -/
theorem waits_advance (served : Served looper queue s) (queueing : Queueing queue s)
    (sole : Sole owner queue s) (inv : Integrity s) {i : Input}
    (taken : step s i = .ok s') (other : ∀ rounds, i ≠ .pick rounds)
    (delivered : delivers ⟨s, i, s'⟩ = true) (changed : QueueStep queue s i s' queue')
    {p : TaskPtr} {call : Call} {fd : Nat} (alive : s'.live p = true)
    (inside : (s'.pc p).waiting = some (call, fd)) :
    p ∈ queue' fd ∨ Ready s' p call fd := by
  by_cases away : p = s.current
  · subst away
    cases step_own inv taken other with
    | aside waits => cases waits.symm.trans inside
    | enters call' fd' granted before there =>
      rw [there] at inside
      obtain ⟨rfl, rfl⟩ := Prod.mk.inj (Option.some.inj inside)
      cases changed with
      | keeps last fields out called => cases there.symm.trans (called (by simp [Input.descriptor]))
      | appends => exact .inl (by simp)
    | again call' fd' granted before lacks there =>
      rw [there] at inside
      obtain ⟨rfl, rfl⟩ := Prod.mk.inj (Option.some.inj inside)
      rcases served.waits s.current call' fd' inv.seated.alive (by rw [before]; rfl) with
        member | ready
      · exact .inl (stays_queued queueing sole changed member
          (Queueing.unhandled (by simp [before])))
      · exact absurd lacks ready.received
    | starts before there => rw [there] at inside; cases inside
    | loops before loops => cases (Pc.waiting_of_looping loops).symm.trans inside
  · rcases step_others inv taken other away alive with ⟨_, user⟩ | ⟨before, same, tasks⟩
    · rw [user] at inside; cases inside
    · rw [same] at inside
      rcases served.waits p call fd before inside with member | ready
      · by_cases handled : ∃ ev rest, s.pc s.current = .handle (ev :: rest) ∧
            s.links.first ev.dataFd = some p
        · obtain ⟨ev, rest, pc, first⟩ := handled
          obtain ⟨call', ready⟩ :=
            served.ready_of_delivers queueing taken delivered pc first away same
          have here := same.symm.trans ready.inside
          rw [here] at inside
          obtain ⟨rfl, rfl⟩ := Prod.mk.inj (Option.some.inj inside)
          exact .inr ready
        · exact .inl (stays_queued queueing sole changed member fun ev rest pc first =>
            handled ⟨ev, rest, pc, first⟩)
      · exact .inr (stays_ready queueing ready same tasks)

/-- Steps other than a switch keep the turns of ready tasks. -/
theorem turn_advance (served : Served looper queue s) (inv : Integrity s) {i : Input}
    (taken : step s i = .ok s') (other : ∀ rounds, i ≠ .pick rounds) {p : TaskPtr} {call : Call}
    {fd : Nat}
    (alive : s'.live p = true) (away : p ≠ s.current) (ready : Ready s' p call fd) :
    s'.live looper = true ∧ (s'.pc looper).looping ∧
    (s.current = looper → s'.pc looper ≠ .epollWait) ∧
    ahead nrTasks (s'.tasks s.current).id (s'.tasks p).id <
      ahead nrTasks (s'.tasks s.current).id (s'.tasks looper).id := by
  have own := step_own inv taken other
  rcases step_others inv taken other away alive with ⟨_, user⟩ | ⟨before, same, tasks⟩
  · cases user.symm.trans ready.inside
  -- a task that loops goes on living and looping
  have loopLives (live : s.live looper = true) (loops : (s.pc looper).looping) :
      s'.live looper = true := by
    refine step_live inv taken live fun exited => ?_
    exact Pc.exiting_of_looping loops (inv.exits looper live exited)
  have goesOn (loops : (s.pc s.current).looping) :
      (s'.pc s.current).looping ∧ s'.pc s.current ≠ .epollWait := by
    cases own with
    | aside waits out before => exact absurd loops before
    | enters call fd granted before => exact absurd loops before
    | again call fd granted before => rw [before] at loops; exact absurd loops id
    | starts before => exact absurd loops before
    | loops _ loops moves => exact ⟨loops, moves⟩
  by_cases handled : ∃ ev rest, s.pc s.current = .handle (ev :: rest) ∧
      s.links.first ev.dataFd = some p
  · -- the event loop itself is the current task, and everyone comes before it
    obtain ⟨ev, rest, pc, first⟩ := handled
    have loops : (s.pc s.current).looping := by rw [pc]; trivial
    obtain rfl := served.loops s.current inv.seated.alive loops
    refine ⟨loopLives inv.seated.alive loops, (goesOn loops).1, fun _ => (goesOn loops).2, ?_⟩
    have inv' := inv.step taken
    have held := inv'.housed p alive
    have heldLoop := inv'.housed s.current (loopLives inv.seated.alive loops)
    have different : (s'.tasks p).id ≠ (s'.tasks s.current).id := fun same =>
      away (Option.some.inj (held.symm.trans (same ▸ heldLoop)))
    rw [ahead_self]
    exact ahead_lt (inv'.slots _ _ heldLoop).1 (inv'.slots _ _ held).1 different
  · have kept : s'.tasks p = s.tasks p := tasks.resolve_right handled
    have readyBefore : Ready s p call fd := ⟨same.symm.trans ready.inside,
      by rw [← kept]; exact ready.status, by rw [← kept]; exact ready.received⟩
    obtain ⟨live, loops, notPolling, nearer⟩ := served.turn p call fd before away readyBefore
    have stillLive := loopLives live loops
    have stillLoops : (s'.pc looper).looping ∧
        (s.current = looper → s'.pc looper ≠ .epollWait) := by
      by_cases own : looper = s.current
      · subst own
        exact ⟨(goesOn loops).1, fun _ => (goesOn loops).2⟩
      · rcases step_others inv taken other own stillLive with ⟨dead, _⟩ | ⟨_, same, _⟩
        · cases dead.symm.trans live
        · exact ⟨same ▸ loops, fun here => absurd here.symm own⟩
    refine ⟨stillLive, stillLoops.1, stillLoops.2, ?_⟩
    rw [step_id inv taken inv.seated.alive, step_id inv taken before, step_id inv taken live]
    exact nearer

/-- Steps other than a switch keep waiting tasks queued or ready, and their turns. -/
theorem advance (served : Served looper queue s) (queueing : Queueing queue s)
    (sole : Sole owner queue s) (inv : Integrity s) {i : Input}
    (taken : step s i = .ok s') (other : ∀ rounds, i ≠ .pick rounds)
    (looping : LoopsIn looper ⟨s, i, s'⟩) (delivered : delivers ⟨s, i, s'⟩ = true)
    (changed : QueueStep queue s i s' queue') : Served looper queue' s' := by
  have own := step_own inv taken other
  obtain ⟨currentAlive, kind⟩ := step_cases taken
  have current := kind.current other
  constructor
  · intro p alive away
    rw [current] at away
    rcases step_others inv taken other away alive with ⟨_, user⟩ | ⟨before, same, _⟩
    · rw [user]; trivial
    · rw [same]; exact served.rests p before away
  · intro behind pc
    rw [current] at pc
    cases own with
    | aside waits loops before rests => exact rests behind pc
    | enters call fd granted before there => cases there.symm.trans pc
    | again call fd granted before lacks there =>
      obtain rfl := Pc.schedule.inj (there.symm.trans pc)
      trivial
    | starts before there => cases there.symm.trans pc
    | loops before loops moves rests =>
      rw [rests behind pc]
      trivial
  · intro p alive loops
    by_cases away : p = s.current
    · subst away
      cases own with
      | aside waits out before rests => exact absurd loops out
      | enters call fd granted before there => rw [there] at loops; exact absurd loops id
      | again call fd granted before lacks there => rw [there] at loops; exact absurd loops id
      | starts before there => exact looping rfl
      | loops before _ moves rests => exact served.loops _ currentAlive before
    · rcases step_others inv taken other away alive with ⟨_, user⟩ | ⟨before, same, _⟩
      · rw [user] at loops; exact absurd loops id
      · rw [same] at loops; exact served.loops p before loops
  · exact fun p call fd alive inside =>
      served.waits_advance queueing sole inv taken other delivered changed alive inside
  · intro p call fd alive away ready
    rw [current] at away ⊢
    exact served.turn_advance inv taken other alive away ready

/-- A switch leaves the blocks of waiting tasks. -/
theorem switch_awake (served : Served looper queue s) (queueing : Queueing queue s)
    (inv : Integrity s) {rounds : Nat} (taken : step s (.pick rounds) = .ok s') {q : TaskPtr}
    {call : Call} {fd : Nat} (alive : s.live q = true)
    (inside : (s.pc q).waiting = some (call, fd)) : s'.tasks q = s.tasks q := by
  obtain ⟨_, picked, _, _, _, ⟨woken, _⟩, after⟩ := step_switch inv taken
  rw [after]
  apply (woken.block q).resolve_right
  rintro ⟨asleep, _⟩
  rcases served.waits q call fd alive inside with member | ready
  · obtain ⟨_, _, blocked⟩ := queueing.members fd q member
    cases blocked.status.symm.trans asleep
  · cases ready.status.symm.trans asleep

/-- A task that is ready behind a switch was ready before, and it did not call `schedule`. -/
theorem ready_before (served : Served looper queue s) (queueing : Queueing queue s)
    (inv : Integrity s) {rounds : Nat} (taken : step s (.pick rounds) = .ok s') {q : TaskPtr}
    {call : Call} {fd : Nat} (alive : s.live q = true) (ready : Ready s' q call fd) :
    q ≠ s.current ∧ Ready s q call fd := by
  obtain ⟨_, pc, control, _⟩ := step_switch_frame inv taken
  have waiting : (s.pc q).waiting = some (call, fd) := by
    rw [← step_switch_pc Pc.waiting (fun _ => rfl) inv taken, ready.inside]
    rfl
  have same := served.switch_awake queueing inv taken alive waiting
  have running : (s.tasks q).status = .running := same ▸ ready.status
  have away : q ≠ s.current := by
    rintro rfl
    rcases served.waits _ call fd alive waiting with member | before
    · obtain ⟨_, _, blocked⟩ := queueing.members fd _ member
      cases blocked.status.symm.trans running
    · cases pc.symm.trans before.inside
  have here := ready.inside
  rw [control, Function.update_of_ne away] at here
  exact ⟨away, here, running, same ▸ ready.received⟩

/-- A switch keeps waiting tasks queued or ready, and the turns of those not selected. -/
theorem switch (served : Served looper queue s) (queueing : Queueing queue s)
    (inv : Integrity s) {rounds : Nat} (taken : step s (.pick rounds) = .ok s') :
    Served looper queue s' := by
  obtain ⟨behind, pc, control, live, fields⟩ := step_switch_frame inv taken
  have selected := (inv.step taken).seated.alive
  have rests : ∀ q, s'.live q = true → (s'.pc q).resting := by
    intro q alive
    rw [control]
    by_cases own : q = s.current
    · rw [own, Function.update_self]
      exact served.behind behind pc
    · rw [Function.update_of_ne own]
      exact served.rests q (live ▸ alive) own
  constructor
  · intro q alive _
    exact rests q alive
  · intro there here
    have resting := rests s'.current selected
    rw [here] at resting
    exact resting.elim
  · intro q alive loops
    rw [step_switch_pc Pc.looping (fun _ => rfl) inv taken] at loops
    exact served.loops q (live ▸ alive) loops
  · intro q call fd alive waiting
    rw [step_switch_pc Pc.waiting (fun _ => rfl) inv taken] at waiting
    have same := served.switch_awake queueing inv taken (live ▸ alive) waiting
    rcases served.waits q call fd (live ▸ alive) waiting with member | ready
    · exact .inl member
    · right
      have away : q ≠ s.current := by
        rintro rfl
        cases pc.symm.trans ready.inside
      constructor
      · rw [control, Function.update_of_ne away]
        exact ready.inside
      · rw [same]
        exact ready.status
      · rw [same]
        exact ready.received
  · intro q call fd alive away ready
    have before : s.live q = true := live ▸ alive
    have id (r : TaskPtr) : (s'.tasks r).id = (s.tasks r).id := by rw [fields]
    have bound {r : TaskPtr} (alive : s.live r = true) : (s.tasks r).id < nrTasks :=
      (inv.slots _ r (inv.housed r alive)).1
    obtain ⟨notCurrent, wasReady⟩ := served.ready_before queueing inv taken before ready
    obtain ⟨loopLive, loops, _, nearer⟩ := served.turn q call fd before notCurrent wasReady
    -- the selected task comes before the ready one, and that one before the event loop
    have sooner := step_nearer inv taken before ready.status away.symm
    rw [id, id] at sooner
    have restTask := ahead_sub inv.seated.bound (bound (live ▸ selected)) (bound before) sooner
    have restLoop := ahead_sub inv.seated.bound (bound (live ▸ selected)) (bound loopLive)
      (sooner.trans nearer)
    refine ⟨by rw [live]; exact loopLive, ?_, ?_, ?_⟩
    · rw [step_switch_pc Pc.looping (fun _ => rfl) inv taken]
      exact loops
    · intro same
      rw [same] at sooner
      exact absurd (sooner.trans nearer) (lt_irrefl _)
    · rw [id, id, id, restTask, restLoop]
      omega

end Served

/-- The live tasks in a wait loop on a descriptor are the ones in its queue, once, so that the
queues hold no others, and a task is in one queue at most. -/
def WaitersQueued (s : State) : Prop :=
  ∃ queue, Queues s.links queue ∧ ∀ p fd,
    s.live p = true ∧ (s.pc p).waiting.map Prod.snd = some fd ↔ p ∈ queue fd

/-- No blocking call returns because of a failing `epoll_ctl`. -/
def CallsSucceed (move : Move State Input) : Prop :=
  move.input.descriptor ≠ none ∨ (move.before.pc move.before.current).waiting ≠ none →
    move.after.pc move.before.current ≠ .user

instance (move : Move State Input) : Decidable (CallsSucceed move) :=
  inferInstanceAs (Decidable (_ ∨ _ → _))

/-- In a thread whose descriptors have single owners, with one task in the event loop, if every
handled event delivers, then whenever the event loop is about to call `epoll_wait`, the
waiting tasks are exactly the queued ones. -/
theorem no_lost_waiter {owner : Nat → TaskPtr} {looper : TaskPtr} {self : EnvPtr}
    {clock : Nat → Nat} {past : History} {s : State} (run : ThreadRun self clock past s)
    (owned : Along (Owned owner) past) (looping : Along (LoopsIn looper) past)
    (delivered : Along (fun move => delivers move = true) past)
    (polls : s.pc s.current = .epollWait) : WaitersQueued s := by
  obtain ⟨inv, _, queue, queueing, _, served⟩ : Integrity s ∧ Ended s ∧ ∃ queue,
      Queueing queue s ∧ Sole owner queue s ∧ Served looper queue s := by
    refine run.invariant (fun move =>
        Owned owner move ∧ LoopsIn looper move ∧ delivers move = true)
      (fun s => Integrity s ∧ Ended s ∧ ∃ queue,
        Queueing queue s ∧ Sole owner queue s ∧ Served looper queue s)
      ⟨Integrity.init self clock, Ended.init self clock, _, Queueing.init self clock,
        Sole.init self clock, Served.init self clock⟩ ?_
      fun move member => ⟨owned move member, looping move member, delivered move member⟩
    rintro s i s' ⟨inv, ended, queue, queueing, sole, served⟩ ⟨owned, looping, delivered⟩ taken
    obtain ⟨queue', changed, queueing'⟩ :=
      queueing.step inv (sole.orderly inv queueing owned) taken
    refine ⟨inv.step taken, ended_step inv queueing ended taken, queue', queueing',
      sole.step inv ended queueing owned taken changed, ?_⟩
    rcases i.switches with ⟨rounds, rfl⟩ | other
    · cases changed with
      | keeps => exact served.switch queueing inv taken
    · exact served.advance queueing sole inv taken other looping delivered changed
  refine ⟨queue, queueing.spells, fun p fd => ⟨fun waits => ?_, fun member => ?_⟩⟩
  · obtain ⟨alive, waiting⟩ := waits
    obtain ⟨⟨call, fd'⟩, inside, rfl⟩ := Option.map_eq_some_iff.mp waiting
    rcases served.waits p call fd' alive inside with member | ready
    · exact member
    · -- the event loop would have let a ready task run before
      have away : p ≠ s.current := by
        rintro rfl
        cases polls.symm.trans ready.inside
      have loops := served.loops s.current inv.seated.alive (by rw [polls]; trivial)
      obtain ⟨_, _, notPolling, _⟩ := served.turn p call fd' alive away ready
      exact absurd (loops ▸ polls) (notPolling loops)
  · obtain ⟨alive, call, blocked⟩ := queueing.members fd p member
    refine ⟨alive, ?_⟩
    rw [blocked.inside]
    rfl

/-- A coroutine reads twice from a descriptor and waits for the data of the second read. -/
def twoReads : List Input :=
  [.create none, .eventloop, .ready (some []), .pick 1, .io .read 3 true, .ctl true, .pick 1,
    .ready (some [(3, epollIn)]), .run, .run, .pick 1, .ctl true, .run,
    .io .read 3 true, .ctl true, .pick 1]

/-- The coroutine is queued when the event loop polls again. -/
theorem no_lost_waiter_twoReads : WaitersQueued (replay 2 twoReads) := by
  have run := run_of_replay 2 twoReads (by decide) (by decide)
    (by decide +kernel)
  exact @no_lost_waiter (fun _ => 1) 0 _ _ _ _ run (by unfold Along; decide +kernel)
    (by unfold Along; decide +kernel) (by unfold Along; decide +kernel) (by decide +kernel)

/-- A coroutine's first call on a descriptor is a write. Its record of the descriptor holds
`EPOLLIN` although the kernel watches for `EPOLLOUT`, which is then reported. -/
def firstWrite : List Input :=
  [.create none, .eventloop, .ready (some []), .pick 1, .io .write 3 true, .ctl true, .pick 1,
    .ready (some [(3, epollOut)]), .run, .run, .pick 1]

/-- Waiting tasks do not stay queued in every run: the writing coroutine is dequeued, and
neither made running nor queued again. -/
theorem no_lost_waiter_fails : ¬∀ (owner : Nat → TaskPtr) (looper : TaskPtr) (past : History)
    (s : State), ThreadRun 0 ticking past s → Along (Owned owner) past →
    Along (LoopsIn looper) past → Along CallsSucceed past → s.pc s.current = .epollWait →
    WaitersQueued s := by
  intro waitersQueued
  have run := run_of_replay 2 firstWrite (by decide) (by decide)
    (by decide +kernel)
  obtain ⟨queue, spells, waiting⟩ := waitersQueued (fun _ => 1) 0 _ _ run
    (by unfold Along; decide +kernel) (by unfold Along; decide +kernel)
    (by unfold Along; decide +kernel) (by decide +kernel)
  have member := (waiting 1 3).mp (by decide +kernel)
  have none : (replay 2 firstWrite).links.first 3 = none := by decide +kernel
  rw [spells.first_eq, List.head?_eq_none_iff] at none
  rw [none] at member
  exact List.not_mem_nil member

end LibcoLite
