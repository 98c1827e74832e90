import LibcoLite.Control
import LibcoLite.Exit
import LibcoLite.Fairness

/-!
# Statuses

Which steps change the status of a task. A task gives up running in its own calls only, and
what wakes it depends on how it did: a sleeper is woken by the scheduler, a waiting task by
an event for the queue it is in. So a task that is running in the event loop keeps the
scheduler going, and a waiting task that is in no queue never runs again.
-/

namespace LibcoLite

open TailQueue
open Transition (Along Move Run along_append along_cons)

/-- What a step does to the status of a task. -/
inductive StatusStep (p : TaskPtr) (s : State) : Input → State → Prop where
  /-- Nothing. -/
  | keeps {i : Input} {s' : State} : (s'.tasks p).status = (s.tasks p).status →
      StatusStep p s i s'
  /-- The task sleeps. -/
  | sleeps {s' : State} (seconds : Int) : p = s.current → s.pc p = .user →
      (s'.tasks p).status = .sleep → StatusStep p s (.sleep seconds) s'
  /-- The task waits in a blocking call, or before it is refused. -/
  | waits {i : Input} {s' : State} : p = s.current →
      (s.pc p = .user ∧ i.descriptor ≠ none ∨ ∃ call fd, s.pc p = .wait call fd) →
      (s'.tasks p).status = .wait → StatusStep p s i s'
  /-- The task returns from its routine. -/
  | exits {s' : State} : p = s.current → s.pc p = .user → (s'.tasks p).status = .exit →
      StatusStep p s .ret s'
  /-- The scheduler wakes the sleeping task. -/
  | wakes {s' : State} (rounds : Nat) : (s.tasks p).status = .sleep →
      (s'.tasks p).status = .running → StatusStep p s (.pick rounds) s'
  /-- An event for the queue the task leads makes it running. -/
  | dispatched {s' : State} (ev : EpollEvent) (rest : List EpollEvent) :
      s.pc s.current = .handle (ev :: rest) → s.links.first ev.dataFd = some p →
      (s'.tasks p).status = .running → StatusStep p s .run s'

variable {s s' : State} {i : Input} {p : TaskPtr}

/-- A dequeued task becomes running or keeps its status. -/
theorem TaskStruct.dispatch_status (tsk : TaskStruct) (ev : EpollEvent) :
    (tsk.dispatch ev).status = .running ∨ (tsk.dispatch ev).status = tsk.status := by
  unfold TaskStruct.dispatch
  split
  · exact .inl rfl
  · exact .inr rfl

/-- Every step changes the status of a live task in one of these ways. -/
theorem step_status (inv : Integrity s) (taken : step s i = .ok s') (alive : s.live p = true) :
    StatusStep p s i s' := by
  -- a change of one block
  have changed {q : TaskPtr} {tsk : TaskStruct} (tasks : s'.tasks = Function.update s.tasks q tsk) :
      p ≠ q ∧ (s'.tasks p).status = (s.tasks p).status ∨
        p = q ∧ (s'.tasks p).status = tsk.status := by
    rw [tasks]
    by_cases here : p = q
    · rw [here, Function.update_self]
      exact .inr ⟨rfl, rfl⟩
    · rw [Function.update_of_ne here]
      exact .inl ⟨here, rfl⟩
  obtain ⟨_, kind⟩ := step_cases taken
  cases kind with
  | create cid pc =>
    obtain ⟨_, _, same⟩ := coCreate_other cid (inv.notFresh alive)
    exact .keeps (congrArg TaskStruct.status same)
  | sleep seconds pc =>
    rcases changed rfl with ⟨_, same⟩ | ⟨own, status⟩
    · exact .keeps same
    · exact .sleeps seconds own (own ▸ pc) status
  | refused call fd granted tsk ctl pc bound registers failed =>
    rcases changed rfl with ⟨_, same⟩ | ⟨own, status⟩
    · exact .keeps same
    · exact .waits own (.inl ⟨own ▸ pc, by simp [Input.descriptor]⟩)
        (status.trans registers.lacks.1)
  | queued call fd granted tsk ctl links pc bound registers ok inserted =>
    rcases changed rfl with ⟨_, same⟩ | ⟨own, status⟩
    · exact .keeps same
    · exact .waits own (.inl ⟨own ▸ pc, by simp [Input.descriptor]⟩)
        (status.trans registers.lacks.1)
  | ret pc notInit =>
    rcases changed rfl with ⟨_, same⟩ | ⟨own, status⟩
    · exact .keeps same
    · exact .exits own (own ▸ pc) status
  | waitAgain call fd granted pc waiting =>
    rcases changed rfl with ⟨_, same⟩ | ⟨own, status⟩
    · exact .keeps same
    · exact .waits own (.inr ⟨call, fd, own ▸ pc⟩) status
  | writeFailed fd granted pc received failed =>
    rcases changed rfl with ⟨_, same⟩ | ⟨own, status⟩
    · exact .keeps same
    · exact .keeps (status.trans (by rw [own]))
  | writeEnd fd granted pc received ok =>
    rcases changed rfl with ⟨_, same⟩ | ⟨own, status⟩
    · exact .keeps same
    · exact .keeps (status.trans (by rw [own]))
  | handled ev rest q links pc first alive' removed =>
    rcases changed rfl with ⟨_, same⟩ | ⟨here, status⟩
    · exact .keeps same
    · rcases (s.tasks q).dispatch_status ev with running | same
      · exact .dispatched ev rest pc (here ▸ first) (status.trans running)
      · exact .keeps (status.trans (by rw [same, here]))
  | released links pc more removed =>
    rcases changed rfl with ⟨_, same⟩ | ⟨own, status⟩
    · exact .keeps same
    · exact .keeps (status.trans (by rw [own]))
  | scheduled behind rounds picked q pc found =>
    have woken := (inv.picked pc found).woken
    rcases woken.block p with same | ⟨asleep, same⟩
    · exact .keeps (congrArg TaskStruct.status same)
    · exact .wakes rounds asleep (congrArg TaskStruct.status same)
  | _ => exact .keeps rfl

/-- A task that has called `schedule` goes on by a switch. -/
theorem step_scheduled {behind : Pc} (taken : step s i = .ok s')
    (pc : s.pc s.current = .schedule behind) : ∃ rounds, i = .pick rounds := by
  obtain ⟨_, kind⟩ := step_cases taken
  cases kind with
  | scheduled _ rounds => exact ⟨rounds, rfl⟩
  | _ => simp_all

/-- A blocking call that does not return comes to its wait loop. -/
theorem waits_of_io {call : Call} {granted : Bool}
    (taken : step s (.io call fd granted) = .ok s') (goesOn : s'.pc s.current ≠ .user) :
    s'.pc s.current = .wait call fd := by
  obtain ⟨_, kind⟩ := step_cases taken
  cases kind with
  | refused => exact absurd (Function.update_self ..) goesOn
  | queued => exact Function.update_self ..

/-! ## Tasks that stay running -/

/-- A move does not give up running in a task: the task does not sleep, wait or exit. -/
def RunsOn (p : TaskPtr) (move : Move State Input) : Prop :=
  move.before.current = p → (∀ seconds, move.input ≠ .sleep seconds) ∧
    move.input.descriptor = none ∧ move.input ≠ .ret

/-- A running task that does not give up running stays running. -/
theorem step_stays_running (inv : Integrity s) (taken : step s i = .ok s')
    (alive : s.live p = true) (running : (s.tasks p).status = .running)
    (outside : (s.pc p).waiting = none) (runsOn : RunsOn p ⟨s, i, s'⟩) :
    (s'.tasks p).status = .running := by
  cases step_status inv taken alive with
  | keeps same => exact same.trans running
  | sleeps seconds own => exact absurd rfl ((runsOn own.symm).1 seconds)
  | waits own reason =>
    rcases reason with ⟨_, passes⟩ | ⟨call, fd, pc⟩
    · exact absurd (runsOn own.symm).2.1 passes
    · rw [pc] at outside
      cases outside
  | exits own => exact absurd rfl (runsOn own.symm).2.2
  | wakes rounds asleep => cases asleep.symm.trans running
  | dispatched _ _ _ _ status => exact status

/-- A new task is running, in the lowest free slot. -/
theorem step_created (inv : Integrity s) (taken : step s i = .ok s') (alive : s'.live p = true)
    (before : s.live p = false) : (s'.tasks p).status = .running ∧
      s.task (s'.tasks p).id = none ∧ ∀ k < (s'.tasks p).id, s.task k ≠ none := by
  have slot := (inv.step taken).housed p alive
  cases step_table inv taken with
  | fills cid id pc bound free lowest table count live fresh =>
    have new : p = s.fresh := by
      apply Classical.byContradiction
      intro other
      rw [live, Function.update_of_ne other, before] at alive
      cases alive
    subst new
    have home := ((inv.step taken).slots id s.fresh (by rw [table, Function.update_self])).2.2.1
    refine ⟨?_, by rw [home]; exact free, by rw [home]; exact lowest⟩
    obtain ⟨_, kind⟩ := step_cases taken
    cases kind with
    | create =>
      rcases coCreate_alive alive with ⟨old, _⟩ | ⟨_, _, _, block⟩
      · cases before.symm.trans old
      · rw [block]
        rfl
  | clears cid q pc held exited table count live =>
    rw [live] at alive
    by_cases gone : p = q
    · rw [gone, Function.update_self] at alive
      cases alive
    · rw [Function.update_of_ne gone] at alive
      cases before.symm.trans alive
  | keeps table count live =>
    rw [live] at alive
    cases before.symm.trans alive

/-! ## The event loop -/

/-- A task is running in the event loop. -/
structure Polls (p : TaskPtr) (s : State) : Prop where
  /-- The task has not been reclaimed. -/
  alive : s.live p = true
  /-- It is running. -/
  runs : (s.tasks p).status = .running
  /-- It is in `co_eventloop`. -/
  loops : (s.pc p).looping

/-- Every step leaves a task that is running in the event loop there. -/
theorem Polls.step (polls : Polls p s) (inv : Integrity s) (taken : LibcoLite.step s i = .ok s') :
    Polls p s' := by
  have alive := step_live inv taken polls.alive (by simp [polls.runs])
  refine ⟨alive, ?_, ?_⟩
  · apply step_stays_running inv taken polls.alive polls.runs (Pc.waiting_of_looping polls.loops)
    -- the event loop makes no blocking call, does not sleep and does not return
    rintro rfl
    have loops := polls.loops
    refine ⟨?_, ?_, ?_⟩
    · rintro seconds rfl
      obtain ⟨_, kind⟩ := step_cases taken
      cases kind with
      | sleep _ pc => rw [pc] at loops; exact loops
    · obtain ⟨_, kind⟩ := step_cases taken
      cases kind with
      | refused call fd granted tsk ctl pc => rw [pc] at loops; exact loops.elim
      | queued call fd granted tsk ctl links pc => rw [pc] at loops; exact loops.elim
      | _ => rfl
    · rintro rfl
      obtain ⟨_, kind⟩ := step_cases taken
      cases kind with
      | ret pc => rw [pc] at loops; exact loops
  · rcases i.switches with ⟨rounds, rfl⟩ | other
    · rw [step_switch_pc Pc.looping (fun _ => rfl) inv taken]
      exact polls.loops
    · by_cases own : p = s.current
      · subst own
        cases step_own inv taken other with
        | aside _ _ before => exact absurd polls.loops before
        | enters _ _ _ before => exact absurd polls.loops before
        | again _ _ _ before =>
          have loops := polls.loops
          rw [before] at loops
          exact loops.elim
        | starts before => exact absurd polls.loops before
        | loops _ loops => exact loops
      · rcases step_others inv taken other own alive with ⟨dead, _⟩ | ⟨_, same, _⟩
        · cases dead.symm.trans polls.alive
        · exact same ▸ polls.loops

/-- A call of `schedule` returns while some task is running. -/
theorem schedule_returns (inv : Integrity s) (alive : s.live p = true)
    (runs : (s.tasks p).status = .running) {behind : Pc} (pc : s.pc s.current = .schedule behind)
    (rounds : Nat) : ∃ s', step s (.pick (rounds + 1)) = .ok s' := by
  have gone : Integrity (s.goto behind) := inv.behind pc
  have slot := inv.housed p alive
  have running : RunningSlot (s.goto behind) (s.tasks p).id := ⟨p, slot, runs⟩
  obtain ⟨picked, q, found⟩ :=
    pick_returns gone.tableLive gone.seated (inv.slots _ p slot).1 running rounds
  refine ⟨{ picked with current := q }, ?_⟩
  simp [LibcoLite.step, inv.seated.alive, pc, gone.schedule_of_pick found]

variable {self : EnvPtr} {clock : Nat → Nat} {past later : History} {start : State}

/-- Once a task is running in `co_eventloop`, it is so in every state that follows. From then on
every call of `schedule` returns in its first round, and between two selections of the event
loop no other slot is selected twice, so that the descriptors are polled again after fewer than
`NR_TASKS` switches. -/
theorem event_loop_keeps_polling (reached : ThreadRun self clock past start)
    (run : Run step start later s) (polls : Polls p start) :
    Polls p s ∧
      (∀ behind rounds, s.pc s.current = .schedule behind →
        ∃ s', step s (.pick (rounds + 1)) = .ok s') ∧
      ((∀ move ∈ later, ∀ rounds, move.input = .pick rounds → move.after.current ≠ p) →
        (selections later).Nodup ∧ (selections later).length < nrTasks) := by
  have stays : Polls p s ∧ Along (fun move => (move.after.tasks p).status = .running) later := by
    induction run with
    | start => exact ⟨polls, by simp [Along]⟩
    | move run taken ih =>
      obtain ⟨before, along⟩ := ih
      have after := before.step (integrity_of_run (reached.trans run)) taken
      exact ⟨after, along_cons.mpr ⟨after.runs, along⟩⟩
  obtain ⟨after, along⟩ := stays
  refine ⟨after, ?_, ?_⟩
  · intro behind rounds pc
    exact schedule_returns (integrity_of_run (reached.trans run)) after.alive after.runs pc rounds
  · intro others
    have inv := integrity_of_run reached
    have bound := inv.slots _ p (inv.housed p polls.alive)
    obtain ⟨_, _, _, _, adv⟩ := advancing_of_run inv run polls.alive
      polls.runs fun move member => ⟨along move member, others move member⟩
    exact ⟨adv.nodup, adv.length_lt bound.1⟩

/-- The initial task creates a coroutine and runs the event loop. -/
def polling : List Input := [.create none, .eventloop]

/-- Nothing is reported, and the coroutine is switched to and sleeps. -/
def oneTurn : List Input := [.ready (some []), .pick 1, .sleep 1]

/-- The event loop still polls behind the turn of the coroutine, no slot was selected twice, and
the next call of `schedule` returns. -/
theorem event_loop_keeps_polling_oneTurn :
    Polls 0 (continued 2 polling oneTurn) ∧
      (selections (continuedMoves 2 polling oneTurn)).Nodup ∧
      ∃ s', step (continued 2 polling oneTurn) (.pick 1) = .ok s' := by
  have reached := run_of_replay 2 polling (by decide) (by decide) (by decide +kernel)
  have run := run_of_continued 2 polling oneTurn (by decide) (by decide) (by decide +kernel)
    (by decide +kernel)
  have loops : (replay 2 polling).pc 0 = .epollWait := by decide +kernel
  have others : ∀ move ∈ continuedMoves 2 polling oneTurn, move.after.current ≠ 0 ∨
      move.input = .ready (some []) := by decide +kernel
  obtain ⟨polls, returns, once⟩ := event_loop_keeps_polling (p := 0) reached run
    ⟨by decide +kernel, by decide +kernel, by rw [loops]; trivial⟩
  refine ⟨polls, (once ?_).1, returns .user 0 (by decide +kernel)⟩
  intro move member rounds switches
  rcases others move member with away | reports
  · exact away
  · cases switches.symm.trans reports

/-! ## Tasks that never run again -/

/-- A task waits but is in no queue. -/
structure Adrift (p : TaskPtr) (s : State) : Prop where
  /-- It waits. -/
  status : (s.tasks p).status = .wait
  /-- No descriptor has it in its queue. -/
  absent : ∀ fd elements, Chain s.links (.first fd) elements → p ∉ elements

/-- A task is adrift, and other tasks execute or are about to be selected. -/
structure Stranded (p : TaskPtr) (s : State) : Prop extends Adrift p s where
  /-- The task has not been reclaimed. -/
  alive : s.live p = true
  /-- Another task executes, or the task is about to call `schedule`. -/
  away : s.current ≠ p ∨ ∃ behind, s.pc s.current = .schedule behind

variable {queue queue' : Nat → List TaskPtr}

/-- A task that is in no queue is put in one by its own calls only. -/
theorem QueueStep.absent (changed : QueueStep queue s i s' queue')
    (absent : ∀ fd, p ∉ queue fd) (quiet : ∀ fd, Appends s i fd → s.current ≠ p) :
    ∀ fd, p ∉ queue' fd := by
  -- the other steps leave no member that was not one before
  have fewer {head : Nat} {left : List TaskPtr} (within : ∀ q ∈ left, q ∈ queue head) (fd : Nat) :
      p ∉ Function.update queue head left fd := by
    by_cases here : fd = head
    · rw [here, Function.update_self]
      exact fun member => absent head (within p member)
    · rw [Function.update_of_ne here]
      exact absent fd
  cases changed with
  | keeps => exact absent
  | appends call fd' granted appends =>
    have other := quiet fd' appends
    intro fd
    by_cases here : fd = fd'
    · subst here
      simp [absent fd, Ne.symm other]
    · rw [Function.update_of_ne here]
      exact absent fd
  | removes ev rest q behind pc shape =>
    apply fewer
    intro r member
    rw [shape]
    exact List.mem_cons_of_mem q member
  | clears head => exact fewer (by simp)
  | cuts head first rest after releases next prev shape =>
    apply fewer
    intro r member
    rw [shape]
    exact List.mem_append_right first member

/-- An orderly step leaves a stranded task stranded, and does not select it. -/
theorem Stranded.step (stranded : Stranded p s) (inv : Integrity s)
    (queueing : Queueing queue s) (orderly : Orderly s i) (taken : LibcoLite.step s i = .ok s') :
    Stranded p s' ∧ s'.current ≠ p := by
  obtain ⟨queue', changed, queueing'⟩ := queueing.step inv orderly taken
  have absent (fd : Nat) : p ∉ queue fd := stranded.absent fd _ (queueing.spells.chain fd)
  have quiet (fd : Nat) (appends : Appends s i fd) : s.current ≠ p := by
    obtain ⟨_, _, _, _, _, user, _⟩ := appends
    rcases stranded.away with other | ⟨behind, pc⟩
    · exact other
    · cases pc.symm.trans user
  -- the task is not the current one in a step of its own code or its wait loop
  have status : (s'.tasks p).status = .wait := by
    have other (own : p = s.current) : ∃ behind, s.pc p = .schedule behind := by
      rcases stranded.away with other | calls
      · exact absurd own.symm other
      · rw [own]
        exact calls
    cases step_status inv taken stranded.alive with
    | keeps same => exact same.trans stranded.status
    | sleeps seconds own pc =>
      obtain ⟨behind, calls⟩ := other own
      cases pc.symm.trans calls
    | waits own reason status => exact status
    | exits own pc =>
      obtain ⟨behind, calls⟩ := other own
      cases pc.symm.trans calls
    | wakes rounds asleep => cases asleep.symm.trans stranded.status
    | dispatched ev rest pc first =>
      rw [queueing.spells.first_eq] at first
      exact absurd (List.mem_of_head? first) (absent _)
  have away : s'.current ≠ p := by
    rcases i.switches with ⟨rounds, rfl⟩ | other
    · rintro rfl
      cases (step_pick inv taken).symm.trans status
    · rw [(step_cases taken).2.current other]
      rcases stranded.away with away | ⟨behind, calls⟩
      · exact away
      · obtain ⟨_, kind⟩ := step_cases taken
        cases kind with
        | scheduled _ rounds => exact absurd rfl (other rounds)
        | _ => simp_all
  have alive := step_live inv taken stranded.alive (by simp [stranded.status])
  refine ⟨⟨⟨status, ?_⟩, alive, .inl away⟩, away⟩
  intro fd elements chain
  rw [chain.unique (queueing'.spells.chain fd)]
  exact changed.absent absent quiet fd

/-- A stranded task stays stranded in orderly runs, and is not selected. -/
theorem stranded_of_run (reached : ThreadRun self clock past start)
    (before : Along (fun move => Orderly move.before move.input) past)
    (run : Run step start later s)
    (orderly : Along (fun move => Orderly move.before move.input) later)
    (stranded : Stranded p start) :
    Stranded p s ∧ ∀ move ∈ later, Adrift p move.after ∧ move.after.current ≠ p := by
  induction run with
  | start => exact ⟨stranded, by simp⟩
  | @move later s s' i run taken ih =>
    obtain ⟨last, rest⟩ := along_cons.mp orderly
    obtain ⟨middle, others⟩ := ih rest
    obtain ⟨inv, ⟨queue, queueing⟩, _⟩ :=
      orderly_of_run (reached.trans run) (along_append.mpr ⟨rest, before⟩)
    obtain ⟨after, away⟩ := middle.step inv queueing last taken
    refine ⟨after, ?_⟩
    intro move member
    rcases List.mem_cons.mp member with rfl | member
    · exact ⟨after.toAdrift, away⟩
    · exact others move member

/-! ## Refused calls -/

/-- A task goes on in its own code, in `co_join` or in the event loop, behind a refused call. -/
structure Lingers (p : TaskPtr) (move : Move State Input) : Prop where
  /-- It executes. -/
  own : move.before.current = p
  /-- It makes no blocking call, does not sleep and does not return. -/
  runsOn : RunsOn p move
  /-- It is not passed by. -/
  stays : ∀ rounds, move.input ≠ .pick rounds

/-- The current task waits, as after a refused call, but is in no queue. -/
structure Lingering (p : TaskPtr) (queue : Nat → List TaskPtr) (s : State) : Prop where
  /-- It executes. -/
  own : s.current = p
  /-- It waits. -/
  status : (s.tasks p).status = .wait
  /-- It is in no queue. -/
  absent : ∀ fd, p ∉ queue fd

/-- Such a task is adrift. -/
theorem Lingering.adrift (lingering : Lingering p queue s) (queueing : Queueing queue s) :
    Adrift p s := by
  refine ⟨lingering.status, ?_⟩
  intro fd elements chain
  rw [chain.unique (queueing.spells.chain fd)]
  exact lingering.absent fd

/-- A refused call leaves its caller waiting outside the queues. -/
theorem lingering_of_refused (inv : Integrity s) (queueing : Queueing queue s)
    (orderly : Orderly s i) (taken : step s i = .ok s') (user : s.pc s.current = .user)
    (called : i.descriptor ≠ none) (refused : s'.pc s.current = .user) :
    ∃ queue', Queueing queue' s' ∧ Lingering s.current queue' s' := by
  obtain ⟨queue', changed, queueing'⟩ := queueing.step inv orderly taken
  refine ⟨queue', queueing', ?_, ?_, ?_⟩
  · apply (step_cases taken).2.current
    rintro rounds rfl
    exact called rfl
  · obtain ⟨_, kind⟩ := step_cases taken
    cases kind with
    | refused call fd granted tsk ctl pc bound registers failed =>
      show (Function.update s.tasks s.current tsk s.current).status = .wait
      rw [Function.update_self]
      exact registers.lacks.1
    | queued call fd granted tsk ctl links =>
      cases (Function.update_self ..).symm.trans refused
    | _ => exact absurd rfl called
  · have absent := queueing.outside (p := s.current) (by rw [user]; rfl)
    cases changed with
    | keeps => exact absent
    | appends call fd granted appends blocked =>
      have inside := blocked.inside
      rw [refused] at inside
      cases inside
    | removes | clears | cuts => exact absurd rfl called

/-- While such a task goes on, it stays so. -/
theorem Lingering.step (lingering : Lingering p queue s) (inv : Integrity s)
    (queueing : Queueing queue s) (orderly : Orderly s i) (lingers : Lingers p ⟨s, i, s'⟩)
    (taken : LibcoLite.step s i = .ok s') :
    ∃ queue', Queueing queue' s' ∧ Lingering p queue' s' := by
  obtain ⟨rfl, status, absent⟩ := lingering
  obtain ⟨queue', changed, queueing'⟩ := queueing.step inv orderly taken
  obtain ⟨notSleep, silent, notRet⟩ := lingers.runsOn rfl
  refine ⟨queue', queueing', (step_cases taken).2.current lingers.stays, ?_, ?_⟩
  · cases step_status inv taken inv.seated.alive with
    | keeps same => exact same.trans status
    | sleeps seconds => exact absurd rfl (notSleep seconds)
    | waits _ _ status => exact status
    | exits => exact absurd rfl notRet
    | wakes rounds => exact absurd rfl (lingers.stays rounds)
    | dispatched ev rest pc first =>
      rw [queueing.spells.first_eq] at first
      exact absurd (List.mem_of_head? first) (absent _)
  · apply changed.absent absent
    rintro fd ⟨_, _, _, _, rfl, _⟩
    cases silent

/-- From a refused call on, while the caller goes on, it waits outside the queues. -/
theorem lingering_of_run {refusal : Move State Input} {own : History}
    (run : ThreadRun self clock (own ++ refusal :: past) s)
    (orderly : Along (fun move => Orderly move.before move.input) (own ++ refusal :: past))
    (user : refusal.before.pc refusal.before.current = .user)
    (called : refusal.input.descriptor ≠ none)
    (fails : refusal.after.pc refusal.before.current = .user)
    (lingers : Along (Lingers refusal.before.current) own) :
    (∃ queue, Queueing queue s ∧ Lingering refusal.before.current queue s) ∧
      ∀ move ∈ own ++ [refusal], Adrift refusal.before.current move.after := by
  induction own generalizing s with
  | nil =>
    cases run with
    | move reached refuses =>
      obtain ⟨first, rest⟩ := along_cons.mp orderly
      obtain ⟨inv, ⟨queue, queueing⟩, _⟩ := orderly_of_run reached rest
      obtain ⟨queue', queueing', lingering⟩ :=
        lingering_of_refused inv queueing first refuses user called fails
      refine ⟨⟨queue', queueing', lingering⟩, ?_⟩
      intro move member
      obtain rfl := List.mem_singleton.mp member
      exact lingering.adrift queueing'
  | cons move own ih =>
    cases run with
    | move reached taken =>
      obtain ⟨first, rest⟩ := along_cons.mp orderly
      obtain ⟨lingersLast, lingersRest⟩ := along_cons.mp lingers
      obtain ⟨⟨queue, queueing, lingering⟩, earlier⟩ := ih reached rest lingersRest
      obtain ⟨queue', queueing', lingering'⟩ :=
        lingering.step (integrity_of_run reached) queueing first lingersLast taken
      refine ⟨⟨queue', queueing', lingering'⟩, ?_⟩
      intro move member
      rcases List.mem_cons.mp member with rfl | member
      · exact lingering'.adrift queueing'
      · exact earlier move member

/-- Along an orderly run, from the point on where `add_queue` refuses a call of `co_accept`,
`co_read` or `co_write`, the caller waits and is in no queue. If it then neither makes another
blocking call, nor sleeps, nor returns, its next call of `schedule` is its last: it is not selected
again. -/
theorem refused_caller_never_runs_again {refusal leaves : Move State Input} {own : History}
    {rounds : Nat} (run : ThreadRun self clock (later ++ leaves :: own ++ refusal :: past) s)
    (orderly : Along (fun move => Orderly move.before move.input)
      (later ++ leaves :: own ++ refusal :: past))
    (user : refusal.before.pc refusal.before.current = .user)
    (called : refusal.input.descriptor ≠ none)
    (fails : refusal.after.pc refusal.before.current = .user)
    (lingers : Along (Lingers refusal.before.current) own)
    (switches : leaves.input = .pick rounds) :
    Adrift refusal.before.current s ∧
      (∀ move ∈ later ++ leaves :: own ++ [refusal], Adrift refusal.before.current move.after) ∧
      ∀ move ∈ later ++ [leaves], move.after.current ≠ refusal.before.current := by
  have shape : later ++ leaves :: own ++ refusal :: past =
      (later ++ [leaves]) ++ (own ++ refusal :: past) := by simp
  rw [shape] at run orderly
  obtain ⟨before, reached, last⟩ := run.split
  obtain ⟨after, earlier⟩ := along_append.mp orderly
  -- the caller waits in no queue until it leaves
  obtain ⟨⟨queue, queueing, lingering⟩, staying⟩ :=
    lingering_of_run reached earlier user called fails lingers
  have inv := integrity_of_run reached
  obtain ⟨behind, calls⟩ : ∃ behind, before.pc before.current = .schedule behind := by
    obtain ⟨_, leaving, _⟩ := last.split
    cases leaving with
    | move none taken =>
      cases none
      dsimp only at switches taken
      rw [switches] at taken
      obtain ⟨behind, pc, _⟩ := step_switch_frame inv taken
      exact ⟨behind, pc⟩
  have stranded : Stranded refusal.before.current before :=
    ⟨lingering.adrift queueing, lingering.own ▸ inv.seated.alive, .inr ⟨behind, calls⟩⟩
  obtain ⟨stays, others⟩ := stranded_of_run reached earlier last after stranded
  refine ⟨stays.toAdrift, ?_, fun move member => (others move member).2⟩
  intro move member
  rw [show later ++ leaves :: own ++ [refusal] = (later ++ [leaves]) ++ (own ++ [refusal]) by simp]
    at member
  rcases List.mem_append.mp member with left | member
  · exact (others move left).1
  · exact staying move member

/-- The initial task goes on behind a refused read as the event loop, while a coroutine reads. -/
def refusedReader : List Input :=
  [.create none, .io .read 3 false, .eventloop, .ready (some []), .pick 1, .io .read 4 true,
    .ctl true]

/-- The event loop waits for nothing. -/
theorem refused_caller_never_runs_again_refusedReader : Adrift 0 (replay 2 refusedReader) := by
  have run := run_of_replay 2 refusedReader (by decide) (by decide) (by decide +kernel)
  have alone : ∀ move ∈ replayMoves 2 refusedReader,
      move.before.pc move.before.current ≠ .cleanup := by decide +kernel
  have empty : ∀ move ∈ replayMoves 2 refusedReader, ∀ fd ∈ move.input.descriptor,
      move.before.links.first fd = none ∧ move.before.links.last fd = some (.first fd) := by
    decide +kernel
  have orderly : Along (fun move => Orderly move.before move.input)
      (replayMoves 2 refusedReader) := by
    intro move member
    constructor
    · intro releases
      exact absurd releases.2.1 (alone move member)
    · rintro fd ⟨call, granted, _, _, input, _⟩
      obtain ⟨first, last⟩ := empty move member fd (by simp [input, Input.descriptor])
      exact ⟨[], first, last⟩
  obtain ⟨last, before, leaves, waits, loops, refusal, first, shape⟩ :
      ∃ last before leaves waits loops refusal first, replayMoves 2 refusedReader =
        [last, before] ++ leaves :: [waits, loops] ++ refusal :: [first] :=
    ⟨_, _, _, _, _, _, _, rfl⟩
  have leave : ∀ move ∈ (replayMoves 2 refusedReader)[2]?, move.input = .pick 1 := by
    decide +kernel
  have wait : ∀ move ∈ (replayMoves 2 refusedReader)[3]?,
      move.before.current = 0 ∧ move.input = .ready (some []) := by decide +kernel
  have loop : ∀ move ∈ (replayMoves 2 refusedReader)[4]?,
      move.before.current = 0 ∧ move.input = .eventloop := by decide +kernel
  have refuse : ∀ move ∈ (replayMoves 2 refusedReader)[5]?, move.before.current = 0 ∧
      move.before.pc 0 = .user ∧ move.input = .io .read 3 false ∧ move.after.pc 0 = .user := by
    decide +kernel
  rw [shape] at run orderly leave wait loop refuse
  obtain ⟨isMain, user, refused, fails⟩ := refuse refusal rfl
  obtain ⟨waiter, reports⟩ := wait waits rfl
  obtain ⟨looper, enters⟩ := loop loops rfl
  have lingers : Along (Lingers 0) [waits, loops] := by
    refine along_cons.mpr ⟨⟨waiter, ?_, by simp [reports]⟩,
      along_cons.mpr ⟨⟨looper, ?_, by simp [enters]⟩, by simp [Along]⟩⟩
    · simp [RunsOn, reports, Input.descriptor]
    · simp [RunsOn, enters, Input.descriptor]
  have waiting := (refused_caller_never_runs_again run orderly (isMain.symm ▸ user)
    (by simp [refused, Input.descriptor]) (isMain.symm ▸ fails) (isMain.symm ▸ lingers)
    (leave leaves rfl)).1
  rwa [isMain] at waiting

end LibcoLite
