import LibcoLite.Lib.Reach
import LibcoLite.Careful
import LibcoLite.Pick
import LibcoLite.Program

/-!
# Programs without descriptors

The tasks of a program that makes no blocking call and runs no event loop record no descriptors
and wait for no events. Their runs are orderly, and if they stay in their own arrays, a step can
only fail in `co_join`, for an empty slot.
-/

namespace LibcoLite

open Transition (Along Forced bind_eq_error)

variable {Place : Type} {program : Program Place} {w w' : World Place} {choice : Choice}
  {main : Place} {self : EnvPtr} {clock : Nat → Nat} {past : WorldHistory Place}

/-- No task makes a blocking call, runs the event loop or leaves an array of its own. -/
def Dry (program : Program Place) : Prop :=
  ∀ place, (∀ call fd, program.action place ≠ .io call fd) ∧
    program.action place ≠ .eventloop ∧ program.action place ≠ .overrun

/-- An input by which a task goes on in its own code is a choice to do so. -/
theorem own_of_input (taken : w.step program choice = .ok w')
    (own : (w.input program choice).own = true) : ∃ granted, choice = .own granted := by
  have user := step_user (world_thread taken) own
  cases choice with
  | own granted => exact ⟨granted, rfl⟩
  | answer given => simp [World.step, World.stepBy, user] at taken
  | library i => simp [World.step, World.stepBy, user] at taken

/-- A program without descriptors passes none. -/
theorem Dry.descriptor (dry : Dry program) (taken : w.step program choice = .ok w') :
    (w.input program choice).descriptor = none := by
  cases input : w.input program choice with
  | io call fd granted =>
    obtain ⟨own, rfl⟩ := own_of_input taken (by rw [input]; rfl)
    unfold World.input at input
    cases does : program.action w.place with
    | io call' fd' => exact absurd does ((dry w.place).1 call' fd')
    | _ => simp [does] at input
  | _ => rfl

/-- Its tasks are in calls of `co_join` and at the end of their routine at most. -/
theorem Dry.origin (dry : Dry program) (located : Located program w) {p : TaskPtr}
    (alive : w.thread.live p = true) {call : Action Place}
    (inside : (w.thread.pc p).origin Place = some call) :
    (∀ c fd, call ≠ .io c fd) ∧ call ≠ .eventloop := by
  rw [← located p alive call inside]
  exact ⟨(dry (w.places p)).1, (dry (w.places p)).2.1⟩

/-- Its tasks record no descriptors. -/
theorem Dry.unrecorded (dry : Dry program)
    (run : WorldRun program main self clock past w) {p : TaskPtr}
    (alive : w.thread.live p = true) : (w.thread.tasks p).fdsIdx = 0 := by
  induction run with
  | start =>
    by_cases root : p = initTask
    · subst root
      rfl
    · simp [World.init, State.init, Function.update_of_ne root] at alive
  | @move past w w' choice before taken ih =>
    have inv := world_integrity before
    have stepped := world_thread taken
    cases old : w.thread.live p with
    | false => exact (step_new inv stepped alive old).2.1
    | true =>
      have none := ih old
      generalize input : w.input program choice = i at stepped
      cases step_records inv stepped with
      | keeps _ _ _ _ same => rw [(same p old).2.2, none]
      | registers call fd granted =>
        have passed := dry.descriptor taken
        rw [input] at passed
        cases passed
      | narrows fd granted _ pc =>
        have inside := dry.origin (located_of_run before) inv.seated.alive (by rw [pc]; rfl)
        exact absurd rfl (inside.1 .write fd)
      | releases _ pc more tasks =>
        rw [tasks]
        by_cases own : p = w.thread.current
        · rw [own] at none
          omega
        · rw [Function.update_of_ne own]
          exact none
      | closes fd _ tasks => rw [tasks, none]

/-- Its runs are orderly. -/
theorem Dry.orderly (dry : Dry program) (run : WorldRun program main self clock past w) :
    Along (fun move => Orderly move.before move.input) (past.map (threadMove program)) := by
  rw [Transition.along_view]
  intro move member
  obtain ⟨earlier, before, taken⟩ := run.taken member
  constructor
  · rintro ⟨_, _, more⟩
    have none := dry.unrecorded before (world_integrity before).seated.alive
    exact absurd none (Nat.pos_iff_ne_zero.mp more)
  · rintro fd ⟨call, granted, tsk, ctl, input, _⟩
    have passed := dry.descriptor taken
    rw [show move.before.input program move.input = .io call fd granted from input] at passed
    cases passed

/-- Its tasks never wait for an event. -/
theorem Dry.awake (dry : Dry program) (run : WorldRun program main self clock past w)
    {p : TaskPtr} (alive : w.thread.live p = true) : (w.thread.tasks p).status ≠ .wait := by
  induction run with
  | start =>
    by_cases root : p = initTask
    · subst root
      simp [World.init, State.init]
    · simp [World.init, State.init, Function.update_of_ne root] at alive
  | @move past w w' choice before taken ih =>
    have inv := world_integrity before
    have stepped := world_thread taken
    cases old : w.thread.live p with
    | false =>
      rw [(step_created inv stepped alive old).1]
      simp
    | true =>
      have awake := ih old
      have none := dry.descriptor taken
      generalize w.input program choice = i at stepped none
      cases step_status inv stepped old with
      | keeps same => rwa [same]
      | sleeps _ _ _ status => simp [status]
      | waits own waits status =>
        rcases waits with ⟨_, passes⟩ | ⟨call, fd, pc⟩
        · exact absurd none passes
        · have inside := dry.origin (located_of_run before) old (by rw [pc]; rfl)
          exact absurd rfl (inside.1 call fd)
      | exits _ _ status => simp [status]
      | wakes _ _ status => simp [status]
      | dispatched _ _ _ _ status => simp [status]

/-- A task that has not exited is running or asleep. -/
theorem Dry.ready (dry : Dry program) (run : WorldRun program main self clock past w)
    {p : TaskPtr} (alive : w.thread.live p = true) (more : (w.thread.tasks p).status ≠ .exit) :
    (w.thread.tasks p).status = .running ∨ (w.thread.tasks p).status = .sleep := by
  have awake := dry.awake run alive
  cases status : (w.thread.tasks p).status with
  | running => exact .inl rfl
  | sleep => exact .inr rfl
  | wait => exact absurd status awake
  | exit => exact absurd status more

/-- The initial task is running or asleep. -/
theorem Dry.rootAwake (dry : Dry program) (run : WorldRun program main self clock past w) :
    (w.thread.tasks initTask).status = .running ∨ (w.thread.tasks initTask).status = .sleep := by
  have inv := world_integrity run
  exact dry.ready run inv.rootLive fun exited => inv.stays (inv.exits _ inv.rootLive exited)

/-- Its tasks execute their own code, `co_join`, `schedule`, or the end of `start`. -/
theorem Dry.control (dry : Dry program) (run : WorldRun program main self clock past w) :
    w.thread.pc w.thread.current = .user ∨
      (∃ cid, w.thread.pc w.thread.current = .join cid) ∨
      w.thread.pc w.thread.current = .cleanup ∨
      ∃ behind, w.thread.pc w.thread.current = .schedule behind := by
  have alive := (world_integrity run).seated.alive
  obtain ⟨_, _, ended, _⟩ := orderly_of_run (thread_of_run run) (dry.orderly run)
  have outside {call : Action Place}
      (within : (w.thread.pc w.thread.current).origin Place = some call) :=
    dry.origin (located_of_run run) alive within
  cases pc : w.thread.pc w.thread.current with
  | user => exact .inl rfl
  | join cid => exact .inr (.inl ⟨cid, rfl⟩)
  | cleanup => exact .inr (.inr (.inl rfl))
  | schedule behind => exact .inr (.inr (.inr ⟨behind, rfl⟩))
  | finished => exact absurd pc ended.notFinished
  | wait call fd =>
    have blocked := (outside (by rw [pc]; rfl)).1
    exact absurd rfl (blocked call fd)
  | syscall call fd =>
    have blocked := (outside (by rw [pc]; rfl)).1
    exact absurd rfl (blocked call fd)
  | epollWait => exact absurd rfl (outside (by rw [pc]; rfl)).2
  | handle events => exact absurd rfl (outside (by rw [pc]; rfl)).2

/-- What its thread does in the library the world does. -/
theorem Dry.goes (dry : Dry program) (run : WorldRun program main self clock past w) {i : Input}
    {thread : State} (inside : w.thread.pc w.thread.current ≠ .user)
    (stepped : LibcoLite.step w.thread i = .ok thread) :
    w.step program (.library i) = .ok { w with thread } := by
  refine stepBy_of_cases stepped (.library i thread inside ?_ ?_)
  · intro call fd pc
    rcases dry.control run with here | ⟨_, here⟩ | here | ⟨_, here⟩ <;> cases here.symm.trans pc
  · intro call fd pc
    rcases dry.control run with here | ⟨_, here⟩ | here | ⟨_, here⟩ <;> cases here.symm.trans pc

/-- Behind a switch a task executes its own code or `co_join`. -/
theorem Dry.switched (dry : Dry program) (run : WorldRun program main self clock past w)
    {rounds : Nat} (taken : w.step program (.library (.pick rounds)) = .ok w') :
    w'.thread.pc w'.thread.current = .user ∨
      ∃ cid, w'.thread.pc w'.thread.current = .join cid := by
  have inv := world_integrity run
  have stepped := world_thread taken
  have suspended := (suspended_of_run (thread_of_run run)).switched inv stepped
    (inv.step stepped).seated.alive
  rcases dry.control (.move run taken) with pc | joins | pc | ⟨_, pc⟩
  · exact .inl pc
  · exact .inr joins
  · rw [pc] at suspended
    exact suspended.elim
  · rw [pc] at suspended
    exact suspended.elim

/-- At the end of `start` there is nothing to clean up. -/
theorem Dry.cleans (dry : Dry program) (run : WorldRun program main self clock past w)
    (pc : w.thread.pc w.thread.current = .cleanup) :
    LibcoLite.step w.thread .run = .ok (w.thread.goto (.schedule .finished)) := by
  have alive := (world_integrity run).seated.alive
  simp [LibcoLite.step, alive, pc, startCleanup, dry.unrecorded run alive, bind, Except.bind]

/-- `co_join` goes on while its slot is occupied. -/
theorem joins_on {s : State} (inv : Integrity s) {cid : Nat} (pc : s.pc s.current = .join cid)
    (held : s.task cid ≠ none) : ∃ s', LibcoLite.step s .run = .ok s' := by
  cases result : LibcoLite.step s .run with
  | ok s' => exact ⟨s', rfl⟩
  | error stop =>
    simp only [LibcoLite.step, inv.seated.alive, pc, ↓reduceIte] at result
    rcases bind_eq_error.mp result with failed | ⟨⟨after, ended⟩, _, goes⟩
    · exact absurd (coJoin_stops inv failed) held
    · dsimp only at goes
      split at goes
      · contradiction
      · contradiction

/-- A step that goes on in the library stops where the scheduler is not followed for long enough,
the input does not fit, or `co_join` is called for an empty slot. -/
theorem Dry.library_stops (dry : Dry program)
    (run : WorldRun program main self clock past w) {i : Input} {stop : Stop}
    (inside : w.thread.pc w.thread.current ≠ .user)
    (stopped : LibcoLite.step w.thread i = .error stop) :
    stop = .disabled ∨ stop = .spinning ∨
      ∃ cid, w.thread.pc w.thread.current = .join cid ∧ w.thread.task cid = none := by
  have inv := world_integrity run
  have alive := inv.seated.alive
  rcases dry.control run with user | ⟨cid, pc⟩ | pc | ⟨behind, pc⟩
  · exact absurd user inside
  · cases i with
    | run =>
      refine .inr (.inr ⟨cid, pc, Classical.byContradiction fun held => ?_⟩)
      obtain ⟨after, goes⟩ := joins_on inv pc held
      cases goes.symm.trans stopped
    | _ => exact .inl (by simpa [LibcoLite.step, alive, pc] using stopped.symm)
  · cases i with
    | run => cases (dry.cleans run pc).symm.trans stopped
    | _ => exact .inl (by simpa [LibcoLite.step, alive, pc] using stopped.symm)
  · cases i with
    | pick rounds =>
      simp only [LibcoLite.step, alive, pc, ↓reduceIte] at stopped
      exact .inr (.inl (schedule_spins (inv.behind pc) stopped))
    | _ => exact .inl (by simpa [LibcoLite.step, alive, pc] using stopped.symm)

/-- A task's own code stops only where it ends the thread. -/
theorem Dry.own_stops (dry : Dry program) (inv : Integrity w.thread) {granted : Bool}
    {stop : Stop} (user : w.thread.pc w.thread.current = .user)
    (stopped : w.step program (.own granted) = .error stop) :
    stop = .exited ∧ (program.action w.place = .exit ∨
      program.action w.place = .ret ∧ w.thread.current = initTask) := by
  have alive := inv.seated.alive
  simp only [World.step, World.stepBy, user, World.act, ↓reduceIte] at stopped
  cases does : program.action w.place with
  | create routine =>
    simp only [does, LibcoLite.step, alive, user, bind, Except.bind, ↓reduceIte] at stopped
    split at stopped
    · contradiction
    · contradiction
  | join cid =>
    simp only [does, LibcoLite.step, alive, user, bind, Except.bind, ↓reduceIte] at stopped
    contradiction
  | sleep seconds =>
    simp only [does, LibcoLite.step, alive, user, bind, Except.bind, ↓reduceIte] at stopped
    contradiction
  | io call fd => exact absurd does ((dry w.place).1 call fd)
  | eventloop => exact absurd does (dry w.place).2.1
  | ret =>
    simp only [does, LibcoLite.step, alive, user, ↓reduceIte] at stopped
    by_cases initial : w.thread.current = initTask
    · simp only [initial, bind, Except.bind, ↓reduceIte] at stopped
      cases stopped
      exact ⟨rfl, .inr ⟨rfl, initial⟩⟩
    · simp only [initial, bind, Except.bind, ↓reduceIte] at stopped
      contradiction
  | exit =>
    simp only [does] at stopped
    cases stopped
    exact ⟨rfl, .inl rfl⟩
  | overrun => exact absurd does (dry w.place).2.2

/-- A step of it stops where a task ends the thread, the choice does not fit, the scheduler is not
followed for long enough, or `co_join` is called for an empty slot. -/
theorem Dry.stops (dry : Dry program) (run : WorldRun program main self clock past w)
    {stop : Stop} (stopped : w.step program choice = .error stop) :
    (stop = .exited ∧ w.thread.pc w.thread.current = .user ∧
        (program.action w.place = .exit ∨
          program.action w.place = .ret ∧ w.thread.current = initTask)) ∨
      stop = .disabled ∨ stop = .spinning ∨
      ∃ cid, w.thread.pc w.thread.current = .join cid ∧ w.thread.task cid = none := by
  by_cases user : w.thread.pc w.thread.current = .user
  · cases choice with
    | own granted =>
      obtain ⟨exited, ends⟩ := dry.own_stops (world_integrity run) user stopped
      exact .inl ⟨exited, user, ends⟩
    | _ =>
      simp only [World.step, World.stepBy, user] at stopped
      cases stopped
      exact .inr (.inl rfl)
  · rcases stepBy_stops stopped with failed | disabled | ⟨here, _⟩
    · exact .inr (dry.library_stops run user failed)
    · exact .inr (.inl disabled)
    · exact absurd here user

/-! ## What the environment decides -/

/-- A choice that can be made is the one for the place where the current task is. -/
inductive Dry.Chosen (w : World Place) : Choice → Prop where
  /-- The task's own code goes on. -/
  | own (granted : Bool) : w.thread.pc w.thread.current = .user → Chosen w (.own granted)
  /-- `co_join` or the end of `start` goes on. -/
  | run : w.thread.pc w.thread.current ≠ .user →
      (∀ behind, w.thread.pc w.thread.current ≠ .schedule behind) → Chosen w (.library .run)
  /-- The scheduler goes on. -/
  | pick (rounds : Nat) (behind : Pc) : w.thread.pc w.thread.current = .schedule behind →
      Chosen w (.library (.pick rounds))

/-- There are no other choices. -/
theorem Dry.chosen (dry : Dry program) (run : WorldRun program main self clock past w)
    (taken : w.step program choice = .ok w') : Chosen w choice := by
  have alive := (world_integrity run).seated.alive
  have stepped := world_thread taken
  cases choice with
  | own granted =>
    refine .own granted ?_
    cases world_cases taken <;> assumption
  | answer given =>
    rcases dry.control run with pc | ⟨cid, pc⟩ | pc | ⟨behind, pc⟩ <;>
      simp [World.step, World.stepBy, pc] at taken
  | library i =>
    rcases dry.control run with pc | ⟨cid, pc⟩ | pc | ⟨behind, pc⟩
    · simp [World.step, World.stepBy, pc] at taken
    · cases i with
      | run => exact .run (by simp [pc]) (by simp [pc])
      | _ => simp [World.input, LibcoLite.step, alive, pc] at stepped
    · cases i with
      | run => exact .run (by simp [pc]) (by simp [pc])
      | _ => simp [World.input, LibcoLite.step, alive, pc] at stepped
    · obtain ⟨rounds, rfl⟩ := step_scheduled stepped pc
      exact .pick rounds behind pc

/-- Whether the kernel would grant an `epoll_ctl` makes no difference to it. -/
theorem Dry.granted (dry : Dry program) (w : World Place) (first second : Bool) :
    w.step program (.own first) = w.step program (.own second) := by
  unfold World.step World.stepBy World.act
  cases does : program.action w.place with
  | io call fd => exact absurd does ((dry w.place).1 call fd)
  | _ => rfl

/-- A switch of its thread leaves the places. -/
theorem world_switched {rounds : Nat} {behind : Pc}
    (pc : w.thread.pc w.thread.current = .schedule behind)
    (taken : w.step program (.library (.pick rounds)) = .ok w') :
    w'.places = w.places := by
  cases world_cases taken with
  | fails i thread call fd waits => cases waits.symm.trans pc
  | library i thread => rfl

/-- The choices of the environment make no difference to its runs. -/
theorem Dry.forced (dry : Dry program) (run : WorldRun program main self clock past w) :
    Forced (World.step program) w := by
  intro later u choice choice' u' u'' onward taken taken'
  have whole := run.trans onward
  cases dry.chosen whole taken with
  | own granted user =>
    cases dry.chosen whole taken' with
    | own granted' =>
      rw [dry.granted u granted' granted, taken] at taken'
      exact Except.ok.inj taken'
    | run outside => exact absurd user outside
    | pick _ _ pc => cases pc.symm.trans user
  | run outside waits =>
    cases dry.chosen whole taken' with
    | own _ user => exact absurd user outside
    | run => exact Except.ok.inj (taken.symm.trans taken')
    | pick _ behind pc => exact absurd pc (waits behind)
  | pick rounds behind pc =>
    cases dry.chosen whole taken' with
    | own _ user => cases pc.symm.trans user
    | run _ waits => exact absurd pc (waits behind)
    | pick rounds' =>
      have inv := world_integrity whole
      obtain ⟨first, picked, here, _, found, _, after⟩ := step_switch inv (world_thread taken)
      obtain ⟨second, picked', here', _, found', _, after'⟩ :=
        step_switch inv (world_thread taken')
      obtain rfl := Pc.schedule.inj (here.symm.trans here')
      obtain ⟨rfl, same⟩ := Prod.mk.inj (pick_unique found found')
      have threads : u'.thread = u''.thread := by
        rw [after, after', same]
      have places : u'.places = u''.places :=
        (world_switched pc taken).trans (world_switched pc taken').symm
      calc
        u' = ⟨u'.thread, u'.places⟩ := rfl
        _ = ⟨u''.thread, u''.places⟩ := by rw [threads, places]

end LibcoLite
