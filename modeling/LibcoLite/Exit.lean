import LibcoLite.BlockQueue
import LibcoLite.Replay

/-!
# Exit is final

While all steps are orderly, a queue holds no task that has exited, so that handling an
event revives none, `pick` selects none, and no operation reaches a freed block.
-/

namespace LibcoLite

open TailQueue
open Transition (Along bind_eq_ok)

/-- An exited task keeps its status through an orderly step. -/
theorem step_stays_exited {queue : Nat → List TaskPtr} {s s' : State} {i : Input}
    (inv : Integrity s) (queueing : Queueing queue s) (taken : step s i = .ok s')
    {p : TaskPtr} (used : p < s.fresh) (exited : (s.tasks p).status = .exit) :
    (s'.tasks p).status = .exit := by
  -- the current task has not exited while it is outside `start`
  have other (out : ¬(s.pc s.current).exiting) : p ≠ s.current := by
    rintro rfl
    exact inv.current_status out exited
  have kept {q : TaskPtr} {tsk : TaskStruct} (different : p ≠ q)
      (tasks : s'.tasks = Function.update s.tasks q tsk) : (s'.tasks p).status = .exit := by
    rw [tasks, Function.update_of_ne different]
    exact exited
  have same {tsk : TaskStruct} (tasks : s'.tasks = Function.update s.tasks s.current tsk)
      (status : tsk.status = (s.tasks s.current).status) : (s'.tasks p).status = .exit := by
    rw [tasks]
    by_cases own : p = s.current
    · subst own; simpa [status] using exited
    · rw [Function.update_of_ne own]; exact exited
  obtain ⟨_, kind⟩ := step_cases taken
  cases kind with
  | create cid pc =>
    obtain ⟨_, _, tasks⟩ := coCreate_other cid (Nat.ne_of_lt used)
    exact (congrArg TaskStruct.status tasks).trans exited
  | sleep seconds pc => exact kept (other (by rw [pc]; exact id)) rfl
  | refused call fd granted tsk ctl pc => exact kept (other (by rw [pc]; exact id)) rfl
  | queued call fd granted tsk ctl links pc => exact kept (other (by rw [pc]; exact id)) rfl
  | ret pc notInit =>
    by_cases own : p = s.current
    · subst own; simp [startExit, State.goto, State.modify]
    · exact kept own rfl
  | waitAgain call fd granted pc => exact kept (other (by rw [pc]; exact id)) rfl
  | writeFailed fd granted pc => exact same rfl rfl
  | writeEnd fd granted pc => exact same rfl rfl
  | handled ev rest q links pc first =>
    refine kept ?_ rfl
    rintro rfl
    rw [queueing.spells.first_eq] at first
    obtain ⟨_, _, blocked⟩ := queueing.members _ p (List.mem_of_head? first)
    cases blocked.status.symm.trans exited
  | released links pc more removed => exact same rfl rfl
  | scheduled behind rounds picked q pc found =>
    have awake : ((s.goto behind).tasks p).status ≠ .sleep :=
      by simp [State.goto, exited]
    exact ((inv.picked pc found).woken.status awake).trans exited
  | _ => exact exited

/-! ## The end of `start` is not reached -/

/-- Tasks in `start` behind their own code have exited, and none executes behind its last
call of `schedule`. -/
structure Ended (s : State) : Prop where
  /-- A task behind its own code has exited. -/
  exited : ∀ p, s.live p = true → (s.pc p).exiting → (s.tasks p).status = .exit
  /-- The current task is not behind the last call of `schedule`. -/
  notFinished : s.pc s.current ≠ .finished

/-- At the start of a thread no task has exited. -/
theorem Ended.init (self : EnvPtr) (clock : Nat → Nat) : Ended (State.init self clock) where
  exited _ _ behind := by cases behind
  notFinished := by simp [State.init]

/-- A task enters the end of `start` only by returning from its own code. -/
theorem step_exiting {s s' : State} {i : Input} (inv : Integrity s)
    (taken : step s i = .ok s') {p : TaskPtr} (alive : s'.live p = true)
    (behind : (s'.pc p).exiting) :
    s.live p = true ∧ (s.pc p).exiting ∨ (s'.tasks p).status = .exit := by
  -- the current task goes on inside or outside `start` as before
  have moved {there : Pc} (live : s'.live = s.live)
      (pc : s'.pc = Function.update s.pc s.current there)
      (side : there.exiting → (s.pc s.current).exiting) :
      s.live p = true ∧ (s.pc p).exiting := by
    refine ⟨live ▸ alive, ?_⟩
    by_cases own : p = s.current
    · subst own
      exact side (by simpa [pc] using behind)
    · simpa [pc, Function.update_of_ne own] using behind
  obtain ⟨_, kind⟩ := step_cases taken
  cases kind with
  | create cid pc =>
    left
    rcases coCreate_alive alive with ⟨before, same, _⟩ | ⟨_, user, _⟩
    · rw [same] at behind
      exact ⟨before, behind⟩
    · rw [user] at behind
      exact behind.elim
  | close fd pc => exact .inl ⟨alive, behind⟩
  | released links pc more removed => exact .inl ⟨alive, behind⟩
  | ret pc notInit =>
    by_cases own : p = s.current
    · subst own; exact .inr (by simp [startExit, State.goto, State.modify])
    · exact .inl ⟨alive, by
        simpa [startExit, State.goto, State.modify, Function.update_of_ne own] using behind⟩
  | joinEnd cid q pc bound slot alive' exited =>
    by_cases gone : p = q
    · subst gone; simp [State.goto, State.free] at alive
    · refine .inl ⟨(Function.update_of_ne gone _ _).symm.trans alive, ?_⟩
      by_cases own : p = s.current
      · subst own; simp [State.goto, State.free, Pc.exiting] at behind
      · simpa [State.goto, State.free, Function.update_of_ne own] using behind
  | cleaned pc none => exact .inl (moved rfl rfl fun _ => by rw [pc]; trivial)
  | scheduled there rounds picked q pc found =>
    have woken := (inv.picked pc found).woken
    exact .inl (moved woken.live woken.pc fun inside => by rw [pc]; exact inside)
  | _ => exact .inl (moved rfl rfl False.elim)

/-- The current task does not step behind the last call of `schedule`. -/
theorem step_current_pc {s s' : State} {i : Input} (inv : Integrity s)
    (taken : step s i = .ok s') (other : ∀ rounds, i ≠ .pick rounds)
    (before : s.pc s.current ≠ .finished) : s'.pc s'.current ≠ .finished := by
  obtain ⟨_, kind⟩ := step_cases taken
  cases kind with
  | create cid pc =>
    obtain ⟨_, same, _⟩ := coCreate_other cid (inv.notFresh inv.seated.alive)
    rw [(step_cases taken).2.current other]
    show (coCreate cid s).1.pc s.current ≠ .finished
    rw [same]
    exact before
  | close fd pc => exact before
  | released links pc more removed => exact before
  | scheduled there rounds => exact absurd rfl (other rounds)
  | _ =>
    intro same
    cases (Function.update_self ..).symm.trans same

theorem ended_step {queue : Nat → List TaskPtr} {s s' : State} {i : Input}
    (inv : Integrity s) (queueing : Queueing queue s) (ended : Ended s)
    (taken : step s i = .ok s') : Ended s' := by
  have exited : ∀ p, s'.live p = true → (s'.pc p).exiting → (s'.tasks p).status = .exit := by
    intro p alive behind
    rcases step_exiting inv taken alive behind with ⟨before, inside⟩ | exited
    · exact step_stays_exited inv queueing taken (inv.used p before) (ended.exited p before inside)
    · exact exited
  refine ⟨exited, ?_⟩
  rcases i.switches with ⟨rounds, rfl⟩ | other
  · intro finished
    have dead := exited s'.current (inv.step taken).seated.alive (by rw [finished]; trivial)
    cases dead.symm.trans (step_pick inv taken)
  · exact step_current_pc inv taken other ended.notFinished

/-! ## Freed blocks are not accessed -/

/-- `co_join` can only access the task of its slot. -/
theorem coJoin_freed {cid : Nat} {s : State} (stopped : coJoin cid s = .error (.fault .freed)) :
    ∃ p, s.task cid = some p ∧ s.live p = false := by
  unfold coJoin taskAt at stopped
  split at stopped
  · cases slot : s.task cid with
    | none => simp [slot, bind, Except.bind] at stopped
    | some p =>
      refine ⟨p, rfl, Bool.eq_false_iff.mpr fun alive => ?_⟩
      simp only [slot, bind, Except.bind, State.deref, alive, ↓reduceIte] at stopped
      split at stopped <;> contradiction
  · simp [bind, Except.bind] at stopped

/-- Handling an event can only access the first task of the queue, besides its removal. -/
theorem handleEvent_freed {ev : EpollEvent} {s : State}
    (stopped : handleEvent ev s = .error (.fault .freed)) :
    ∃ p, s.links.first ev.dataFd = some p ∧
      (s.links.remove s.live ev.dataFd p = .error .freed ∨ s.live p = false) := by
  unfold handleEvent at stopped
  cases queued : s.links.first ev.dataFd with
  | none => simp [queued] at stopped
  | some p =>
    refine ⟨p, rfl, ?_⟩
    cases removed : s.links.remove s.live ev.dataFd p with
    | error fault =>
      simp [queued, State.relink, removed, bind, Except.bind] at stopped
      exact .inl (by rw [stopped])
    | ok links =>
      refine .inr (Bool.eq_false_iff.mpr fun alive => ?_)
      simp only [queued, State.relink, removed, bind, Except.bind, State.deref, alive,
        ↓reduceIte] at stopped
      split at stopped <;> contradiction

/-- The clean-up loop can only access freed blocks in its removal. -/
theorem startCleanup_freed {s : State} (stopped : startCleanup s = .error (.fault .freed)) :
    0 < (s.tasks s.current).fdsIdx ∧
      s.links.remove s.live (s.tasks s.current).lastFd s.current = .error .freed := by
  unfold startCleanup at stopped
  dsimp only at stopped
  split at stopped
  · rename_i more
    refine ⟨more, ?_⟩
    simp only [State.modify, TaskStruct.lastFd] at stopped ⊢
    cases removed : s.links.remove s.live ((s.tasks s.current).fds
        ((s.tasks s.current).fdsIdx - 1)) s.current with
    | error fault => simpa [State.relink, removed, bind, Except.bind] using stopped
    | ok links => simp [State.relink, removed, bind, Except.bind] at stopped
  · contradiction

/-- A switch can only access the task it switches to. -/
theorem coSwitchTo_freed {s : State} {p : TaskPtr}
    (stopped : coSwitchTo s p = .error (.fault .freed)) : s.live p = false := by
  refine Bool.eq_false_iff.mpr fun alive => ?_
  simp only [coSwitchTo, State.deref, alive, ↓reduceIte, bind, Except.bind] at stopped
  split at stopped
  · split at stopped <;> contradiction
  · simp at stopped

/-- The removal of a finishing task accesses no freed block. -/
theorem remove_not_freed {queue : Nat → List TaskPtr} {s : State} (inv : Integrity s)
    (queueing : Queueing queue s) (orderly : Orderly s .run) (releases : Releases s .run)
    (fd : Nat) : s.links.remove s.live fd s.current ≠ .error .freed := by
  have alive := inv.seated.alive
  have free : ∀ other, s.current ∉ queue other := queueing.outside (by rw [releases.2.1]; rfl)
  cases next : s.links.next s.current with
  | none =>
    rcases queueing.back s.current alive free with none | ⟨head, prev⟩ | ⟨_, _, blocked⟩
    · simp [Links.remove, Links.bypass, alive, next, none, Except.bind, Links.store]
    · simp [Links.remove_last alive next prev]
    · have inside := blocked.inside
      rw [releases.2.1] at inside
      cases inside
  | some after =>
    obtain ⟨head, first, rest, prev, chain⟩ := orderly.releases releases after next
    have shape := (queueing.spells.chain head).unique chain
    have member : after ∈ queue head := by rw [shape]; simp
    simp [Links.remove_before alive next (queueing.members head after member).1 prev]

/-- Where a step can access a freed block. -/
inductive FreedAccess (s : State) : Input → Prop where
  /-- The current task is freed. -/
  | current (i : Input) : s.live s.current = false → FreedAccess s i
  /-- A blocking call fails in its insertion. -/
  | inserts (call : Call) (fd : Nat) (granted : Bool) (fault : Fault) :
      s.pc s.current = .user → Appends s (.io call fd granted) fd →
      s.links.insertTail s.live fd s.current = .error fault → FreedAccess s (.io call fd granted)
  /-- `co_join` examines the task in a slot. -/
  | joins (cid : Nat) (p : TaskPtr) : s.task cid = some p → s.live p = false →
      FreedAccess s .run
  /-- An event accesses the first task of its queue, or its removal does. -/
  | handles (ev : EpollEvent) (p : TaskPtr) : s.links.first ev.dataFd = some p →
      (s.links.remove s.live ev.dataFd p = .error .freed ∨ s.live p = false) →
      FreedAccess s .run
  /-- A finishing task is removed from a queue. -/
  | releases (fd : Nat) : Releases s .run →
      s.links.remove s.live fd s.current = .error .freed → FreedAccess s .run
  /-- `schedule` accesses one. -/
  | switches (behind : Pc) (rounds : Nat) : s.pc s.current = .schedule behind →
      schedule rounds (s.goto behind) = .error (.fault .freed) → FreedAccess s (.pick rounds)

/-- A step that accesses a freed block does so in one of these places. -/
theorem step_freed {s : State} {i : Input} (stopped : step s i = .error (.fault .freed)) :
    FreedAccess s i := by
  by_cases alive : s.live s.current = true
  · unfold step at stopped
    simp only [alive, ↓reduceIte] at stopped
    split at stopped
    case h_4 call fd granted pc =>
      unfold coCall at stopped
      split at stopped
      · rename_i bound
        cases added : addQueue fd call.event granted s with
        | ok result =>
          simp [added, bind, Except.bind] at stopped
          split at stopped <;> contradiction
        | error stop =>
          rcases addQueue_error added with rfl | ⟨tsk, ctl, fault, registers, succeeded, inserted⟩
          · simp [added, bind, Except.bind] at stopped
          · have appends : Appends s (.io call fd granted) fd :=
              ⟨call, granted, tsk, ctl, rfl, pc, bound, registers, succeeded⟩
            exact .inserts call fd granted fault pc appends inserted
      · simp at stopped
    case h_7 pc => split at stopped <;> simp at stopped
    case h_8 cid pc =>
      cases joined : coJoin cid s with
      | ok result =>
        simp [joined, bind, Except.bind] at stopped
        split at stopped <;> contradiction
      | error stop =>
        obtain rfl : stop = .fault .freed := by simpa [joined, bind, Except.bind] using stopped
        obtain ⟨p, slot, dead⟩ := coJoin_freed joined
        exact .joins cid p slot dead
    case h_12 reports pc => split at stopped <;> simp at stopped
    case h_14 ev rest pc =>
      cases handled : handleEvent ev s with
      | ok result => simp [handled, bind, Except.bind] at stopped
      | error stop =>
        obtain rfl : stop = .fault .freed := by simpa [handled, bind, Except.bind] using stopped
        obtain ⟨p, first, accessed⟩ := handleEvent_freed handled
        exact .handles ev p first accessed
    case h_15 pc =>
      cases cleaned : startCleanup s with
      | ok result =>
        simp [cleaned, bind, Except.bind] at stopped
        split at stopped <;> contradiction
      | error stop =>
        obtain rfl : stop = .fault .freed := by simpa [cleaned, bind, Except.bind] using stopped
        obtain ⟨more, removed⟩ := startCleanup_freed cleaned
        exact .releases _ ⟨rfl, pc, more⟩ removed
    case h_17 behind rounds pc => exact .switches behind rounds pc stopped
    all_goals simp at stopped
  · exact .current i (Bool.eq_false_iff.mpr alive)

/-- `schedule` accesses no freed block. -/
theorem schedule_not_freed {s : State} (inv : Integrity s) (rounds : Nat) :
    schedule rounds s ≠ .error (.fault .freed) := by
  intro stopped
  cases found : pick rounds s with
  | error stop =>
    obtain rfl := pick_error inv.tableLive inv.seated found
    simp [schedule, found, bind, Except.bind] at stopped
  | ok result =>
    obtain ⟨woken, slot, _, held, _⟩ := pick_spec inv.tableLive inv.seated found
    have live := ((inv.woken woken).slots slot result.2 held).2.1
    have dead := coSwitchTo_freed (by simpa [schedule, found, bind, Except.bind] using stopped)
    cases dead.symm.trans live

/-- An orderly step accesses no freed block. -/
theorem step_not_freed {queue : Nat → List TaskPtr} {s : State} {i : Input}
    (inv : Integrity s) (queueing : Queueing queue s) (orderly : Orderly s i) :
    step s i ≠ .error (.fault .freed) := by
  have alive := inv.seated.alive
  have members (fd : Nat) (p : TaskPtr) (member : p ∈ queue fd) : s.live p = true :=
    (queueing.members fd p member).1
  intro stopped
  cases step_freed stopped with
  | current _ dead => cases dead.symm.trans alive
  | inserts call fd granted fault pc appends inserted =>
    obtain ⟨elements, chain, ends⟩ := orderly.appends fd appends
    obtain rfl := chain.unique (queueing.spells.chain fd)
    have free : ∀ other, s.current ∉ queue other := queueing.outside (by rw [pc]; rfl)
    obtain ⟨links, ok, _⟩ := queueing.spells.insertTail free alive (members fd) ends
    cases ok.symm.trans inserted
  | joins cid p slot dead => cases dead.symm.trans (inv.tableLive cid p slot)
  | handles ev p first accessed =>
    rw [queueing.spells.first_eq] at first
    obtain ⟨behind, shape⟩ := List.head?_eq_some_iff.mp first
    rcases accessed with removed | dead
    · obtain ⟨links, ok, _⟩ := queueing.spells.removeHead shape (members ev.dataFd)
      cases ok.symm.trans removed
    · cases dead.symm.trans (members _ p (shape ▸ List.mem_cons_self))
  | releases fd releases removed =>
    exact remove_not_freed inv queueing orderly releases fd removed
  | switches behind rounds pc switched =>
    exact schedule_not_freed (inv.behind pc) rounds switched

/-- Orderly steps keep the lists, and every status of an exited task. -/
theorem orderly_of_run {self : EnvPtr} {clock : Nat → Nat} {past : History} {s : State}
    (run : ThreadRun self clock past s)
    (orderly : Along (fun move => Orderly move.before move.input) past) :
    Integrity s ∧ (∃ queue, Queueing queue s) ∧ Ended s ∧
      ∀ move ∈ past, ∀ p, move.before.live p = true → (move.before.tasks p).status = .exit →
        p < s.fresh ∧ (s.tasks p).status = .exit := by
  refine run.history_invariant _ (fun past s => Integrity s ∧
      (∃ queue, Queueing queue s) ∧ Ended s ∧
      ∀ move ∈ past, ∀ p, move.before.live p = true → (move.before.tasks p).status = .exit →
        p < s.fresh ∧ (s.tasks p).status = .exit)
    ⟨Integrity.init self clock, ⟨_, Queueing.init self clock⟩,
      Ended.init self clock, by simp⟩ ?_ orderly
  rintro past s i s' _ ⟨inv, ⟨queue, queueing⟩, ended, kept⟩ orderly taken
  obtain ⟨queue', _, queueing'⟩ := queueing.step inv orderly taken
  refine ⟨inv.step taken, ⟨queue', queueing'⟩, ended_step inv queueing ended taken, ?_⟩
  have grows := step_fresh inv taken
  intro move member p alive exited
  rcases List.mem_cons.mp member with rfl | member
  · have used := inv.used p alive
    exact ⟨Nat.lt_of_lt_of_le used grows, step_stays_exited inv queueing taken used exited⟩
  · obtain ⟨used, exited⟩ := kept move member p alive exited
    exact ⟨Nat.lt_of_lt_of_le used grows, step_stays_exited inv queueing taken used exited⟩

/-- In every run of orderly steps, a task that has exited keeps this status and is not
selected by `pick`, the end of `start` behind its last `schedule` is not reached, and no
orderly step accesses a freed task. -/
theorem exit_is_final {self : EnvPtr} {clock : Nat → Nat} {past : History} {s : State}
    (run : ThreadRun self clock past s)
    (orderly : Along (fun move => Orderly move.before move.input) past) :
    (∀ move ∈ past, ∀ p, move.before.live p = true →
      (move.before.tasks p).status = .exit → (s.tasks p).status = .exit) ∧
    (∀ p rounds s', s.live p = true → (s.tasks p).status = .exit →
      step s (.pick rounds) = .ok s' → s'.current ≠ p) ∧
    s.pc s.current ≠ .finished ∧
    ∀ i, Orderly s i → step s i ≠ .error (.fault .freed) := by
  obtain ⟨inv, ⟨queue, queueing⟩, ended, kept⟩ := orderly_of_run run orderly
  refine ⟨fun move member p alive exited => (kept move member p alive exited).2, ?_,
    ended.notFinished, fun i orderly => step_not_freed inv queueing orderly⟩
  rintro p rounds s' alive exited taken rfl
  have still := step_stays_exited inv queueing taken (inv.used _ alive) exited
  cases still.symm.trans (step_pick inv taken)

/-- A coroutine reads from a descriptor and finishes, and another task runs on. -/
def oneWaiter : List Input :=
  [.create none, .eventloop, .ready (some []), .pick 1, .io .read 3 true, .ctl true, .pick 1,
    .ready (some [(3, epollIn)]), .run, .run, .pick 1, .ctl true, .run, .ret, .run, .run, .pick 1]

/-- The exited coroutine stays exited, and the current task is not behind the end of `start`. -/
theorem exit_is_final_oneWaiter : ((replay 2 oneWaiter).tasks 1).status = .exit ∧
    (replay 2 oneWaiter).pc (replay 2 oneWaiter).current ≠ .finished := by
  have run := run_of_replay 2 oneWaiter (by decide) (by decide)
    (by decide +kernel)
  have alone : ∀ move ∈ replayMoves 2 oneWaiter, move.before.pc move.before.current = .cleanup →
      move.before.links.next move.before.current = none := by decide +kernel
  have empty : ∀ move ∈ replayMoves 2 oneWaiter, ∀ fd ∈ move.input.descriptor,
      move.before.links.first fd = none ∧ move.before.links.last fd = some (.first fd) := by
    decide +kernel
  have orderly : Along (fun move => Orderly move.before move.input) (replayMoves 2 oneWaiter) := by
    intro move member
    constructor
    · intro releases after next
      cases next.symm.trans (alone move member releases.2.1)
    · rintro fd ⟨call, granted, _, _, input, _⟩
      obtain ⟨first, last⟩ := empty move member fd (by simp [input, Input.descriptor])
      exact ⟨[], first, last⟩
  obtain ⟨move, member, alive, exited⟩ : ∃ move ∈ replayMoves 2 oneWaiter,
      move.before.live 1 = true ∧ (move.before.tasks 1).status = .exit := by decide +kernel
  have final := exit_is_final run orderly
  exact ⟨final.1 move member 1 alive exited, final.2.2.1⟩

/-- Three coroutines come to wait on one descriptor, and two are woken. The second of them
exits; then the first one, whose successor field still names the second, exits. The next
coroutine that waits on the descriptor brings an event that is handed to the exited one. -/
def revival : List Input :=
  [.create none, .create none, .create none, .eventloop, .ready (some []), .pick 1,
    .io .read 3 true, .ctl true, .pick 1,
    .io .read 3 true, .io .read 3 true, .ctl true, .pick 1,
    .io .read 3 true, .io .read 3 true, .ctl true, .pick 1,
    .ready (some [(3, epollIn)]), .run, .run, .pick 1,
    .ctl true, .run, .sleep 0, .pick 1,
    .ready (some [(3, epollIn)]), .run, .run, .pick 1,
    .create none, .sleep 0, .pick 1,
    .ctl true, .run, .ret, .run, .run, .pick 1,
    .sleep 0, .pick 1, .ready (some []), .pick 1,
    .ret, .run, .run, .pick 1,
    .io .read 3 true, .ctl true, .pick 1,
    .ready (some [(3, epollIn)]), .run]

/-- Exit is not final in every run: an exited task becomes running again. -/
theorem exit_is_final_fails : ¬∀ (past : History) (s : State), ThreadRun 0 ticking past s →
    Along InRange past → ∀ move ∈ past, ∀ p, move.before.live p = true →
      (move.before.tasks p).status = .exit → (s.tasks p).status = .exit := by
  intro staysExited
  have run := run_of_replay 5 revival (by decide) (by decide)
    (by decide +kernel)
  have dead : ∃ move ∈ replayMoves 5 revival, move.before.live 2 = true ∧
      (move.before.tasks 2).status = .exit := by decide +kernel
  obtain ⟨move, member, alive, exited⟩ := dead
  have kept := staysExited _ _ run (by unfold Along; decide +kernel) move member 2 alive exited
  have revived : ((replay 5 revival).tasks 2).status = .running := by decide +kernel
  cases revived.symm.trans kept

end LibcoLite
