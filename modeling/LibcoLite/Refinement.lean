import LibcoLite.Blocking
import LibcoLite.Careful
import LibcoLite.Readiness
import LibcoLite.Status

/-!
# The library blocks

Under careful programs the library is a refinement of blocking calls. What a coroutine does
shows in its control point and its status: a task in a wait loop whose status is running has
had its event. The queues and the recorded bits are the library's means to this end: an
event finds the owner of its descriptor at the head of the queue, and the record meets the
event, so that the first event behind a call is what the call waits for.
-/

namespace LibcoLite

open Cycle TailQueue
open Transition (Along Move along_cons)

/-- What a task does, from its control point and its status. -/
def Pc.mode (status : Status) : Pc → Mode
  | .user => if status = .sleep then .asleep else .own
  | .join cid => .joining cid
  | .wait call fd => if status = .running then .woken call fd else .blocked call fd
  | .syscall call fd => .calling call fd
  | .epollWait => .polling
  | .handle events => .delivering (events.map EpollEvent.dataFd)
  | .cleanup => .ended
  | .finished => .ended
  | .schedule behind => behind.mode status

/-- A control point is before a call of `schedule`. -/
def Pc.yields : Pc → Bool
  | .schedule _ => true
  | _ => false

/-- What is seen of the tasks of a thread. -/
def State.blocking (s : State) : Blocking where
  current := s.current
  table := s.task
  mode p := (s.pc p).mode (s.tasks p).status
  yields := (s.pc s.current).yields

variable {owner : Nat → TaskPtr} {looper : TaskPtr} {queue : Nat → List TaskPtr}
  {self : EnvPtr} {clock : Nat → Nat} {past : History} {s s' : State} {i : Input} {p : TaskPtr}
  {status : Status}

/-- A task in a wait loop has had its event exactly if it is running. -/
theorem Pc.mode_of_waiting {pc : Pc} {call : Call} {fd : Nat}
    (waiting : pc.waiting = some (call, fd)) :
    pc.mode status = if status = .running then .woken call fd else .blocked call fd := by
  induction pc with
  | schedule behind ih => exact ih waiting
  | wait => cases waiting; rfl
  | _ => cases waiting

/-- A task has ended when it is behind its own code. -/
theorem Pc.mode_eq_ended {pc : Pc} : pc.mode status = .ended ↔ pc.exiting := by
  induction pc with
  | schedule behind ih => exact ih
  | user =>
    simp only [Pc.mode, Pc.exiting, iff_false]
    split <;> simp
  | wait =>
    simp only [Pc.mode, Pc.exiting, iff_false]
    split <;> simp
  | _ => simp [Pc.mode, Pc.exiting]

/-! ## Statuses -/

/-- Which tasks sleep and wait. -/
structure Statuses (s : State) : Prop where
  /-- A sleeping task is suspended in its own code, or about to be. -/
  sleeps : ∀ p, s.live p = true → (s.tasks p).status = .sleep →
    p ≠ s.current ∧ s.pc p = .user ∨ p = s.current ∧ s.pc p = .schedule .user
  /-- A waiting task is in a wait loop. -/
  waits : ∀ p, s.live p = true → (s.tasks p).status = .wait → (s.pc p).waiting ≠ none
  /-- Blocks that are not in use do not sleep. -/
  gone : ∀ p, s.live p = false → (s.tasks p).status ≠ .sleep

/-- At the start of a thread nobody sleeps or waits. -/
theorem Statuses.init (self : EnvPtr) (clock : Nat → Nat) : Statuses (State.init self clock) := by
  have runs (p : TaskPtr) : ((State.init self clock).tasks p).status = .running := by
    by_cases root : p = initTask
    · rw [root]
      rfl
    · simp [State.init, Function.update_of_ne root, TaskStruct.calloc]
  constructor
  · intro p _ asleep
    cases (runs p).symm.trans asleep
  · intro p _ waits
    cases (runs p).symm.trans waits
  · intro p _ asleep
    cases (runs p).symm.trans asleep

/-- No step puts a block to sleep that is not in use behind it. -/
theorem Statuses.gone_step (statuses : Statuses s) (inv : Integrity s)
    (taken : LibcoLite.step s i = .ok s') (dead : s'.live p = false) :
    (s'.tasks p).status ≠ .sleep := by
  -- a change of the block of a live task
  have changed {q : TaskPtr} {tsk : TaskStruct} (live : s'.live = s.live) (alive : s.live q = true)
      (tasks : s'.tasks = Function.update s.tasks q tsk) : (s'.tasks p).status ≠ .sleep := by
    rw [live] at dead
    have other : p ≠ q := by
      rintro rfl
      cases dead.symm.trans alive
    rw [tasks, Function.update_of_ne other]
    exact statuses.gone p dead
  obtain ⟨alive, kind⟩ := step_cases taken
  cases kind with
  | create cid pc =>
    rcases coCreate_cases cid s with ⟨id, _, _, _, made⟩ | ⟨_, made⟩
    · rw [made] at dead ⊢
      have other : p ≠ s.fresh := by
        rintro rfl
        simp at dead
      simp only [Function.update_of_ne other] at dead ⊢
      exact statuses.gone p dead
    · rw [made] at dead ⊢
      exact statuses.gone p dead
  | joinEnd cid q pc bound slot alive' exited =>
    by_cases same : p = q
    · rw [same]
      show (s.tasks q).status ≠ .sleep
      simp [exited]
    · exact statuses.gone p ((Function.update_of_ne same _ _).symm.trans dead)
  | sleep => exact changed rfl alive rfl
  | refused => exact changed rfl alive rfl
  | queued => exact changed rfl alive rfl
  | ret => exact changed rfl alive rfl
  | waitAgain => exact changed rfl alive rfl
  | writeFailed => exact changed rfl alive rfl
  | writeEnd => exact changed rfl alive rfl
  | released => exact changed rfl alive rfl
  | handled ev rest q links pc first alive' => exact changed rfl alive' rfl
  | scheduled behind rounds picked q pc found =>
    have woken := (inv.picked pc found).woken
    have before : s.live p = false := (congrFun woken.live p).symm.trans dead
    have awake : (s.tasks p).status ≠ .sleep := statuses.gone p before
    rw [show (picked.tasks p).status = (s.tasks p).status from woken.status awake]
    exact awake
  | _ => exact statuses.gone p dead

/-- A switch keeps sleeping and waiting tasks where they are. -/
theorem Statuses.switch (statuses : Statuses s) (inv : Integrity s) {rounds : Nat}
    (taken : LibcoLite.step s (.pick rounds) = .ok s') : Statuses s' := by
  obtain ⟨behind, pc, control, live, _⟩ := step_switch_frame inv taken
  have runs := step_pick inv taken
  -- a task that is not running had its status before
  have before (p : TaskPtr) (alive : s'.live p = true)
      (idle : (s'.tasks p).status ≠ .running) : (s'.tasks p).status = (s.tasks p).status := by
    cases step_status inv taken (live ▸ alive) with
    | keeps same => exact same
    | wakes _ _ running => exact absurd running idle
    | waits _ reason =>
      rcases reason with ⟨_, passes⟩ | ⟨call, fd, there⟩
      · exact absurd rfl passes
      · rename_i own _
        rw [own, pc] at there
        cases there
  constructor
  · intro p alive asleep
    have away : p ≠ s'.current := by
      rintro rfl
      cases runs.symm.trans asleep
    have status := before p alive (by simp [asleep])
    rcases statuses.sleeps p (live ▸ alive) (status ▸ asleep) with ⟨other, user⟩ | ⟨rfl, there⟩
    · exact .inl ⟨away, by rw [control, Function.update_of_ne other, user]⟩
    · rw [there] at pc
      cases pc
      exact .inl ⟨away, by rw [control, Function.update_self]⟩
  · intro p alive waits
    rw [step_switch_pc Pc.waiting (fun _ => rfl) inv taken]
    exact statuses.waits p (live ▸ alive) (before p alive (by simp [waits]) ▸ waits)
  · intro p dead
    exact statuses.gone_step inv taken dead

/-- A task that waits behind a test of its wait loop is still in it. -/
theorem waits_on (heeded : Heeded past s) (taken : step s i = .ok s') {call : Call} {fd : Nat}
    (pc : s.pc s.current = .wait call fd) (waits : (s'.tasks s.current).status = .wait) :
    (s'.pc s.current).waiting ≠ none := by
  obtain ⟨_, kind⟩ := step_cases taken
  cases kind with
  | waitAgain => simp [State.goto, State.modify, Pc.waiting]
  | waitEnd call fd granted there bit =>
    cases (heeded.awake call fd there bit).symm.trans waits
  | writeFailed fd granted there bit =>
    rw [coWriteDone_eq] at waits
    have running := heeded.awake .write fd there bit
    simp [State.goto, State.registered, TaskStruct.narrow, running] at waits
  | writeEnd fd granted there bit =>
    rw [coWriteDone_eq] at waits
    have running := heeded.awake .write fd there bit
    simp [State.goto, State.registered, TaskStruct.narrow, running] at waits
  | _ => simp_all

/-- Every step that does not refuse a blocking call keeps sleeping and waiting tasks where they
are. -/
theorem Statuses.step (statuses : Statuses s) (inv : Integrity s) (heeded : Heeded past s)
    (succeeds : CallsSucceed ⟨s, i, s'⟩) (taken : LibcoLite.step s i = .ok s') : Statuses s' := by
  rcases i.switches with ⟨rounds, rfl⟩ | other
  · exact statuses.switch inv taken
  have current := (step_cases taken).2.current other
  -- the current task is not about to call `schedule`
  have resting {behind : Pc} : s.pc s.current ≠ .schedule behind := by
    intro pc
    obtain ⟨rounds, switches⟩ := step_scheduled taken pc
    exact other rounds switches
  have fresh {p : TaskPtr} (alive : s'.live p = true) (idle : (s'.tasks p).status ≠ .running) :
      s.live p = true := by
    cases old : s.live p with
    | true => rfl
    | false => exact absurd (step_created inv taken alive old).1 idle
  constructor
  · intro p alive asleep
    have old := fresh alive (by simp [asleep])
    rw [current]
    by_cases own : p = s.current
    · subst own
      cases step_status inv taken old with
      | keeps same =>
        rcases statuses.sleeps _ old (same ▸ asleep) with ⟨away, _⟩ | ⟨_, pc⟩
        · exact absurd rfl away
        · exact absurd pc resting
      | sleeps seconds _ pc =>
        right
        obtain ⟨_, kind⟩ := step_cases taken
        cases kind with
        | sleep => exact ⟨rfl, Function.update_self ..⟩
      | waits _ _ waits => cases waits.symm.trans asleep
      | exits _ _ exited => cases exited.symm.trans asleep
      | wakes rounds => exact absurd rfl (other rounds)
      | dispatched _ _ _ _ running => cases running.symm.trans asleep
    · left
      refine ⟨own, ?_⟩
      rcases step_others inv taken other own alive with ⟨dead, _⟩ | ⟨_, pc, _⟩
      · cases dead.symm.trans old
      have status : (s.tasks p).status = .sleep := by
        cases step_status inv taken old with
        | keeps same => exact same ▸ asleep
        | sleeps _ here => exact absurd here own
        | waits here => exact absurd here own
        | exits here => exact absurd here own
        | wakes rounds => exact absurd rfl (other rounds)
        | dispatched _ _ _ _ running => cases running.symm.trans asleep
      rcases statuses.sleeps p old status with ⟨_, user⟩ | ⟨here, _⟩
      · exact pc.trans user
      · exact absurd here own
  · intro p alive waits
    have old := fresh alive (by simp [waits])
    by_cases own : p = s.current
    · subst own
      cases step_status inv taken old with
      | keeps same =>
        -- a waiting task does not leave its wait loop
        have before : (s.tasks s.current).status = .wait := same ▸ waits
        cases pc : s.pc s.current with
        | wait call fd => exact waits_on heeded taken pc waits
        | schedule behind => exact absurd pc resting
        | _ =>
          apply absurd (statuses.waits _ old before)
          rw [pc]
          exact fun inside => inside rfl
      | sleeps _ _ _ asleep => cases asleep.symm.trans waits
      | waits _ reason =>
        rcases reason with ⟨user, passes⟩ | ⟨call, fd, pc⟩
        · have stays : s'.pc s.current ≠ .user := succeeds (.inl passes)
          cases i with
          | io call fd granted =>
            rw [waits_of_io taken stays]
            simp [Pc.waiting]
          | _ => exact absurd rfl passes
        · exact waits_on heeded taken pc waits
      | exits _ _ exited => cases exited.symm.trans waits
      | wakes rounds => exact absurd rfl (other rounds)
      | dispatched _ _ _ _ running => cases running.symm.trans waits
    · rcases step_others inv taken other own alive with ⟨dead, _⟩ | ⟨_, pc, _⟩
      · cases dead.symm.trans old
      rw [pc]
      apply statuses.waits p old
      cases step_status inv taken old with
      | keeps same => exact same ▸ waits
      | sleeps _ here => exact absurd here own
      | waits here => exact absurd here own
      | exits here => exact absurd here own
      | wakes rounds => exact absurd rfl (other rounds)
      | dispatched _ _ _ _ running => cases running.symm.trans waits
  · intro p dead
    exact statuses.gone_step inv taken dead

/-! ## Steps -/

/-- A step that moves the current task on leaves the others as they are. -/
theorem blocking_mode {there : Pc} {mode : Mode}
    (pc : s'.pc = Function.update s.pc s.current there)
    (status : ∀ p, p ≠ s.current → (s'.tasks p).status = (s.tasks p).status)
    (goes : there.mode (s'.tasks s.current).status = mode) :
    s'.blocking.mode = Function.update s.blocking.mode s.current mode := by
  funext p
  by_cases own : p = s.current
  · simp [State.blocking, own, pc, goes]
  · simp [State.blocking, pc, Function.update_of_ne own, status p own]

/-- The current task goes on and keeps its turn. -/
theorem blocking_goes {there : Pc} {mode : Mode} (notYields : s.blocking.yields = false)
    (current : s'.current = s.current) (table : s'.task = s.task)
    (pc : s'.pc = Function.update s.pc s.current there) (turn : there.yields = false)
    (status : ∀ p, p ≠ s.current → (s'.tasks p).status = (s.tasks p).status)
    (goes : there.mode (s'.tasks s.current).status = mode) :
    s'.blocking = s.blocking.goes mode := by
  refine Blocking.ext current table (blocking_mode pc status goes) ?_
  have yields : s'.blocking.yields = false := by simp [State.blocking, current, pc, turn]
  exact yields.trans notYields.symm

/-- The current task comes to a call of `schedule`. -/
theorem blocking_rests {behind : Pc} {mode : Mode} (current : s'.current = s.current)
    (table : s'.task = s.task) (pc : s'.pc = Function.update s.pc s.current (.schedule behind))
    (status : ∀ p, p ≠ s.current → (s'.tasks p).status = (s.tasks p).status)
    (goes : behind.mode (s'.tasks s.current).status = mode) :
    s'.blocking = (s.blocking.goes mode).rests := by
  refine Blocking.ext current table (blocking_mode pc status goes) ?_
  have yields : s'.blocking.yields = true := by simp [State.blocking, current, pc, Pc.yields]
  exact yields

/-- A task in its own code does not sleep. -/
theorem Statuses.own (statuses : Statuses s) (inv : Integrity s)
    (pc : (s.pc s.current).yields = false) :
    (s.tasks s.current).status ≠ .sleep := by
  intro asleep
  rcases statuses.sleeps _ inv.seated.alive asleep with ⟨away, _⟩ | ⟨_, there⟩
  · exact absurd rfl away
  · rw [there] at pc
    cases pc

/-- Handling an event moves the event loop on and changes the head of the queue. -/
theorem step_dequeues (taken : step s i = .ok s') {ev : EpollEvent} {rest : List EpollEvent}
    (pc : s.pc s.current = .handle (ev :: rest)) : s'.current = s.current ∧ s'.task = s.task ∧
      s'.pc = Function.update s.pc s.current (.handle rest) := by
  obtain ⟨_, kind⟩ := step_cases taken
  cases kind with
  | handled ev' rest' p links there =>
    obtain ⟨rfl, rfl⟩ := List.cons.inj (Pc.handle.inj (pc.symm.trans there))
    exact ⟨rfl, rfl, rfl⟩
  | _ => simp_all

/-- An event that delivers wakes the owner of its descriptor. -/
theorem Guarded.wakes (guarded : Guarded owner looper queue s)
    (delivered : delivers ⟨s, i, s'⟩ = true)
    (taken : LibcoLite.step s i = .ok s') {ev : EpollEvent} {rest : List EpollEvent}
    (pc : s.pc s.current = .handle (ev :: rest)) :
    ∃ call, s.blocking.mode (owner ev.dataFd) = .blocked call ev.dataFd ∧
      s'.blocking = { s.blocking with
        mode := Function.update
          (Function.update s.blocking.mode (owner ev.dataFd) (.woken call ev.dataFd)) s.current
          (.delivering (rest.map EpollEvent.dataFd)) } := by
  obtain ⟨p, call, first, mine, blocked⟩ := guarded.waiter pc List.mem_cons_self
  have away : p ≠ s.current := by
    rintro rfl
    have inside := blocked.inside
    rw [pc] at inside
    cases inside
  obtain ⟨current, table, control⟩ := step_dequeues taken pc
  have stays : s'.pc p = s.pc p := by rw [control, Function.update_of_ne away]
  obtain ⟨_, q, first', _, tasks, _⟩ := step_handled taken pc
  obtain rfl := Option.some.inj (first.symm.trans first')
  obtain ⟨call', ready⟩ :=
    guarded.served.ready_of_delivers guarded.queueing taken delivered pc first away stays
  obtain rfl : call = call' := by
    have inside := blocked.inside
    rw [← stays, ready.inside] at inside
    cases inside
    rfl
  have waits : s.blocking.mode p = .blocked call ev.dataFd := by
    show (s.pc p).mode (s.tasks p).status = _
    rw [Pc.mode_of_waiting blocked.inside, blocked.status]
    rfl
  have woken : s'.blocking.mode p = .woken call ev.dataFd := by
    show (s'.pc p).mode (s'.tasks p).status = _
    rw [ready.inside, ready.status]
    rfl
  rw [mine]
  refine ⟨call, waits, Blocking.ext current table ?_ ?_⟩
  · funext r
    by_cases own : r = s.current
    · simp [State.blocking, own, control, Pc.mode]
    · by_cases here : r = p
      · simp [here, woken, Function.update_of_ne away]
      · simp [State.blocking, control, tasks, Function.update_of_ne own, Function.update_of_ne here]
  · simp [State.blocking, current, control, pc, Pc.yields]

/-- Every careful step but a switch is one of the current coroutine. -/
theorem careful_acts (guarded : Guarded owner looper queue s) (statuses : Statuses s)
    (heeded : Heeded past s) (named : Named s) (careful : Careful owner looper ⟨s, i, s'⟩)
    (other : ∀ rounds, i ≠ .pick rounds) (taken : step s i = .ok s') :
    Blocking.Step owner s.blocking i s'.blocking := by
  have inv := guarded.inv
  have notYields : s.blocking.yields = false := by
    show (s.pc s.current).yields = false
    cases pc : s.pc s.current with
    | schedule behind =>
      obtain ⟨rounds, switches⟩ := step_scheduled taken pc
      exact absurd switches (other rounds)
    | _ => rfl
  have awake := statuses.own inv notYields
  have own (pc : s.pc s.current = .user) : s.blocking.doing = .own := by
    show (s.pc s.current).mode _ = _
    rw [pc]
    exact if_neg awake
  have does {mode : Mode} {pc : Pc} (there : s.pc s.current = pc)
      (same : pc.mode (s.tasks s.current).status = mode) : s.blocking.doing = mode := by
    show (s.pc s.current).mode (s.tasks s.current).status = _
    rw [there, same]
  refine .acts i _ notYields ?_
  -- the current task goes on, or comes to a call of `schedule`
  have goes (there : Pc) {mode : Mode} (current : s'.current = s.current)
      (table : s'.task = s.task) (pc : s'.pc = Function.update s.pc s.current there)
      (turn : there.yields = false)
      (status : ∀ p, p ≠ s.current → (s'.tasks p).status = (s.tasks p).status)
      (same : there.mode (s'.tasks s.current).status = mode)
      (acts : Blocking.Acts owner s.blocking i (s.blocking.goes mode)) :
      Blocking.Acts owner s.blocking i s'.blocking := by
    rwa [blocking_goes notYields current table pc turn status same]
  have rests (behind : Pc) {mode : Mode} (current : s'.current = s.current)
      (table : s'.task = s.task)
      (pc : s'.pc = Function.update s.pc s.current (.schedule behind))
      (status : ∀ p, p ≠ s.current → (s'.tasks p).status = (s.tasks p).status)
      (same : behind.mode (s'.tasks s.current).status = mode)
      (acts : Blocking.Acts owner s.blocking i (s.blocking.goes mode).rests) :
      Blocking.Acts owner s.blocking i s'.blocking := by
    rwa [blocking_rests current table pc status same]
  obtain ⟨_, kind⟩ := step_cases taken
  cases kind with
  | create cid pc =>
    rcases coCreate_cases cid s with ⟨id, bound, free, lowest, made⟩ | ⟨full, made⟩
    · have away := inv.notFresh inv.seated.alive
      have new (k : Nat) : s.task k ≠ some s.fresh := by
        intro held
        exact inv.notFresh (inv.slots k _ held).2.1 rfl
      have after : (coCreate cid s).1.blocking = { s.blocking with
          table := Function.update s.blocking.table id (some s.fresh)
          mode := Function.update s.blocking.mode s.fresh .own } := by
        rw [made]
        simp only [State.blocking, Function.update_of_ne away, Blocking.mk.injEq, true_and,
          and_true]
        funext p
        by_cases here : p = s.fresh
        · simp [here, Pc.mode, TaskStruct.calloc]
        · simp [Function.update_of_ne here]
      rw [after]
      exact .creates cid id s.fresh (own pc) bound free lowest new
    · rw [made]
      exact .full cid (own pc) full
  | join cid pc =>
    exact goes (.join cid) rfl rfl rfl rfl (fun _ _ => rfl) rfl (.joins cid (own pc))
  | sleep seconds pc =>
    refine rests .user rfl rfl rfl ?_ ?_ (.sleeps seconds (own pc))
    · intro p away
      simp [coSleep, getmstime, State.goto, State.modify, Function.update_of_ne away]
    · simp [coSleep, getmstime, State.goto, State.modify, Pc.mode]
  | refused call fd granted tsk ctl pc =>
    exact absurd (Function.update_self ..) (careful.succeeds (.inl (by simp [Input.descriptor])))
  | queued call fd granted tsk ctl links pc bound registers =>
    refine goes (.wait call fd) rfl rfl rfl rfl ?_ ?_
      (.blocks call fd granted (own pc) (careful.owned fd rfl).2.2)
    · intro p away
      exact congrArg TaskStruct.status (Function.update_of_ne away _ _)
    · have waits : tsk.status = .wait := registers.lacks.1
      simp [State.goto, State.registered, Pc.mode, waits]
  | eventloop pc => exact goes .epollWait rfl rfl rfl rfl (fun _ _ => rfl) rfl (.loops (own pc))
  | close fd pc => exact .closes fd (own pc)
  | ret pc notInit =>
    refine goes .cleanup rfl rfl rfl rfl ?_ rfl (.ends (own pc) notInit)
    intro p away
    exact congrArg TaskStruct.status (Function.update_of_ne away _ _)
  | joinAgain cid p pc bound slot alive notExit =>
    have joining := does pc rfl
    refine rests (.join cid) rfl rfl rfl (fun _ _ => rfl) joining.symm ?_
    rw [Blocking.goes_doing]
    refine .joinsOn cid p joining slot fun ended => notExit ?_
    exact guarded.ended.exited p alive (Pc.mode_eq_ended.mp ended)
  | joinEnd cid p pc bound slot alive exited =>
    have ended : s.blocking.mode p = .ended := Pc.mode_eq_ended.mpr (inv.exits p alive exited)
    have joined : Blocking.Acts owner s.blocking .run { s.blocking.goes .own with
        table := Function.update s.task cid none } := .joined cid p (does pc rfl) slot ended
    convert joined using 1
    refine Blocking.ext rfl rfl (blocking_mode rfl (fun _ _ => rfl) (if_neg awake)) ?_
    show _ = s.blocking.yields
    rw [notYields]
    simp [State.blocking, State.goto, State.free, Pc.yields]
  | waitAgain call fd granted pc lacks =>
    have inside : (s.pc s.current).waiting = some (call, fd) := by rw [pc]; rfl
    have waits : (s.tasks s.current).status = .wait := by
      rcases guarded.served.waits _ call fd inv.seated.alive inside with member | ready
      · obtain ⟨_, _, blocked⟩ := guarded.queueing.members fd _ member
        exact blocked.status
      · exact absurd lacks ready.received
    have blocked : s.blocking.doing = .blocked call fd := does pc (by simp [Pc.mode, waits])
    have same : Blocking.Acts owner s.blocking (.ctl granted)
        (s.blocking.goes (.blocked call fd)).rests := by
      rw [← blocked, Blocking.goes_doing]
      exact .waits call fd granted blocked
    refine rests (.wait call fd) rfl rfl rfl ?_ ?_ same
    · intro p away
      exact congrArg TaskStruct.status (Function.update_of_ne away _ _)
    · simp [State.goto, State.modify, Pc.mode]
  | waitEnd call fd granted pc bit =>
    have running := heeded.awake call fd pc bit
    have woken : s.blocking.doing = .woken call fd := does pc (by simp [Pc.mode, running])
    exact goes (.syscall call fd) rfl rfl rfl rfl (fun _ _ => rfl) rfl
      (.passes call fd granted woken)
  | writeFailed fd granted pc =>
    exact absurd (Function.update_self ..) (careful.succeeds (.inr (by simp [pc, Pc.waiting])))
  | writeEnd fd granted pc bit =>
    have running := heeded.awake .write fd pc bit
    have woken : s.blocking.doing = .woken .write fd := does pc (by simp [Pc.mode, running])
    rw [coWriteDone_eq] at goes ⊢
    refine goes (.syscall .write fd) rfl rfl rfl rfl ?_ rfl (.passes .write fd granted woken)
    intro p away
    exact congrArg TaskStruct.status (Function.update_of_ne away _ _)
  | syscall call fd pc =>
    exact goes .user rfl rfl rfl rfl (fun _ _ => rfl) (if_neg awake)
      (.returns call fd (does pc rfl))
  | timeout reports pc none =>
    obtain ⟨names, _⟩ := dataFd_of_epollWait named none
    obtain rfl : reports = [] := List.map_eq_nil_iff.mp names.symm
    have polling := does pc rfl
    refine rests .epollWait rfl rfl rfl (fun _ _ => rfl) polling.symm ?_
    rw [Blocking.goes_doing]
    exact .idles polling
  | reported reports ev rest pc polled =>
    obtain ⟨names, distinct⟩ := dataFd_of_epollWait named polled
    refine goes (.handle (ev :: rest)) rfl rfl rfl rfl (fun _ _ => rfl)
      (congrArg Mode.delivering names)
      (.reports reports (does pc rfl) ?_ distinct)
    rintro rfl
    cases names
  | handled ev rest p links pc =>
    obtain ⟨call, waits, after⟩ := guarded.wakes careful.delivered taken pc
    rw [after]
    exact .wakes call ev.dataFd (rest.map EpollEvent.dataFd) (does pc rfl) waits
  | drained pc =>
    exact rests .epollWait rfl rfl rfl (fun _ _ => rfl) rfl (.drained (does pc rfl))
  | released links pc =>
    have cleans : Blocking.Acts owner s.blocking .run s.blocking := .cleans (does pc rfl)
    convert cleans using 1
    refine Blocking.ext rfl rfl ?_ rfl
    funext p
    by_cases own : p = s.current
    · simp [State.blocking, own]
    · simp [State.blocking, Function.update_of_ne own]
  | cleaned pc =>
    have ended := does pc rfl
    refine rests .finished rfl rfl rfl (fun _ _ => rfl) ended.symm ?_
    rw [Blocking.goes_doing]
    exact .leaves ended
  | scheduled behind rounds => exact absurd rfl (other rounds)

/-- A running task that has not returned is runnable. -/
theorem Pc.runnable_of_running {pc : Pc} (more : ¬pc.exiting) :
    (pc.mode .running).runnable = true := by
  induction pc with
  | schedule behind ih => exact ih more
  | cleanup => exact absurd trivial more
  | finished => exact absurd trivial more
  | _ => rfl

/-- A task that is not running, and not about to go to sleep, is not runnable. -/
theorem Statuses.idle (statuses : Statuses s) (inv : Integrity s) (alive : s.live p = true)
    (away : p ≠ s.current) (idle : (s.tasks p).status ≠ .running) :
    (s.blocking.mode p).runnable = false := by
  show ((s.pc p).mode (s.tasks p).status).runnable = false
  cases status : (s.tasks p).status with
  | running => exact absurd status idle
  | sleep =>
    rcases statuses.sleeps p alive status with ⟨_, user⟩ | ⟨own, _⟩
    · rw [user]
      rfl
    · exact absurd own away
  | wait =>
    obtain ⟨⟨call, fd⟩, inside⟩ := Option.ne_none_iff_exists'.mp (statuses.waits p alive status)
    rw [Pc.mode_of_waiting inside]
    rfl
  | exit =>
    rw [Pc.mode_eq_ended.mpr (inv.exits p alive status)]
    rfl

/-- A switch is one to the next runnable coroutine. -/
theorem careful_switches (inv : Integrity s) (statuses : Statuses s) (suspended : Suspended s)
    (ended : Ended s') {rounds : Nat} (taken : step s (.pick rounds) = .ok s') :
    Blocking.Step owner s.blocking (.pick rounds) s'.blocking := by
  have inv' := inv.step taken
  have statuses' := statuses.switch inv taken
  have runs := step_pick inv taken
  obtain ⟨behind, picked, pc, _, _, ⟨woken, _⟩, after⟩ := step_switch inv taken
  have tasks : s'.tasks = picked.tasks := by
    have same := congrArg State.tasks after
    exact same
  obtain ⟨_, pc', control, live, _⟩ := step_switch_frame inv taken
  have table : s'.task = s.task := by
    cases step_table inv taken with
    | keeps table => exact table
  have alive {k : Nat} {q : TaskPtr} (slot : s.task k = some q) : s.live q = true :=
    (inv.slots k q slot).2.1
  have home := inv'.housed _ inv'.seated.alive
  have modes (q : TaskPtr) : s'.blocking.mode q = (s.pc q).mode (s'.tasks q).status :=
    step_switch_pc (Pc.mode _) (fun _ => rfl) inv taken q
  have yields : s.blocking.yields = true := congrArg Pc.yields pc
  have quiet : s'.blocking.yields = false := by
    show (s'.pc s'.current).yields = false
    have rests : (s'.pc s'.current).suspended := by
      rw [control]
      by_cases same : s'.current = s.current
      · rw [same, Function.update_self]
        exact suspended.behind _ pc'
      · rw [Function.update_of_ne same]
        exact suspended.others _ (live ▸ inv'.seated.alive) same
    cases there : s'.pc s'.current with
    | schedule behind => exact absurd there (rests.not_schedule behind)
    | _ => rfl
  have changes (q : TaskPtr) : s'.blocking.mode q = s.blocking.mode q ∨
      s.blocking.mode q = .asleep ∧ s'.blocking.mode q = .own := by
    rw [modes, tasks]
    rcases woken.block q with same | ⟨asleep, runs⟩
    · left
      rw [same]
      rfl
    · right
      rw [runs]
      have asleep : (s.tasks q).status = .sleep := asleep
      cases used : s.live q with
      | false => exact absurd asleep (statuses.gone q used)
      | true =>
        show (s.pc q).mode (s.tasks q).status = _ ∧ _
        rw [asleep]
        rcases statuses.sleeps q used asleep with ⟨_, user⟩ | ⟨_, user⟩
        · rw [user]
          exact ⟨rfl, rfl⟩
        · rw [user]
          exact ⟨rfl, rfl⟩
  have seen : s'.blocking = { s.blocking with
      current := s'.current, mode := s'.blocking.mode, yields := false } :=
    Blocking.ext rfl table rfl quiet
  rw [seen]
  refine .switches rounds (s.tasks s.current).id (s'.tasks s'.current).id s'.blocking.mode
    s'.current yields changes inv.seated.bound (inv.housed _ inv.seated.alive) inv'.seated.bound
    ((congrFun table _).symm.trans home) ?_ ?_
  · -- the task `pick` returns is runnable
    show ((s'.pc s'.current).mode (s'.tasks s'.current).status).runnable = true
    rw [runs]
    apply Pc.runnable_of_running
    intro exiting
    cases runs.symm.trans (ended.exited _ inv'.seated.alive exiting)
  · -- nobody in a nearer slot is
    intro k bound nearer q slot
    have used : s'.live q = true := live ▸ alive slot
    have number : (s'.tasks q).id = k := (inv'.slots k q ((congrFun table k).trans slot)).2.2.1
    have away : q ≠ s'.current := by
      rintro rfl
      rw [number] at nearer
      exact lt_irrefl _ nearer
    apply statuses'.idle inv' used away
    intro running
    have further := step_nearer inv taken (alive slot) running (Ne.symm away)
    rw [number] at further
    exact lt_asymm nearer further

/-! ## Runs -/

/-- In careful runs, who sleeps and who waits shows in the control points. -/
theorem statuses_of_run (run : ThreadRun self clock past s)
    (careful : Along (Careful owner looper) past) : Statuses s := by
  induction run with
  | start => exact .init self clock
  | move before taken ih =>
    obtain ⟨last, rest⟩ := along_cons.mp careful
    exact (ih rest).step (integrity_of_run before) (heeded_of_run before) last.succeeds taken

/-- Every step of a careful run is one of blocking coroutines. -/
theorem step_blocks (run : ThreadRun self clock past s)
    (careful : Along (Careful owner looper) (⟨s, i, s'⟩ :: past)) (taken : step s i = .ok s') :
    Blocking.Step owner s.blocking i s'.blocking := by
  obtain ⟨last, rest⟩ := along_cons.mp careful
  obtain ⟨queue, guarded⟩ := guarded_of_run run rest
  have statuses := statuses_of_run run rest
  rcases i.switches with ⟨rounds, rfl⟩ | other
  · obtain ⟨queue', guarded'⟩ := guarded.step run last taken
    exact careful_switches guarded.inv statuses (suspended_of_run run) guarded'.ended taken
  · exact careful_acts guarded statuses (heeded_of_run run) (named_of_run run) last other taken

/-- A thread starts as its coroutines do. -/
theorem blocking_init (self : EnvPtr) (clock : Nat → Nat) :
    (State.init self clock).blocking = .init := by
  refine Blocking.ext rfl rfl ?_ rfl
  funext p
  show (if ((State.init self clock).tasks p).status = .sleep then Mode.asleep else .own) = .own
  by_cases root : p = initTask
  · simp [State.init, root]
  · simp [State.init, Function.update_of_ne root, TaskStruct.calloc]

/-- A move of a thread as a move of its coroutines. -/
abbrev blockingMove : Move State Input → Move Blocking Input :=
  Move.view State.blocking fun _ i => i

/-- Every run of a careful program is a run of coroutines that block: each call waits for the
first event on its descriptor behind it, and turns go to the next runnable coroutine. -/
theorem careful_runs_refine_blocking_calls (run : ThreadRun self clock past s)
    (careful : Along (Careful owner looper) past) :
    Blocking.BlockingRun owner (past.map blockingMove) s.blocking := by
  have trace := run.simulates State.blocking _ (fun _ _ _ _ => step_blocks) careful
  rwa [blocking_init] at trace

/-- Where the event has not been handled, the reader is blocked. -/
theorem careful_runs_refine_blocking_calls_joinedReader :
    Blocking.BlockingRun (fun _ => 1) ((replayMoves 3 joinedReader).map blockingMove)
        (replay 3 joinedReader).blocking ∧
      (replay 3 joinedReader).blocking.mode 1 = .blocked .read 3 := by
  have run := run_of_replay 3 joinedReader (by decide) (by decide) (by decide +kernel)
  have careful : Along (Careful (fun _ => 1) 0) (replayMoves 3 joinedReader) := by
    unfold Along
    decide +kernel
  exact ⟨careful_runs_refine_blocking_calls run careful, by decide +kernel⟩

/-- The descriptor whose system call a move performs. -/
def performedFd (move : Move State Input) : Option Nat :=
  match move.before.pc move.before.current, move.input with
  | .syscall _ fd, .run => some fd
  | _, _ => none

/-- What a task does before a step, from its control point. -/
theorem doing_of_pc {pc : Pc} (there : s.pc s.current = pc) :
    s.blocking.yields = pc.yields ∧
      s.blocking.doing = pc.mode (s.tasks s.current).status := by
  subst there
  exact ⟨rfl, rfl⟩

/-- Events that are handled are events that wake. -/
theorem wakesOn_eq (fd : Nat) (move : Move State Input) :
    Blocking.wakesOn fd (blockingMove move) = decide (handledFd move = some fd) := by
  obtain ⟨s, i, s'⟩ := move
  cases pc : s.pc s.current with
  | handle events =>
    obtain ⟨yields, doing⟩ := doing_of_pc pc
    cases events with
    | nil => simp [Blocking.wakesOn, Move.view, yields, doing, handledFd, pc, Pc.mode, Pc.yields]
    | cons ev rest =>
      cases i <;> simp [Blocking.wakesOn, Move.view, yields, doing, handledFd, pc, Pc.mode,
        Pc.yields]
  | user =>
    obtain ⟨yields, doing⟩ := doing_of_pc pc
    by_cases asleep : (s.tasks s.current).status = .sleep <;>
      simp [Blocking.wakesOn, Move.view, yields, doing, handledFd, pc, Pc.mode, Pc.yields, asleep]
  | wait call fd' =>
    obtain ⟨yields, doing⟩ := doing_of_pc pc
    by_cases running : (s.tasks s.current).status = .running <;>
      simp [Blocking.wakesOn, Move.view, yields, doing, handledFd, pc, Pc.mode, Pc.yields, running]
  | _ =>
    obtain ⟨yields, doing⟩ := doing_of_pc pc
    simp [Blocking.wakesOn, Move.view, yields, doing, handledFd, pc, Pc.mode, Pc.yields]

/-- System calls that are performed are returns from calls. -/
theorem returnsFrom_eq (fd : Nat) (move : Move State Input) :
    Blocking.returnsFrom fd (blockingMove move) = decide (performedFd move = some fd) := by
  obtain ⟨s, i, s'⟩ := move
  cases pc : s.pc s.current with
  | syscall call fd' =>
    obtain ⟨yields, doing⟩ := doing_of_pc pc
    cases i <;> simp [Blocking.returnsFrom, Move.view, yields, doing, performedFd, pc, Pc.mode,
      Pc.yields]
  | user =>
    obtain ⟨yields, doing⟩ := doing_of_pc pc
    by_cases asleep : (s.tasks s.current).status = .sleep <;>
      simp [Blocking.returnsFrom, Move.view, yields, doing, performedFd, pc, Pc.mode, Pc.yields,
        asleep]
  | wait call fd' =>
    obtain ⟨yields, doing⟩ := doing_of_pc pc
    by_cases running : (s.tasks s.current).status = .running <;>
      simp [Blocking.returnsFrom, Move.view, yields, doing, performedFd, pc, Pc.mode, Pc.yields,
        running]
  | _ =>
    obtain ⟨yields, doing⟩ := doing_of_pc pc
    simp [Blocking.returnsFrom, Move.view, yields, doing, performedFd, pc, Pc.mode, Pc.yields]

/-- Along every run of a careful program, the blocking calls on a descriptor, the events handled
for it and the system calls performed on it alternate: no event is lost, none wakes twice,
and no call returns without one. -/
theorem calls_events_and_returns_alternate (run : ThreadRun self clock past s)
    (careful : Along (Careful owner looper) past) (fd : Nat) :
    past.countP (fun move => performedFd move = some fd) ≤
        past.countP (fun move => handledFd move = some fd) ∧
      past.countP (fun move => handledFd move = some fd) ≤
        past.countP (fun move => move.input.descriptor = some fd) ∧
      past.countP (fun move => move.input.descriptor = some fd) ≤
        past.countP (fun move => performedFd move = some fd) + 1 := by
  have trace := run.simulates State.blocking _ (fun _ _ _ _ => step_blocks) careful
  rw [blocking_init] at trace
  have balanced := Blocking.balanced_of_run trace
  have events := balanced.events fd
  have returns := balanced.returns fd
  have handled : Blocking.wakesOn fd ∘ blockingMove =
      fun move => decide (handledFd move = some fd) := funext (wakesOn_eq fd)
  have performed : Blocking.returnsFrom fd ∘ blockingMove =
      fun move => decide (performedFd move = some fd) := funext (returnsFrom_eq fd)
  have called : Blocking.calls fd ∘ blockingMove =
      fun move => decide (move.input.descriptor = some fd) := rfl
  rw [List.countP_map, List.countP_map, called, handled] at events
  rw [List.countP_map, List.countP_map, handled, performed] at returns
  by_cases waits : (s.blocking.mode (owner fd)).inCall = some (fd, false)
  · -- a coroutine does not both wait for its event and have it
    have lacks : (s.blocking.mode (owner fd)).inCall ≠ some (fd, true) := by
      intro came
      cases waits.symm.trans came
    rw [if_pos waits] at events
    rw [if_neg lacks] at returns
    omega
  · rw [if_neg waits] at events
    split at returns <;> omega

/-- The reader's event is handled, and it returns from its call. -/
def answeredReader : List Input :=
  joinedReader ++ [.run, .run, .pick 1, .ctl true, .run]

/-- The reader has made one call, for which one event has come. -/
theorem calls_events_and_returns_alternate_answeredReader :
    (replayMoves 3 answeredReader).countP (fun move => performedFd move = some 3) ≤
        (replayMoves 3 answeredReader).countP (fun move => handledFd move = some 3) ∧
      (replayMoves 3 answeredReader).countP (fun move => performedFd move = some 3) = 1 := by
  have run := run_of_replay 3 answeredReader (by decide) (by decide) (by decide +kernel)
  have careful : Along (Careful (fun _ => 1) 0) (replayMoves 3 answeredReader) := by
    unfold Along
    decide +kernel
  exact ⟨(calls_events_and_returns_alternate run careful 3).1, by decide +kernel⟩

end LibcoLite
