import LibcoLite.BlockQueue

/-!
# Control points

How a step moves the control points of the tasks. The current task goes into a wait loop,
round it, into or round the event loop, or stays aside of both; every other task keeps its
control point, and its block unless it is dequeued for an event.
-/

namespace LibcoLite

/-- The control points of `co_eventloop`. -/
def Pc.looping : Pc → Prop
  | .epollWait => True
  | .handle _ => True
  | .schedule behind => behind.looping
  | _ => False

/-- A control point other than a call of `schedule`. -/
def Pc.resting : Pc → Prop
  | .schedule _ => False
  | _ => True

/-- A task that rests in a wait loop is before its test. -/
theorem Pc.resting_wait {pc : Pc} {call : Call} {fd : Nat} (resting : pc.resting)
    (waiting : pc.waiting = some (call, fd)) : pc = .wait call fd := by
  cases pc with
  | wait call' fd' =>
    obtain ⟨rfl, rfl⟩ := Prod.mk.inj (Option.some.inj waiting)
    rfl
  | schedule behind => exact absurd resting id
  | _ => cases waiting

/-- The event loop is outside the wait loops. -/
theorem Pc.waiting_of_looping {pc : Pc} (looping : pc.looping) : pc.waiting = none := by
  induction pc with
  | schedule behind ih => exact ih looping
  | wait => exact absurd looping id
  | _ => rfl

/-- A wait loop is outside the end of `start`. -/
theorem Pc.not_exiting_of_waiting {pc : Pc} {call : Call} {fd : Nat}
    (waiting : pc.waiting = some (call, fd)) : ¬pc.exiting := by
  induction pc with
  | schedule behind ih => exact ih waiting
  | cleanup => cases waiting
  | finished => cases waiting
  | _ => exact id

/-- The event loop is outside the end of `start`. -/
theorem Pc.exiting_of_looping {pc : Pc} (looping : pc.looping) : ¬pc.exiting := by
  induction pc with
  | schedule behind ih => exact ih looping
  | cleanup => exact absurd looping id
  | finished => exact absurd looping id
  | _ => exact id

/-- Where the current task goes in a step other than a switch. -/
inductive OwnStep (s : State) : Input → State → Prop where
  /-- Between control points outside the wait loops and the event loop. -/
  | aside {s' : State} {i : Input} : (s'.pc s.current).waiting = none →
      ¬(s'.pc s.current).looping → ¬(s.pc s.current).looping →
      (∀ behind, s'.pc s.current = .schedule behind → behind.resting) → OwnStep s i s'
  /-- Into a wait loop. -/
  | enters {s' : State} (call : Call) (fd : Nat) (granted : Bool) :
      ¬(s.pc s.current).looping → s'.pc s.current = .wait call fd →
      OwnStep s (.io call fd granted) s'
  /-- Back to waiting. -/
  | again {s' : State} (call : Call) (fd : Nat) (granted : Bool) :
      s.pc s.current = .wait call fd → (s.tasks s.current).revents fd &&& call.event = 0 →
      s'.pc s.current = .schedule (.wait call fd) → OwnStep s (.ctl granted) s'
  /-- Into the event loop. -/
  | starts {s' : State} : ¬(s.pc s.current).looping → s'.pc s.current = .epollWait →
      OwnStep s .eventloop s'
  /-- On in the event loop. -/
  | loops {s' : State} {i : Input} : (s.pc s.current).looping → (s'.pc s.current).looping →
      s'.pc s.current ≠ .epollWait →
      (∀ behind, s'.pc s.current = .schedule behind → behind = .epollWait) → OwnStep s i s'

/-- Every step other than a switch takes the current task one of these ways. -/
theorem step_own {s s' : State} {i : Input} (inv : Integrity s) (taken : step s i = .ok s')
    (other : ∀ rounds, i ≠ .pick rounds) : OwnStep s i s' := by
  -- control points aside of all loops
  have aside {there : Pc} (before : ¬(s.pc s.current).looping)
      (pc : s'.pc = Function.update s.pc s.current there) (waits : there.waiting = none)
      (loops : ¬there.looping) (rests : ∀ behind, there = .schedule behind → behind.resting) :
      OwnStep s i s' := by
    have here : s'.pc s.current = there := by rw [pc, Function.update_self]
    exact .aside (by rw [here]; exact waits) (by rw [here]; exact loops) before
      (by rw [here]; exact rests)
  have loops {there : Pc} (before : (s.pc s.current).looping)
      (pc : s'.pc = Function.update s.pc s.current there) (loops : there.looping)
      (moves : there ≠ .epollWait)
      (rests : ∀ behind, there = .schedule behind → behind = .epollWait) :
      OwnStep s i s' := by
    have here : s'.pc s.current = there := by rw [pc, Function.update_self]
    exact .loops before (by rw [here]; exact loops) (by rw [here]; exact moves)
      (by rw [here]; exact rests)
  obtain ⟨_, kind⟩ := step_cases taken
  cases kind with
  | create cid pc =>
    obtain ⟨_, same, _⟩ := coCreate_other cid (inv.notFresh inv.seated.alive)
    have here : (coCreate cid s).1.pc s.current = .user := same.trans pc
    exact .aside (by rw [here]; rfl) (by rw [here]; exact id) (by rw [pc]; exact id)
      (by simp [here])
  | join cid pc => exact aside (by rw [pc]; exact id) rfl rfl id (by simp)
  | sleep seconds pc => exact aside (by rw [pc]; exact id) rfl rfl id (by rintro _ ⟨⟩; trivial)
  | refused call fd granted tsk ctl pc => exact aside (by rw [pc]; exact id) rfl rfl id (by simp)
  | queued call fd granted tsk ctl links pc =>
    exact .enters call fd granted (by rw [pc]; exact id) (Function.update_self ..)
  | eventloop pc => exact .starts (by rw [pc]; exact id) (Function.update_self ..)
  | close fd pc =>
    exact .aside (by simp [pc, Pc.waiting]) (by simp [pc, Pc.looping])
      (by simp [pc, Pc.looping]) (by simp [pc])
  | ret pc notInit => exact aside (by rw [pc]; exact id) rfl rfl id (by simp)
  | joinAgain cid p pc => exact aside (by rw [pc]; exact id) rfl rfl id (by rintro _ ⟨⟩; trivial)
  | joinEnd cid p pc => exact aside (by rw [pc]; exact id) rfl rfl id (by simp)
  | waitAgain call fd granted pc waiting =>
    exact .again call fd granted pc waiting (Function.update_self ..)
  | waitEnd call fd granted pc => exact aside (by rw [pc]; exact id) rfl rfl id (by simp)
  | writeFailed fd granted pc => exact aside (by rw [pc]; exact id) rfl rfl id (by simp)
  | writeEnd fd granted pc => exact aside (by rw [pc]; exact id) rfl rfl id (by simp)
  | syscall call fd pc => exact aside (by rw [pc]; exact id) rfl rfl id (by simp)
  | timeout reports pc none =>
    exact loops (by rw [pc]; trivial) rfl trivial (by simp) (by rintro _ ⟨⟩; rfl)
  | reported reports ev rest pc some =>
    exact loops (by rw [pc]; trivial) rfl trivial (by simp) (by simp)
  | handled ev rest p links pc => exact loops (by rw [pc]; trivial) rfl trivial (by simp) (by simp)
  | drained pc => exact loops (by rw [pc]; trivial) rfl trivial (by simp) (by rintro _ ⟨⟩; rfl)
  | released links pc more removed =>
    exact .aside (by simp [pc, Pc.waiting]) (by simp [pc, Pc.looping])
      (by simp [pc, Pc.looping]) (by simp [pc])
  | cleaned pc none => exact aside (by rw [pc]; exact id) rfl rfl id (by rintro _ ⟨⟩; trivial)
  | scheduled behind rounds => exact absurd rfl (other rounds)

/-- Handling an event changes the block of the first task of its queue, and goes on. -/
theorem step_handled {s s' : State} {i : Input} (taken : step s i = .ok s')
    {ev : EpollEvent} {rest : List EpollEvent} (handles : s.pc s.current = .handle (ev :: rest)) :
    i = .run ∧ ∃ p, s.links.first ev.dataFd = some p ∧ s.live p = true ∧
      s'.tasks = Function.update s.tasks p ((s.tasks p).dispatch ev) ∧
      s'.interest = s.interest := by
  obtain ⟨_, kind⟩ := step_cases taken
  cases kind with
  | handled ev' rest' p links pc first alive =>
    obtain ⟨rfl, rfl⟩ := List.cons.inj (Pc.handle.inj (handles.symm.trans pc))
    exact ⟨rfl, p, first, alive, rfl, rfl⟩
  | _ => simp_all

/-- A switch follows a call of `pick` and makes the task it returns the current one. -/
theorem step_switch {s s' : State} {rounds : Nat} (inv : Integrity s)
    (taken : step s (.pick rounds) = .ok s') :
    ∃ behind picked, s.pc s.current = .schedule behind ∧ Integrity (s.goto behind) ∧
      pick rounds (s.goto behind) = .ok (picked, s'.current) ∧
      Picked (s.goto behind) picked s'.current ∧ s' = { picked with current := s'.current } := by
  obtain ⟨_, kind⟩ := step_cases taken
  cases kind with
  | scheduled behind _ picked p pc found =>
    exact ⟨behind, picked, pc, inv.behind pc, found, inv.picked pc found, rfl⟩

/-- A switch changes statuses, and the current task continues behind its call of `schedule`. -/
theorem step_switch_frame {s s' : State} {rounds : Nat} (inv : Integrity s)
    (taken : step s (.pick rounds) = .ok s') :
    ∃ behind, s.pc s.current = .schedule behind ∧
      s'.pc = Function.update s.pc s.current behind ∧ s'.live = s.live ∧
      ∀ p, s'.tasks p = { s.tasks p with status := (s'.tasks p).status } := by
  obtain ⟨behind, picked, pc, _, _, ⟨woken, _⟩, after⟩ := step_switch inv taken
  rw [after]
  exact ⟨behind, pc, woken.pc, woken.live, woken.fields⟩

/-- A switch leaves what a control point has in common with the calls of `schedule` in front of
it. -/
theorem step_switch_pc {α : Type} {s s' : State} {rounds : Nat} (view : Pc → α)
    (through : ∀ behind, view (.schedule behind) = view behind) (inv : Integrity s)
    (taken : step s (.pick rounds) = .ok s') (p : TaskPtr) : view (s'.pc p) = view (s.pc p) := by
  obtain ⟨behind, pc, control, _⟩ := step_switch_frame inv taken
  rw [control]
  by_cases own : p = s.current
  · rw [own, Function.update_self, pc]
    exact (through behind).symm
  · rw [Function.update_of_ne own]

/-- In a step other than a switch, another task keeps its control point, and its block unless
it is dequeued; a new task starts in its own code. -/
theorem step_others {s s' : State} {i : Input} (inv : Integrity s) (taken : step s i = .ok s')
    (other : ∀ rounds, i ≠ .pick rounds) {p : TaskPtr} (away : p ≠ s.current)
    (alive : s'.live p = true) :
    s.live p = false ∧ s'.pc p = .user ∨
      s.live p = true ∧ s'.pc p = s.pc p ∧ (s'.tasks p = s.tasks p ∨
        ∃ ev rest, s.pc s.current = .handle (ev :: rest) ∧ s.links.first ev.dataFd = some p) := by
  have kept {there : Pc} {tsk : TaskStruct} (live : s'.live = s.live)
      (pc : s'.pc = Function.update s.pc s.current there)
      (tasks : s'.tasks = Function.update s.tasks s.current tsk) :
      s.live p = true ∧ s'.pc p = s.pc p ∧ (s'.tasks p = s.tasks p ∨
        ∃ ev rest, s.pc s.current = .handle (ev :: rest) ∧ s.links.first ev.dataFd = some p) :=
    ⟨live ▸ alive, by rw [pc, Function.update_of_ne away],
      .inl (by rw [tasks, Function.update_of_ne away])⟩
  have moved {there : Pc} (live : s'.live = s.live)
      (pc : s'.pc = Function.update s.pc s.current there) (tasks : s'.tasks = s.tasks) :
      s.live p = true ∧ s'.pc p = s.pc p ∧ (s'.tasks p = s.tasks p ∨
        ∃ ev rest, s.pc s.current = .handle (ev :: rest) ∧ s.links.first ev.dataFd = some p) :=
    ⟨live ▸ alive, by rw [pc, Function.update_of_ne away], .inl (by rw [tasks])⟩
  obtain ⟨_, kind⟩ := step_cases taken
  cases kind with
  | create cid pc =>
    rcases coCreate_alive alive with ⟨before, same, tasks⟩ | ⟨rfl, user, _⟩
    · exact .inr ⟨before, same, .inl tasks⟩
    · exact .inl ⟨Bool.eq_false_iff.mpr fun used => inv.notFresh used rfl, user⟩
  | sleep seconds pc => exact .inr (kept rfl rfl rfl)
  | refused call fd granted tsk ctl pc => exact .inr (kept rfl rfl rfl)
  | queued call fd granted tsk ctl links pc => exact .inr (kept rfl rfl rfl)
  | close fd pc => exact .inr ⟨alive, rfl, .inl rfl⟩
  | ret pc notInit => exact .inr (kept rfl rfl rfl)
  | joinEnd cid q pc bound slot alive' exited =>
    refine .inr ⟨?_, Function.update_of_ne away _ _, .inl rfl⟩
    by_cases gone : p = q
    · subst gone; exact alive'
    · exact (Function.update_of_ne gone _ _).symm.trans alive
  | waitAgain call fd granted pc waiting => exact .inr (kept rfl rfl rfl)
  | writeFailed fd granted pc => exact .inr (kept rfl rfl rfl)
  | writeEnd fd granted pc => exact .inr (kept rfl rfl rfl)
  | handled ev rest q links pc first =>
    refine .inr ⟨alive, Function.update_of_ne away _ _, ?_⟩
    by_cases head : p = q
    · subst head; exact .inr ⟨ev, rest, pc, first⟩
    · exact .inl (Function.update_of_ne head _ _)
  | released links pc more removed => exact .inr ⟨alive, rfl, .inl (Function.update_of_ne away _ _)⟩
  | scheduled behind rounds => exact absurd rfl (other rounds)
  | _ => exact .inr (moved rfl rfl rfl)

end LibcoLite
