import LibcoLite.Control

/-!
# Records of descriptors

Each task records the descriptors it has registered: their numbers in the order of
registration, and for each one the events asked for. What a step does to these records and
to the interest list is said once here, and with it what holds of them in every run: a
record is zero or names its own descriptor, and so does an entry of the interest list.
-/

namespace LibcoLite

open Transition (Run)

/-! ## Suspended tasks -/

/-- A control point at which a task can have called `schedule`. -/
def Pc.suspended : Pc → Prop
  | .user => True
  | .join _ => True
  | .wait _ _ => True
  | .epollWait => True
  | .finished => True
  | _ => False

/-- Only the current task is at a control point from which no switch is made. -/
structure Suspended (s : State) : Prop where
  /-- The other tasks have called `schedule`. -/
  others : ∀ p, s.live p = true → p ≠ s.current → (s.pc p).suspended
  /-- The current task continues behind a call of `schedule` at such a control point. -/
  behind : ∀ behind, s.pc s.current = .schedule behind → behind.suspended

/-- A suspended task is not before a call of `schedule`. -/
theorem Pc.suspended.not_schedule {pc : Pc} (suspended : pc.suspended) (behind : Pc) :
    pc ≠ .schedule behind := by
  rintro rfl
  exact suspended

variable {s s' : State} {i : Input}

/-- At the start of a thread the only task is the current one. -/
theorem Suspended.init (self : EnvPtr) (clock : Nat → Nat) :
    Suspended (State.init self clock) where
  others _ _ _ := trivial
  behind behind there := by cases there

/-- Where a step other than a switch leaves the current task before a call of `schedule`, the
task continues at a control point from which a switch is made. -/
theorem StepCases.behind (kind : StepCases s i s') (inv : Integrity s)
    (other : ∀ rounds, i ≠ .pick rounds) {behind : Pc}
    (there : s'.pc s.current = .schedule behind) : behind.suspended := by
  have moved {here : Pc} (pc : s'.pc = Function.update s.pc s.current here) :
      here = .schedule behind := by
    rw [← there, pc, Function.update_self]
  cases kind with
  | create cid pc =>
    obtain ⟨_, same, _⟩ := coCreate_other cid (inv.notFresh inv.seated.alive)
    cases there.symm.trans (same.trans pc)
  | sleep seconds pc =>
    cases moved rfl
    trivial
  | joinAgain cid p pc =>
    cases moved rfl
    trivial
  | waitAgain call fd granted pc =>
    cases moved rfl
    trivial
  | timeout reports pc =>
    cases moved rfl
    trivial
  | drained pc =>
    cases moved rfl
    trivial
  | cleaned pc =>
    cases moved rfl
    trivial
  | close fd pc => cases there.symm.trans pc
  | released links pc => cases there.symm.trans pc
  | scheduled _ rounds => exact absurd rfl (other rounds)
  | _ => cases moved rfl

/-- Behind a switch all tasks are suspended. -/
theorem Suspended.switched (suspended : Suspended s) (inv : Integrity s) {rounds : Nat}
    (taken : LibcoLite.step s (.pick rounds) = .ok s') {p : TaskPtr}
    (alive : s'.live p = true) : (s'.pc p).suspended := by
  obtain ⟨behind, pc, control, live, _⟩ := step_switch_frame inv taken
  rw [control]
  by_cases own : p = s.current
  · rw [own, Function.update_self]
    exact suspended.behind behind pc
  · rw [Function.update_of_ne own]
    exact suspended.others p (live ▸ alive) own

/-- A step that leaves the current task at a control point no switch leads to is no switch. -/
theorem Suspended.notSwitched (suspended : Suspended s) (inv : Integrity s)
    (taken : LibcoLite.step s i = .ok s') (there : ¬(s'.pc s'.current).suspended) :
    ∀ rounds, i ≠ .pick rounds := by
  rintro rounds rfl
  exact there (suspended.switched inv taken (inv.step taken).seated.alive)

/-- Every step leaves the tasks other than the current one suspended. -/
theorem Suspended.step (suspended : Suspended s) (inv : Integrity s)
    (taken : LibcoLite.step s i = .ok s') : Suspended s' := by
  rcases i.switches with ⟨rounds, rfl⟩ | other
  · constructor
    · intro p alive _
      exact suspended.switched inv taken alive
    · intro next there
      have alive := (inv.step taken).seated.alive
      exact absurd there ((suspended.switched inv taken alive).not_schedule next)
  · obtain ⟨_, kind⟩ := step_cases taken
    have current := kind.current other
    constructor
    · intro p alive away
      rw [current] at away
      rcases step_others inv taken other away alive with ⟨_, user⟩ | ⟨before, same, _⟩
      · rw [user]
        trivial
      · rw [same]
        exact suspended.others p before away
    · intro behind there
      rw [current] at there
      exact kind.behind inv other there

/-- In every reachable state the tasks other than the current one are suspended. -/
theorem suspended_of_run {self : EnvPtr} {clock : Nat → Nat} {past : History}
    (run : ThreadRun self clock past s) : Suspended s := by
  induction run with
  | start => exact .init self clock
  | move before taken ih => exact ih.step (integrity_of_run before) taken

/-! ## What a step does to the records -/

/-- Two contents of a block have the same records of descriptors. -/
def TaskStruct.SameRecords (after before : TaskStruct) : Prop :=
  after.events = before.events ∧ after.fds = before.fds ∧ after.fdsIdx = before.fdsIdx

/-- The block of a task whose `co_write` has ended its wait. -/
def TaskStruct.narrow (fd : Nat) (tsk : TaskStruct) : TaskStruct :=
  { tsk with
    events := Function.update tsk.events fd
      { tsk.events fd with events := (tsk.events fd).events &&& ~~~epollOut }
    revents := Function.update tsk.revents fd (tsk.revents fd &&& ~~~epollOut) }

/-- What `co_write` passes to `epoll_ctl` behind its wait loop, and what comes of it. -/
def narrowing (fd : Nat) (granted : Bool) (s : State) : (Nat → Option EpollEvent) × Int :=
  epollCtl granted (.mod ⟨((s.tasks s.current).events fd).events &&& ~~~epollOut,
    ((s.tasks s.current).events fd).dataFd⟩) fd s.interest

/-- `co_write` changes the block of the current task and passes the new record on. -/
theorem coWriteDone_eq (fd : Nat) (granted : Bool) (s : State) :
    coWriteDone fd granted s =
      (s.registered ((s.tasks s.current).narrow fd) (narrowing fd granted s).1,
        (narrowing fd granted s).2) := by
  simp [coWriteDone, narrowing, State.registered, State.modify, TaskStruct.narrow]

/-- An input other than a blocking call or a `close`. -/
def Input.quiet : Input → Prop
  | .io _ _ _ => False
  | .close _ => False
  | _ => True

/-- What a step does to the records of the tasks and to the interest list. -/
inductive RecordStep (s : State) : Input → State → Prop where
  /-- Nothing. -/
  | keeps (i : Input) (s' : State) : i.quiet → s'.interest = s.interest →
      (∀ p, s.live p = true → (s'.tasks p).SameRecords (s.tasks p)) → RecordStep s i s'
  /-- A blocking call registers, and queues the current task unless `epoll_ctl` failed. -/
  | registers (call : Call) (fd : Nat) (granted : Bool) (s' : State) (tsk : TaskStruct)
      (ctl : (Nat → Option EpollEvent) × Int) : s.pc s.current = .user → fd < maxFd →
      Registers fd call.event granted s tsk ctl →
      s'.tasks = Function.update s.tasks s.current tsk → s'.interest = ctl.1 →
      s'.pc = Function.update s.pc s.current (if ctl.2 < 0 then .user else .wait call fd) →
      RecordStep s (.io call fd granted) s'
  /-- The wait of a `co_write` ends. -/
  | narrows (fd : Nat) (granted : Bool) (s' : State) : s.pc s.current = .wait .write fd →
      (s.tasks s.current).revents fd &&& epollOut ≠ 0 →
      s'.tasks = Function.update s.tasks s.current ((s.tasks s.current).narrow fd) →
      s'.interest = (narrowing fd granted s).1 →
      s'.pc = Function.update s.pc s.current
        (if (narrowing fd granted s).2 < 0 then .user else .syscall .write fd) →
      RecordStep s (.ctl granted) s'
  /-- An exiting task takes back a descriptor. -/
  | releases (s' : State) : s.pc s.current = .cleanup → 0 < (s.tasks s.current).fdsIdx →
      s'.tasks = Function.update s.tasks s.current
        { s.tasks s.current with fdsIdx := (s.tasks s.current).fdsIdx - 1 } →
      s'.interest = Function.update s.interest (s.tasks s.current).lastFd none →
      s'.pc = s.pc → RecordStep s .run s'
  /-- A descriptor is closed. -/
  | closes (fd : Nat) (s' : State) : s'.tasks = s.tasks →
      s'.interest = Function.update s.interest fd none → s'.pc = s.pc →
      RecordStep s (.close fd) s'

/-- Every step is of one of these kinds. -/
theorem step_records (inv : Integrity s) (taken : step s i = .ok s') : RecordStep s i s' := by
  -- a change of one block that keeps its records
  have changed {q : TaskPtr} {tsk : TaskStruct} (quiet : i.quiet)
      (interest : s'.interest = s.interest) (tasks : s'.tasks = Function.update s.tasks q tsk)
      (same : tsk.SameRecords (s.tasks q)) : RecordStep s i s' := by
    refine .keeps i s' quiet interest ?_
    intro p _
    rw [tasks]
    by_cases here : p = q
    · rw [here, Function.update_self]
      exact same
    · rw [Function.update_of_ne here]
      exact ⟨rfl, rfl, rfl⟩
  obtain ⟨_, kind⟩ := step_cases taken
  cases kind with
  | create cid pc =>
    have interest : (coCreate cid s).1.interest = s.interest := by
      rcases coCreate_cases cid s with ⟨_, _, _, _, made⟩ | ⟨_, made⟩ <;> rw [made]
    refine .keeps _ _ trivial interest ?_
    intro p alive
    obtain ⟨_, _, same⟩ := coCreate_other cid (inv.notFresh alive)
    show ((coCreate cid s).1.tasks p).SameRecords (s.tasks p)
    rw [same]
    exact ⟨rfl, rfl, rfl⟩
  | sleep seconds pc => exact changed trivial rfl rfl ⟨rfl, rfl, rfl⟩
  | refused call fd granted tsk ctl pc bound registers failed =>
    exact .registers call fd granted _ tsk ctl pc bound registers rfl rfl
      (by rw [if_pos failed]; rfl)
  | queued call fd granted tsk ctl links pc bound registers ok inserted =>
    exact .registers call fd granted _ tsk ctl pc bound registers rfl rfl
      (by rw [if_neg ok]; rfl)
  | close fd pc => exact .closes fd _ rfl rfl rfl
  | ret pc notInit => exact changed trivial rfl rfl ⟨rfl, rfl, rfl⟩
  | waitAgain call fd granted pc waiting => exact changed trivial rfl rfl ⟨rfl, rfl, rfl⟩
  | writeFailed fd granted pc received failed =>
    rw [coWriteDone_eq] at failed ⊢
    exact .narrows fd granted _ pc received rfl rfl (by rw [if_pos failed]; rfl)
  | writeEnd fd granted pc received ok =>
    rw [coWriteDone_eq] at ok ⊢
    exact .narrows fd granted _ pc received rfl rfl (by rw [if_neg ok]; rfl)
  | handled ev rest p links pc first alive removed =>
    apply changed trivial rfl rfl
    unfold TaskStruct.dispatch
    split
    · exact ⟨rfl, rfl, rfl⟩
    · exact ⟨rfl, rfl, rfl⟩
  | released links pc more removed => exact .releases _ pc more rfl rfl rfl
  | scheduled behind rounds picked p pc found =>
    have woken := (inv.picked pc found).woken
    refine .keeps _ _ trivial woken.interest ?_
    intro q _
    show (picked.tasks q).SameRecords (s.tasks q)
    rw [woken.fields q]
    exact ⟨rfl, rfl, rfl⟩
  | _ => exact .keeps _ _ trivial rfl fun p _ => ⟨rfl, rfl, rfl⟩

/-- A new task has recorded nothing. -/
theorem step_new (inv : Integrity s) (taken : step s i = .ok s') {p : TaskPtr}
    (alive : s'.live p = true) (before : s.live p = false) :
    p = s.fresh ∧ (s'.tasks p).fdsIdx = 0 ∧ ∀ fd, (s'.tasks p).events fd = ⟨0, 0⟩ := by
  have contradictory (live : s'.live = s.live) : p = s.fresh ∧ (s'.tasks p).fdsIdx = 0 ∧
      ∀ fd, (s'.tasks p).events fd = ⟨0, 0⟩ := by
    rw [live, before] at alive
    cases alive
  obtain ⟨_, kind⟩ := step_cases taken
  cases kind with
  | create cid pc =>
    rcases coCreate_alive alive with ⟨old, _⟩ | ⟨fresh, _, _, new⟩
    · cases before.symm.trans old
    · refine ⟨fresh, ?_⟩
      rw [new]
      exact ⟨rfl, fun fd => rfl⟩
  | joinEnd cid q pc bound slot alive' exited =>
    by_cases gone : p = q
    · subst gone
      cases before.symm.trans alive'
    · have old : s.live p = true := (Function.update_of_ne gone _ _).symm.trans alive
      cases before.symm.trans old
  | scheduled behind rounds picked q pc found =>
    exact contradictory (inv.picked pc found).woken.live
  | _ => exact contradictory rfl

/-- The current task registers a descriptor and is queued on it. -/
def Enters (s : State) (i : Input) (s' : State) (call : Call) (fd : Nat) : Prop :=
  ∃ granted tsk ctl, i = .io call fd granted ∧ s.pc s.current = .user ∧
    Registers fd call.event granted s tsk ctl ∧ ¬ctl.2 < 0 ∧
    s'.tasks = Function.update s.tasks s.current tsk ∧ s'.interest = ctl.1 ∧
    s'.pc = Function.update s.pc s.current (.wait call fd)

/-- A blocking call that comes to its wait loop has registered. -/
theorem enters_of_pc {call call' : Call} {fd fd' : Nat} {granted : Bool}
    (taken : step s (.io call' fd' granted) = .ok s') (there : s'.pc s.current = .wait call fd) :
    Enters s (.io call' fd' granted) s' call fd := by
  obtain ⟨_, kind⟩ := step_cases taken
  cases kind with
  | refused _ _ _ tsk ctl => cases (Function.update_self ..).symm.trans there
  | queued _ _ _ tsk ctl links pc _ registers ok =>
    obtain ⟨rfl, rfl⟩ : call' = call ∧ fd' = fd := by
      simpa [State.goto, State.registered] using there
    exact ⟨granted, tsk, ctl, rfl, pc, registers, ok, rfl, rfl, rfl⟩

/-- A task in a wait loop was in it before, or has just been queued. -/
theorem step_waiting (inv : Integrity s) (taken : step s i = .ok s') {p : TaskPtr} {call : Call}
    {fd : Nat} (alive : s'.live p = true) (inside : (s'.pc p).waiting = some (call, fd)) :
    s.live p = true ∧ (s.pc p).waiting = some (call, fd) ∨
      p = s.current ∧ Enters s i s' call fd := by
  rcases i.switches with ⟨rounds, rfl⟩ | other
  · obtain ⟨_, _, _, live, _⟩ := step_switch_frame inv taken
    rw [step_switch_pc Pc.waiting (fun _ => rfl) inv taken] at inside
    exact .inl ⟨live ▸ alive, inside⟩
  by_cases away : p = s.current
  · subst away
    cases step_own inv taken other with
    | aside waits => cases waits.symm.trans inside
    | enters call' fd' granted before there =>
      rw [there] at inside
      obtain ⟨rfl, rfl⟩ := Prod.mk.inj (Option.some.inj inside)
      exact .inr ⟨rfl, enters_of_pc taken there⟩
    | again call' fd' granted before lacks there =>
      rw [there] at inside
      left
      rw [before]
      exact ⟨inv.seated.alive, inside⟩
    | starts before there =>
      rw [there] at inside
      cases inside
    | loops before loops => cases (Pc.waiting_of_looping loops).symm.trans inside
  · rcases step_others inv taken other away alive with ⟨_, user⟩ | ⟨before, same, _⟩
    · rw [user] at inside
      cases inside
    · rw [same] at inside
      exact .inl ⟨before, inside⟩

/-- At the start of a thread no record has been made. -/
theorem init_record (self : EnvPtr) (clock : Nat → Nat) (p : TaskPtr) (fd : Nat) :
    ((State.init self clock).tasks p).events fd = ⟨0, 0⟩ := by
  by_cases root : p = initTask
  · subst root
    rfl
  · simp [State.init, Function.update_of_ne root, TaskStruct.calloc]

/-! ## Names -/

/-- Records and entries name their own descriptors. -/
structure Named (s : State) : Prop where
  /-- A record is unused or names its descriptor. -/
  records : ∀ p fd, s.live p = true → ((s.tasks p).events fd).dataFd = 0 ∨
    ((s.tasks p).events fd).dataFd = fd
  /-- A waiting task has a record of the descriptor. -/
  waits : ∀ p call fd, s.live p = true → (s.pc p).waiting = some (call, fd) →
    ((s.tasks p).events fd).dataFd = fd
  /-- An entry of the interest list names its descriptor. -/
  entries : ∀ fd entry, s.interest fd = some entry → entry.dataFd = fd

/-- At the start of a thread nothing is recorded. -/
theorem Named.init (self : EnvPtr) (clock : Nat → Nat) : Named (State.init self clock) where
  records p fd _ := by
    left
    rw [init_record]
  waits _ _ _ _ inside := by cases inside
  entries _ _ entry := by cases entry

/-- Registering leaves a record that names its descriptor. -/
theorem Registers.names {fd : Nat} {events : Mask} {granted : Bool} {tsk : TaskStruct}
    {ctl : (Nat → Option EpollEvent) × Int} (registers : Registers fd events granted s tsk ctl)
    (named : ((s.tasks s.current).events fd).dataFd = 0 ∨
      ((s.tasks s.current).events fd).dataFd = fd) : (tsk.events fd).dataFd = fd := by
  cases registers with
  | add => simp [TaskStruct.record]
  | mod seen =>
    simp only [TaskStruct.widen, TaskStruct.await, Function.update_self]
    exact named.resolve_left seen
  | keep seen => exact named.resolve_left seen

/-- Registering leaves the records of other descriptors. -/
theorem Registers.other {fd fd' : Nat} {events : Mask} {granted : Bool} {tsk : TaskStruct}
    {ctl : (Nat → Option EpollEvent) × Int} (registers : Registers fd events granted s tsk ctl)
    (different : fd' ≠ fd) : tsk.events fd' = (s.tasks s.current).events fd' := by
  cases registers with
  | add => simp [TaskStruct.record, TaskStruct.await, Function.update_of_ne different]
  | mod => simp [TaskStruct.widen, TaskStruct.await, Function.update_of_ne different]
  | keep => rfl

/-- A call of `epoll_ctl` that adds or modifies leaves the list or stores the event it
passes. -/
theorem epollCtl_stores {granted : Bool} {op : CtlOp} {event : EpollEvent} {fd : Nat}
    {interest : Nat → Option EpollEvent} (stores : op = .add event ∨ op = .mod event) :
    (epollCtl granted op fd interest).1 = interest ∨
      (epollCtl granted op fd interest).1 = Function.update interest fd (some event) := by
  by_cases failed : (epollCtl granted op fd interest).2 < 0
  · exact .inl (epollCtl_failed failed)
  · exact .inr (epollCtl_granted stores failed)

/-- Registering stores entries that name their descriptor only. -/
theorem Registers.entries {fd : Nat} {events : Mask} {granted : Bool} {tsk : TaskStruct}
    {ctl : (Nat → Option EpollEvent) × Int} (registers : Registers fd events granted s tsk ctl) :
    ctl.1 = s.interest ∨
      ∃ entry : EpollEvent, entry.dataFd = fd ∧
        ctl.1 = Function.update s.interest fd (some entry) := by
  cases registers with
  | add =>
    rcases epollCtl_stores (.inl rfl) with same | stored
    · exact .inl same
    · exact .inr ⟨⟨events, fd⟩, rfl, stored⟩
  | mod =>
    rcases epollCtl_stores (.inr rfl) with same | stored
    · exact .inl same
    · exact .inr ⟨_, rfl, stored⟩
  | keep => exact .inl rfl

/-- Storing an entry that names its descriptor keeps the names. -/
theorem entries_update {interest : Nat → Option EpollEvent} {fd : Nat}
    {entry : Option EpollEvent}
    (before : ∀ fd entry, interest fd = some entry → entry.dataFd = fd)
    (stored : ∀ event, entry = some event → event.dataFd = fd) :
    ∀ fd' entry', Function.update interest fd entry fd' = some entry' → entry'.dataFd = fd' := by
  intro fd' entry' present
  by_cases here : fd' = fd
  · rw [here, Function.update_self] at present
    rw [here]
    exact stored entry' present
  · rw [Function.update_of_ne here] at present
    exact before fd' entry' present

/-- The name in a record changes only when the descriptor is registered. -/
theorem RecordStep.name (change : RecordStep s i s') {p : TaskPtr} (alive : s.live p = true)
    (fd : Nat) : ((s'.tasks p).events fd).dataFd = ((s.tasks p).events fd).dataFd ∨
      p = s.current ∧ ∃ call granted tsk ctl, i = .io call fd granted ∧
        Registers fd call.event granted s tsk ctl ∧ s'.tasks p = tsk := by
  -- a change of the current block only
  have changed {tsk : TaskStruct} (tasks : s'.tasks = Function.update s.tasks s.current tsk)
      (same : (tsk.events fd).dataFd = ((s.tasks s.current).events fd).dataFd) :
      ((s'.tasks p).events fd).dataFd = ((s.tasks p).events fd).dataFd := by
    rw [tasks]
    by_cases own : p = s.current
    · rw [own, Function.update_self]
      exact same
    · rw [Function.update_of_ne own]
  cases change with
  | keeps _ _ _ _ same =>
    rw [(same p alive).1]
    exact .inl rfl
  | registers call fd' granted _ tsk ctl _ _ registers tasks =>
    by_cases here : fd = fd'
    · subst here
      by_cases own : p = s.current
      · refine .inr ⟨own, call, granted, tsk, ctl, rfl, registers, ?_⟩
        rw [tasks, own, Function.update_self]
      · rw [tasks, Function.update_of_ne own]
        exact .inl rfl
    · exact .inl (changed tasks (by rw [registers.other here]))
  | narrows fd' granted _ _ _ tasks =>
    apply Or.inl
    apply changed tasks
    by_cases here : fd = fd'
    · simp [TaskStruct.narrow, here]
    · simp [TaskStruct.narrow, Function.update_of_ne here]
  | releases _ _ _ tasks => exact .inl (changed tasks rfl)
  | closes _ _ tasks => exact .inl (by rw [tasks])

/-- Every step keeps the names. -/
theorem Named.step (named : Named s) (inv : Integrity s)
    (taken : LibcoLite.step s i = .ok s') : Named s' := by
  have change := step_records inv taken
  constructor
  · intro p fd alive
    cases before : s.live p with
    | false =>
      left
      rw [(step_new inv taken alive before).2.2 fd]
    | true =>
      rcases change.name before fd with same | ⟨rfl, _, _, tsk, _, _, registers, tasks⟩
      · rw [same]
        exact named.records p fd before
      · rw [tasks]
        exact .inr (registers.names (named.records s.current fd before))
  · intro p call fd alive inside
    rcases step_waiting inv taken alive inside with
      ⟨before, waits⟩ | ⟨rfl, granted, tsk, ctl, rfl, pc, registers, ok, tasks, _⟩
    · rcases change.name before fd with same | ⟨rfl, _, _, tsk, _, _, registers, tasks⟩
      · rw [same]
        exact named.waits p call fd before waits
      · rw [tasks]
        exact registers.names (named.records s.current fd before)
    · rw [tasks, Function.update_self]
      exact registers.names (named.records s.current fd inv.seated.alive)
  · cases change with
    | keeps _ _ _ interest =>
      rw [interest]
      exact named.entries
    | registers call fd granted _ tsk ctl _ _ registers _ interest =>
      rw [interest]
      rcases registers.entries with same | ⟨entry, name, stored⟩
      · rw [same]
        exact named.entries
      · rw [stored]
        apply entries_update named.entries
        rintro event ⟨⟩
        exact name
    | narrows fd granted _ pc _ _ interest =>
      rw [interest]
      rcases epollCtl_stores (.inr rfl) with same | stored
      · rw [narrowing, same]
        exact named.entries
      · rw [narrowing, stored]
        apply entries_update named.entries
        rintro event ⟨⟩
        exact named.waits s.current .write fd inv.seated.alive (by rw [pc]; rfl)
    | releases _ _ _ _ interest =>
      rw [interest]
      apply entries_update named.entries
      rintro event ⟨⟩
    | closes fd _ _ interest =>
      rw [interest]
      apply entries_update named.entries
      rintro event ⟨⟩

/-- In every reachable state records and entries name their own descriptors. -/
theorem named_of_run {self : EnvPtr} {clock : Nat → Nat} {past : History}
    (run : ThreadRun self clock past s) : Named s := by
  induction run with
  | start => exact .init self clock
  | move before taken ih => exact ih.step (integrity_of_run before) taken

/-! ## Masks -/

/-- The masks a task records: `EPOLLIN`, with or without `EPOLLOUT`. -/
def RecordMask (recorded : Mask) : Prop := recorded = epollIn ∨ recorded = epollIn ||| epollOut

/-- A recorded mask for which `add_queue` does nothing is the requested event. -/
theorem RecordMask.spares_iff {recorded : Mask} (mask : RecordMask recorded) {call : Call} :
    needsMod recorded call.event = false ↔ recorded = epollIn ∧ call ≠ .write := by
  rcases mask with rfl | rfl <;> cases call <;> decide

/-- A recorded mask is widened to a recorded mask. -/
theorem RecordMask.join {recorded : Mask} (mask : RecordMask recorded) (call : Call) :
    RecordMask (recorded ||| call.event) := by
  unfold RecordMask at *
  rcases mask with rfl | rfl <;> cases call <;> decide

/-- The mask `add_queue` passes on in a modification is the one it records. -/
theorem or_recorded (recorded events : Mask) :
    events ||| (recorded ||| events) = recorded ||| events := by
  rw [BitVec.or_comm, BitVec.or_assoc, BitVec.or_self]

/-- Without `EPOLLOUT` a recorded mask is `EPOLLIN`. -/
theorem RecordMask.narrow {recorded : Mask} (mask : RecordMask recorded) :
    recorded &&& ~~~epollOut = epollIn := by
  rcases mask with rfl | rfl <;> decide

/-- A recorded mask contains `EPOLLIN`. -/
theorem RecordMask.contains {recorded : Mask} (mask : RecordMask recorded) :
    recorded &&& epollIn = epollIn := by
  rcases mask with rfl | rfl <;> decide

/-- The records in use have such masks. -/
def Masked (s : State) : Prop :=
  ∀ p fd, s.live p = true → ((s.tasks p).events fd).dataFd ≠ 0 →
    RecordMask ((s.tasks p).events fd).events

/-- Registering leaves a record with such a mask. -/
theorem Registers.mask {call : Call} {fd : Nat} {granted : Bool} {tsk : TaskStruct}
    {ctl : (Nat → Option EpollEvent) × Int}
    (registers : Registers fd call.event granted s tsk ctl)
    (mask : ((s.tasks s.current).events fd).dataFd ≠ 0 →
      RecordMask ((s.tasks s.current).events fd).events) : RecordMask (tsk.events fd).events := by
  cases registers with
  | add =>
    simp only [TaskStruct.record, Function.update_self]
    exact .inl rfl
  | mod seen =>
    simp only [TaskStruct.widen, TaskStruct.await, Function.update_self]
    exact (mask seen).join call
  | keep seen => exact mask seen

/-- Every step keeps the masks. -/
theorem Masked.step (masked : Masked s) (inv : Integrity s)
    (taken : LibcoLite.step s i = .ok s') : Masked s' := by
  intro p fd alive seen
  have before : s.live p = true := by
    apply Classical.byContradiction
    intro dead
    have new := (step_new inv taken alive (Bool.eq_false_iff.mpr dead)).2.2 fd
    exact seen (congrArg EpollEvent.dataFd new)
  -- a change of the current block only
  have changed {tsk : TaskStruct} (tasks : s'.tasks = Function.update s.tasks s.current tsk)
      (mask : (tsk.events fd).dataFd ≠ 0 → RecordMask (tsk.events fd).events) :
      RecordMask ((s'.tasks p).events fd).events := by
    rw [tasks] at seen ⊢
    by_cases own : p = s.current
    · rw [own, Function.update_self] at seen ⊢
      exact mask seen
    · rw [Function.update_of_ne own] at seen ⊢
      exact masked p fd before seen
  have own := masked s.current fd inv.seated.alive
  have change := step_records inv taken
  cases change with
  | keeps _ _ _ _ same =>
    rw [(same p before).1] at seen ⊢
    exact masked p fd before seen
  | registers call fd' granted _ tsk ctl _ _ registers tasks =>
    apply changed tasks
    intro recorded
    by_cases here : fd = fd'
    · subst here
      exact registers.mask own
    · rw [registers.other here] at recorded ⊢
      exact own recorded
  | narrows fd' granted _ _ _ tasks =>
    apply changed tasks
    intro recorded
    by_cases here : fd = fd'
    · subst here
      simp only [TaskStruct.narrow, Function.update_self] at recorded ⊢
      exact .inl (own recorded).narrow
    · simp only [TaskStruct.narrow, Function.update_of_ne here] at recorded ⊢
      exact own recorded
  | releases _ _ _ tasks => exact changed tasks own
  | closes _ _ tasks =>
    rw [tasks] at seen ⊢
    exact masked p fd before seen

/-- In every reachable state the records in use have such masks. -/
theorem masked_of_run {self : EnvPtr} {clock : Nat → Nat} {past : History}
    (run : ThreadRun self clock past s) : Masked s := by
  induction run with
  | start =>
    intro p fd _ seen
    rw [init_record] at seen
    exact absurd rfl seen
  | move before taken ih => exact ih.step (integrity_of_run before) taken

end LibcoLite
