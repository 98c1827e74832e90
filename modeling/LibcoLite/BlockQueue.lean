import LibcoLite.Integrity

/-!
# The block queues

Which steps change the wait queues, and what they hold. While every insertion finds the
cached end of its queue true, and every finishing task that has a successor finds it behind
the head its own back link names, the links spell out one list per descriptor, and all
members are live tasks blocked on that descriptor. Tasks outside the queues may keep stale
link fields; those of tasks that can still run are back links to heads.
-/

namespace LibcoLite

open TailQueue
open Transition (Run Move)

/-- The blocking call and descriptor of the wait loop a control point is in. -/
def Pc.waiting : Pc → Option (Call × Nat)
  | .wait call fd => some (call, fd)
  | .schedule behind => behind.waiting
  | _ => none

/-- A task waits in a call on a descriptor and has not received the awaited bit. -/
structure Blocked (s : State) (p : TaskPtr) (call : Call) (fd : Nat) : Prop where
  /-- The task is in the wait loop of the call. -/
  inside : (s.pc p).waiting = some (call, fd)
  /-- It is not scheduled. -/
  status : (s.tasks p).status = .wait
  /-- The awaited bit has not been received. -/
  lacks : (s.tasks p).revents fd &&& call.event = 0

/-- A task stays blocked while its block and its control point stay. -/
theorem Blocked.congr {s s' : State} {p : TaskPtr} {call : Call} {fd : Nat}
    (blocked : Blocked s p call fd) (pc : (s'.pc p).waiting = (s.pc p).waiting)
    (tasks : s'.tasks p = s.tasks p) : Blocked s' p call fd where
  inside := pc.trans blocked.inside
  status := by rw [tasks]; exact blocked.status
  lacks := by rw [tasks]; exact blocked.lacks

/-- A blocked task stays blocked, unless an event is handled whose queue it leads. -/
theorem step_blocked {s s' : State} {i : Input} (inv : Integrity s)
    (taken : step s i = .ok s') {p : TaskPtr} {call : Call} {fd : Nat}
    (alive : s.live p = true) (blocked : Blocked s p call fd) :
    Blocked s' p call fd ∨ ∃ ev rest, s.pc s.current = .handle (ev :: rest) ∧
      s.links.first ev.dataFd = some p := by
  have inside := blocked.inside
  -- outside a wait loop, the current task is another one
  have other (out : (s.pc s.current).waiting = none) : p ≠ s.current := by
    rintro rfl
    cases inside.symm.trans out
  have moved (out : p ≠ s.current) {there : Pc}
      (pc : s'.pc = Function.update s.pc s.current there) (tasks : s'.tasks = s.tasks) :
      Blocked s' p call fd :=
    blocked.congr (by rw [pc, Function.update_of_ne out]) (by rw [tasks])
  have kept (out : p ≠ s.current) {there : Pc} {tsk : TaskStruct}
      (pc : s'.pc = Function.update s.pc s.current there)
      (tasks : s'.tasks = Function.update s.tasks s.current tsk) : Blocked s' p call fd :=
    blocked.congr (by rw [pc, Function.update_of_ne out]) (by rw [tasks, Function.update_of_ne out])
  -- a task that leaves its wait loop has received the bit
  have received {call' : Call} {fd' : Nat} (pc : s.pc s.current = .wait call' fd')
      (bit : (s.tasks s.current).revents fd' &&& call'.event ≠ 0) : p ≠ s.current := by
    rintro rfl
    obtain ⟨rfl, rfl⟩ : call' = call ∧ fd' = fd := by
      simpa [pc, Pc.waiting] using inside
    exact bit blocked.lacks
  obtain ⟨_, kind⟩ := step_cases taken
  cases kind with
  | create cid pc =>
    left
    obtain ⟨_, same, tasks⟩ := coCreate_other cid (inv.notFresh alive)
    exact blocked.congr (congrArg Pc.waiting same) tasks
  | join cid pc => exact .inl (moved (other (by rw [pc]; rfl)) rfl rfl)
  | sleep seconds pc => exact .inl (kept (other (by rw [pc]; rfl)) rfl rfl)
  | refused call' fd' granted tsk ctl pc => exact .inl (kept (other (by rw [pc]; rfl)) rfl rfl)
  | queued call' fd' granted tsk ctl links pc => exact .inl (kept (other (by rw [pc]; rfl)) rfl rfl)
  | eventloop pc => exact .inl (moved (other (by rw [pc]; rfl)) rfl rfl)
  | close fd' pc => exact .inl (blocked.congr rfl rfl)
  | ret pc notInit => exact .inl (kept (other (by rw [pc]; rfl)) rfl rfl)
  | joinAgain cid q pc => exact .inl (moved (other (by rw [pc]; rfl)) rfl rfl)
  | joinEnd cid q pc => exact .inl (moved (other (by rw [pc]; rfl)) rfl rfl)
  | waitAgain call' fd' granted pc waiting =>
    left
    by_cases own : p = s.current
    · subst own
      rw [pc] at inside
      exact ⟨by simpa [State.goto, State.modify, Pc.waiting] using inside,
        by simp [State.goto, State.modify],
        by simpa [State.goto, State.modify] using blocked.lacks⟩
    · exact blocked.congr (by simp [State.goto, State.modify, Function.update_of_ne own])
        (by simp [State.goto, State.modify, Function.update_of_ne own])
  | waitEnd call' fd' granted pc bit => exact .inl (moved (received pc bit) rfl rfl)
  | writeFailed fd' granted pc bit => exact .inl (kept (received pc bit) rfl rfl)
  | writeEnd fd' granted pc bit => exact .inl (kept (received pc bit) rfl rfl)
  | syscall call' fd' pc => exact .inl (moved (other (by rw [pc]; rfl)) rfl rfl)
  | timeout reports pc none => exact .inl (moved (other (by rw [pc]; rfl)) rfl rfl)
  | reported reports ev rest pc some => exact .inl (moved (other (by rw [pc]; rfl)) rfl rfl)
  | handled ev rest q links pc first =>
    by_cases head : p = q
    · exact .inr ⟨ev, rest, pc, head ▸ first⟩
    · have notCurrent := other (by rw [pc]; rfl)
      exact .inl (blocked.congr (by simp [State.goto, Function.update_of_ne notCurrent])
        (by simp [State.goto, Function.update_of_ne head]))
  | drained pc => exact .inl (moved (other (by rw [pc]; rfl)) rfl rfl)
  | released links pc more removed =>
    have notCurrent := other (by rw [pc]; rfl)
    exact .inl (blocked.congr rfl (Function.update_of_ne notCurrent _ _))
  | cleaned pc none => exact .inl (moved (other (by rw [pc]; rfl)) rfl rfl)
  | scheduled behind rounds picked q pc found =>
    left
    have woken := (inv.picked pc found).woken
    have same : picked.tasks p = s.tasks p :=
      (woken.block p).resolve_right fun turned => by
        cases blocked.status.symm.trans turned.1
    refine blocked.congr ?_ same
    simp only [woken.pc, State.goto]
    by_cases own : p = s.current
    · subst own; simp [pc, Pc.waiting]
    · rw [Function.update_of_ne own]

/-- A step appends the current task to the queue of a descriptor. -/
def Appends (s : State) (i : Input) (fd : Nat) : Prop :=
  ∃ call granted tsk ctl, i = .io call fd granted ∧ s.pc s.current = .user ∧ fd < maxFd ∧
    Registers fd call.event granted s tsk ctl ∧ ¬ctl.2 < 0

/-- A step removes the current task from the queue of its last recorded descriptor. -/
def Releases (s : State) (i : Input) : Prop :=
  i = .run ∧ s.pc s.current = .cleanup ∧ 0 < (s.tasks s.current).fdsIdx

/-- What a step does to the links. -/
inductive LinkStep (s : State) : Input → State → Prop where
  /-- The links stay, no event is handled and no task is created; a blocking call fails. -/
  | keeps {s' : State} {i : Input} : s'.links = s.links →
      (∀ p, s'.live p = true → s.live p = true) →
      (∀ ev rest, s.pc s.current ≠ .handle (ev :: rest)) →
      (i.descriptor ≠ none → s'.pc s.current = .user) → LinkStep s i s'
  /-- The fields of a new task are zeroed. -/
  | zeroes {s' : State} (cid : Option Int) : s.pc s.current = .user →
      s'.live = Function.update s.live s.fresh true →
      s'.links = { s.links with
        next := Function.update s.links.next s.fresh none
        prev := Function.update s.links.prev s.fresh none } → LinkStep s (.create cid) s'
  /-- The current task is appended and blocked. -/
  | appends {s' : State} (call : Call) (fd : Nat) (granted : Bool) :
      Appends s (.io call fd granted) fd → Blocked s' s.current call fd → s'.live = s.live →
      s.links.insertTail s.live fd s.current = .ok s'.links → LinkStep s (.io call fd granted) s'
  /-- The first task of a queue is removed. -/
  | removes {s' : State} (ev : EpollEvent) (rest : List EpollEvent) (p : TaskPtr) :
      s.pc s.current = .handle (ev :: rest) → s.links.first ev.dataFd = some p →
      s'.live = s.live → s.links.remove s.live ev.dataFd p = .ok s'.links → LinkStep s .run s'
  /-- A finishing task removes itself. -/
  | releases {s' : State} : Releases s .run → s'.live = s.live →
      s.links.remove s.live (s.tasks s.current).lastFd s.current = .ok s'.links →
      LinkStep s .run s'

/-- Registering clears the awaited bit. -/
theorem Registers.lacks {fd : Nat} {events : Mask} {granted : Bool} {s : State}
    {tsk : TaskStruct} {ctl : (Nat → Option EpollEvent) × Int}
    (registers : Registers fd events granted s tsk ctl) :
    tsk.status = .wait ∧ tsk.revents fd &&& events = 0 := by
  have cleared (mask : Mask) : mask &&& ~~~events &&& events = 0 := by
    rw [BitVec.and_assoc, BitVec.and_comm (~~~events), BitVec.and_not_self]
    exact BitVec.and_zero
  cases registers <;>
    exact ⟨rfl, by simp [TaskStruct.await, TaskStruct.record, TaskStruct.widen, cleared]⟩

/-- Every step changes the links in one of these ways. -/
theorem step_links {s s' : State} {i : Input} (inv : Integrity s)
    (taken : step s i = .ok s') : LinkStep s i s' := by
  obtain ⟨_, kind⟩ := step_cases taken
  cases kind with
  | create cid pc =>
    rcases coCreate_cases cid s with ⟨_, _, _, _, made⟩ | ⟨_, made⟩ <;> rw [made]
    · exact .zeroes cid pc rfl rfl
    · exact .keeps rfl (fun _ => id) (by simp [pc])
        fun called => absurd rfl called
  | refused call fd granted tsk ctl pc =>
    exact .keeps rfl (fun _ => id) (by simp [pc])
      fun _ => Function.update_self ..
  | queued call fd granted tsk ctl links pc bound registers ok inserted =>
    refine .appends call fd granted ⟨call, granted, tsk, ctl, rfl, pc, bound, registers, ok⟩ ?_
      rfl inserted
    obtain ⟨status, lacks⟩ := registers.lacks
    exact ⟨by simp [State.goto, State.registered, Pc.waiting],
      by simpa [State.goto, State.registered] using status,
      by simpa [State.goto, State.registered] using lacks⟩
  | handled ev rest p links pc first alive removed => exact .removes ev rest p pc first rfl removed
  | released links pc more removed => exact .releases ⟨rfl, pc, more⟩ rfl removed
  | joinEnd cid p pc bound slot alive exited =>
    refine .keeps rfl (fun q alive => ?_) (by simp [pc])
      fun called => absurd rfl called
    by_cases gone : q = p
    · subst gone; simp [State.goto, State.free] at alive
    · exact (Function.update_of_ne gone _ _).symm.trans alive
  | scheduled behind rounds picked p pc found =>
    have woken := (inv.picked pc found).woken
    exact .keeps woken.links (fun p alive => (congrFun woken.live p).symm.trans alive)
      (by simp [pc]) fun called => absurd rfl called
  | _ => exact .keeps rfl (fun _ => id) (by simp_all) fun called => absurd rfl called

/-! ## Lists of waiting tasks -/

/-- The links spell out one list of blocked tasks per descriptor. -/
structure Queueing (queue : Nat → List TaskPtr) (s : State) : Prop where
  /-- Each list is the chain of its descriptor. -/
  spells : Queues s.links queue
  /-- Members are live and blocked on their descriptor. -/
  members : ∀ fd p, p ∈ queue fd → s.live p = true ∧ ∃ call, Blocked s p call fd
  /-- The back link of any other task is null or points to a head, or the task is blocked. -/
  back : ∀ p, s.live p = true → (∀ fd, p ∉ queue fd) → s.links.prev p = none ∨
    (∃ head, s.links.prev p = some (.first head)) ∨ ∃ call fd, Blocked s p call fd

/-- The successor field of the current task is null, or it holds a task that is queued
behind the head its back link names. -/
def SuccessorQueued (s : State) : Prop :=
  ∀ after, s.links.next s.current = some after → ∃ head first rest,
    s.links.prev s.current = some (.first head) ∧
    Chain s.links (.first head) (first ++ after :: rest)

/-- The cached end of a queue is the cell in which its chain ends. -/
def EndCached (s : State) (fd : Nat) : Prop :=
  ∃ elements, Chain s.links (.first fd) elements ∧
    s.links.last fd = some (endCell (.first fd) elements)

/-- A step finds the links it relies on in order. -/
structure Orderly (s : State) (i : Input) : Prop where
  /-- A finishing task has no successor but a queued one. -/
  releases : Releases s i → SuccessorQueued s
  /-- An insertion finds the end of the queue. -/
  appends : ∀ fd, Appends s i fd → EndCached s fd

/-- What an orderly step does to the lists. -/
inductive QueueStep (queue : Nat → List TaskPtr) (s : State) :
    Input → State → (Nat → List TaskPtr) → Prop where
  /-- The lists stay, and link fields stay or are zeroed; no event is handled, and a
  blocking call fails. -/
  | keeps {s' : State} {i : Input} : s'.links.last = s.links.last →
      (∀ p, s'.links.next p = s.links.next p ∧ s'.links.prev p = s.links.prev p ∨
        s'.links.next p = none ∧ s'.links.prev p = none) →
      (∀ ev rest, s.pc s.current ≠ .handle (ev :: rest)) →
      (i.descriptor ≠ none → s'.pc s.current = .user) → QueueStep queue s i s' queue
  /-- The current task is appended. -/
  | appends {s' : State} (call : Call) (fd : Nat) (granted : Bool) :
      Appends s (.io call fd granted) fd → Blocked s' s.current call fd →
      (∀ other, s.current ∉ queue other) →
      s.links.last fd = some (endCell (.first fd) (queue fd)) →
      s'.links.last = Function.update s.links.last fd (some (.next s.current)) →
      s'.links.next s.current = none →
      (∀ p, p ∉ queue fd → p ≠ s.current → s'.links.next p = s.links.next p) →
      (∀ p, s'.links.prev p = if p = s.current then s.links.last fd else s.links.prev p) →
      QueueStep queue s (.io call fd granted) s'
        (Function.update queue fd (queue fd ++ [s.current]))
  /-- The first task of a list is removed. -/
  | removes {s' : State} (ev : EpollEvent) (rest : List EpollEvent) (p : TaskPtr)
      (behind : List TaskPtr) : s.pc s.current = .handle (ev :: rest) →
      queue ev.dataFd = p :: behind →
      (s'.links.last = if behind = [] then
        Function.update s.links.last ev.dataFd (some (.first ev.dataFd)) else s.links.last) →
      s'.links.next = s.links.next →
      (∀ q, q ∉ behind → s'.links.prev q = s.links.prev q) →
      QueueStep queue s .run s' (Function.update queue ev.dataFd behind)
  /-- A finishing task without successor clears the head its back link names. -/
  | clears {s' : State} (head : Nat) : Releases s .run → s.links.next s.current = none →
      s.links.prev s.current = some (.first head) →
      s'.links = { s.links with
        last := Function.update s.links.last (s.tasks s.current).lastFd (some (.first head))
        first := Function.update s.links.first head none } →
      QueueStep queue s .run s' (Function.update queue head [])
  /-- A finishing task cuts off what is before its successor. -/
  | cuts {s' : State} (head : Nat) (first rest : List TaskPtr) (after : TaskPtr) :
      Releases s .run → s.links.next s.current = some after →
      s.links.prev s.current = some (.first head) → queue head = first ++ after :: rest →
      s'.links = { s.links with
        prev := Function.update s.links.prev after (some (.first head))
        first := Function.update s.links.first head (some after) } →
      QueueStep queue s .run s' (Function.update queue head (after :: rest))

namespace Queueing

variable {queue : Nat → List TaskPtr} {s s' : State}

/-- At the start of a thread all queues are empty. -/
theorem init (self : EnvPtr) (clock : Nat → Nat) :
    Queueing (fun _ => []) (State.init self clock) where
  spells := queues_init
  members := by simp
  back _ _ _ := .inl rfl

/-- A task that is not blocked is in no queue. -/
theorem outside (queueing : Queueing queue s) {p : TaskPtr}
    (free : (s.pc p).waiting = none) (fd : Nat) : p ∉ queue fd := by
  intro member
  obtain ⟨_, call, blocked⟩ := queueing.members fd p member
  cases blocked.inside.symm.trans free

/-- Members stay live and blocked, unless an event is handled whose queue they lead. -/
theorem stays (queueing : Queueing queue s) {i : Input} (inv : Integrity s)
    (taken : LibcoLite.step s i = .ok s') {fd : Nat} {p : TaskPtr} (member : p ∈ queue fd)
    (unhandled : ∀ ev rest, s.pc s.current = .handle (ev :: rest) →
      s.links.first ev.dataFd ≠ some p) : s'.live p = true ∧ ∃ call, Blocked s' p call fd := by
  obtain ⟨alive, call, blocked⟩ := queueing.members fd p member
  refine ⟨step_live inv taken alive (by simp [blocked.status]), call, ?_⟩
  rcases step_blocked inv taken alive blocked with still | ⟨ev, rest, pc, first⟩
  · exact still
  · exact absurd first (unhandled ev rest pc)

/-- A task whose back link stays is as harmless as before, even when it was dropped from a
queue. -/
theorem backs (queueing : Queueing queue s) {i : Input} (inv : Integrity s)
    (taken : LibcoLite.step s i = .ok s') {p : TaskPtr} (alive : s.live p = true)
    (same : s'.links.prev p = s.links.prev p)
    (unhandled : ∀ ev rest, s.pc s.current = .handle (ev :: rest) →
      s.links.first ev.dataFd ≠ some p) : s'.links.prev p = none ∨
      (∃ head, s'.links.prev p = some (.first head)) ∨ ∃ call fd, Blocked s' p call fd := by
  by_cases member : ∃ fd, p ∈ queue fd
  · obtain ⟨fd, member⟩ := member
    obtain ⟨_, call, blocked⟩ := queueing.stays inv taken member unhandled
    exact .inr (.inr ⟨call, fd, blocked⟩)
  · rw [same]
    rcases queueing.back p alive (not_exists.mp member) with none | head | ⟨call, fd, blocked⟩
    · exact .inl none
    · exact .inr (.inl head)
    · rcases step_blocked inv taken alive blocked with still | ⟨ev, rest, pc, first⟩
      · exact .inr (.inr ⟨call, fd, still⟩)
      · exact absurd first (unhandled ev rest pc)

/-- Outside the handling of events, no task is handled. -/
theorem unhandled {p : TaskPtr} (out : ∀ ev rest, s.pc s.current ≠ .handle (ev :: rest)) :
    ∀ ev rest, s.pc s.current = .handle (ev :: rest) → s.links.first ev.dataFd ≠ some p :=
  fun ev rest handles => absurd handles (out ev rest)

/-- A new task is in no list. -/
theorem zeroes (queueing : Queueing queue s) (inv : Integrity s) {cid : Option Int}
    (taken : LibcoLite.step s (.create cid) = .ok s') (pc : s.pc s.current = .user)
    (live : s'.live = Function.update s.live s.fresh true)
    (links : s'.links = { s.links with
      next := Function.update s.links.next s.fresh none
      prev := Function.update s.links.prev s.fresh none }) :
    QueueStep queue s (.create cid) s' queue ∧ Queueing queue s' := by
  have old {fd : Nat} {p : TaskPtr} (member : p ∈ queue fd) : p ≠ s.fresh :=
    Nat.ne_of_lt (inv.used p (queueing.members fd p member).1)
  have out : ∀ ev rest, s.pc s.current ≠ .handle (ev :: rest) := by simp [pc]
  refine ⟨.keeps (by rw [links]) (fun p => ?_) out fun called => absurd rfl called,
    ⟨fun fd => ?_, queueing.spells.apart⟩,
    fun fd p member => queueing.stays inv taken member (unhandled out), fun p alive free => ?_⟩
  · rw [links]
    by_cases new : p = s.fresh
    · subst new; simp
    · simp [Function.update_of_ne new]
  · rw [links]
    exact (queueing.spells.chain fd).congr rfl
      (fun p member => Function.update_of_ne (old member) _ _)
      fun p member => Function.update_of_ne (old member) _ _
  · by_cases new : p = s.fresh
    · subst new; rw [links]; exact .inl (Function.update_self ..)
    · rw [live, Function.update_of_ne new] at alive
      refine queueing.backs inv taken alive ?_ (unhandled out)
      rw [links]
      exact Function.update_of_ne new _ _

/-- The current task joins the list of the descriptor it waits on. -/
theorem appends (queueing : Queueing queue s) (inv : Integrity s) {call : Call} {fd : Nat}
    {granted : Bool} (orderly : Orderly s (.io call fd granted))
    (taken : LibcoLite.step s (.io call fd granted) = .ok s')
    (appends : Appends s (.io call fd granted) fd) (blocked : Blocked s' s.current call fd)
    (live : s'.live = s.live)
    (inserted : s.links.insertTail s.live fd s.current = .ok s'.links) :
    ∃ queue', QueueStep queue s (.io call fd granted) s' queue' ∧ Queueing queue' s' := by
  have ⟨_, _, _, _, _, pc, _⟩ := appends
  have free : ∀ other, s.current ∉ queue other := queueing.outside (by rw [pc]; rfl)
  have out : ∀ ev rest, s.pc s.current ≠ .handle (ev :: rest) := by simp [pc]
  obtain ⟨elements, chain, ends⟩ := orderly.appends fd appends
  obtain rfl := chain.unique (queueing.spells.chain fd)
  obtain ⟨links', ok, spells, last, prev, next⟩ := queueing.spells.insertTail free
    inv.seated.alive (fun p member => (queueing.members fd p member).1) ends
  obtain rfl := Except.ok.inj (ok.symm.trans inserted)
  have zeroed : s'.links.next s.current = none := by
    have chain := spells.chain fd
    rw [Function.update_self] at chain
    have tail : Chain s'.links (.next s.current) [] := chain.behind
    exact tail
  refine ⟨_, .appends call fd granted appends blocked free ends last zeroed next prev, spells,
    fun other p member => ?_, fun p alive away => ?_⟩
  · by_cases here : other = fd
    · subst here
      rw [Function.update_self] at member
      rcases List.mem_append.mp member with member | member
      · exact queueing.stays inv taken member (unhandled out)
      · rw [List.mem_singleton.mp member, live]
        exact ⟨inv.seated.alive, call, blocked⟩
    · rw [Function.update_of_ne here] at member
      exact queueing.stays inv taken member (unhandled out)
  · have different : p ≠ s.current := by
      rintro rfl
      exact away fd (by simp)
    rw [live] at alive
    exact queueing.backs inv taken alive ((prev p).trans (if_neg different)) (unhandled out)

/-- The first task of a list leaves it when an event is handled. -/
theorem removes (queueing : Queueing queue s) (inv : Integrity s)
    (taken : LibcoLite.step s .run = .ok s') {ev : EpollEvent} {rest : List EpollEvent}
    {p : TaskPtr} (pc : s.pc s.current = .handle (ev :: rest))
    (first : s.links.first ev.dataFd = some p) (live : s'.live = s.live)
    (removed : s.links.remove s.live ev.dataFd p = .ok s'.links) :
    ∃ queue', QueueStep queue s .run s' queue' ∧ Queueing queue' s' := by
  have lead := queueing.spells.first_eq ev.dataFd
  rw [first] at lead
  obtain ⟨behind, shape⟩ := List.head?_eq_some_iff.mp lead.symm
  obtain ⟨links', ok, spells, last, next, prev⟩ := queueing.spells.removeHead shape
    fun p member => (queueing.members _ p member).1
  obtain rfl := Except.ok.inj (ok.symm.trans removed)
  have nodup := queueing.spells.nodup ev.dataFd
  rw [shape] at nodup
  have unhandled {q : TaskPtr} (other : q ≠ p) : ∀ ev' rest',
      s.pc s.current = .handle (ev' :: rest') → s.links.first ev'.dataFd ≠ some q := by
    intro ev' rest' handles first'
    obtain ⟨rfl, rfl⟩ := List.cons.inj (Pc.handle.inj (pc.symm.trans handles))
    exact other (Option.some.inj (first'.symm.trans first))
  refine ⟨_, .removes ev rest p behind pc shape last next prev, spells,
    fun other q member => ?_, fun q alive away => ?_⟩
  · by_cases here : other = ev.dataFd
    · subst here
      rw [Function.update_self] at member
      exact queueing.stays inv taken (shape ▸ List.mem_cons_of_mem _ member)
        (unhandled fun same => (List.nodup_cons.mp nodup).1 (same ▸ member))
    · rw [Function.update_of_ne here] at member
      refine queueing.stays inv taken member (unhandled fun same => here ?_)
      exact queueing.spells.apart other ev.dataFd p (same ▸ member) (shape ▸ List.mem_cons_self)
  · have keeps := prev q fun member => away ev.dataFd (by simpa using member)
    by_cases removedTask : q = p
    · have chain := queueing.spells.chain ev.dataFd
      rw [shape] at chain
      rw [keeps]
      exact .inr (.inl ⟨ev.dataFd, removedTask ▸ chain.2.1⟩)
    · rw [live] at alive
      exact queueing.backs inv taken alive keeps (unhandled removedTask)

/-- A finishing task, which is in no list, may drop the beginning of a list or all of it. -/
theorem releases (queueing : Queueing queue s) (inv : Integrity s)
    (orderly : Orderly s .run) (taken : LibcoLite.step s .run = .ok s')
    (releases : Releases s .run) (live : s'.live = s.live)
    (removed : s.links.remove s.live (s.tasks s.current).lastFd s.current = .ok s'.links) :
    ∃ queue', QueueStep queue s .run s' queue' ∧ Queueing queue' s' := by
  have ⟨_, pc, more⟩ := releases
  have free : ∀ other, s.current ∉ queue other := queueing.outside (by rw [pc]; rfl)
  have out : ∀ ev rest, s.pc s.current ≠ .handle (ev :: rest) := by simp [pc]
  have members {head : Nat} {left : List TaskPtr} (within : ∀ p ∈ left, p ∈ queue head)
      (fd : Nat) (p : TaskPtr) (member : p ∈ Function.update queue head left fd) :
      s'.live p = true ∧ ∃ call, Blocked s' p call fd := by
    by_cases here : fd = head
    · subst here
      exact queueing.stays inv taken (within p (by simpa using member)) (unhandled out)
    · rw [Function.update_of_ne here] at member
      exact queueing.stays inv taken member (unhandled out)
  cases next : s.links.next s.current with
  | none =>
    rcases queueing.back s.current inv.seated.alive free with none | ⟨head, prev⟩ | ⟨_, _, blocked⟩
    · simp [Links.remove, Links.bypass, inv.seated.alive, next, none, Except.bind,
        Links.store] at removed
    · rw [Links.remove_last inv.seated.alive next prev] at removed
      have links := (Except.ok.inj removed).symm
      refine ⟨_, .clears head releases next prev links, links ▸ queueing.spells.clear head _,
        members (by simp), fun p alive away => ?_⟩
      exact queueing.backs inv taken (live ▸ alive) (by rw [links]) (unhandled out)
    · have inside := blocked.inside
      rw [pc] at inside
      cases inside
  | some after =>
    obtain ⟨head, first, rest, prev, chain⟩ := orderly.releases releases after next
    have shape := (queueing.spells.chain head).unique chain
    have member : after ∈ queue head := by rw [shape]; simp
    rw [Links.remove_before inv.seated.alive next (queueing.members head after member).1 prev]
      at removed
    have links := (Except.ok.inj removed).symm
    refine ⟨_, .cuts head first rest after releases next prev shape links,
      links ▸ queueing.spells.cut _ shape, members fun p member => ?_, fun p alive away => ?_⟩
    · rw [shape]
      exact List.mem_append_right _ member
    · have different : p ≠ after := by
        rintro rfl
        exact away head (by simp)
      refine queueing.backs inv taken (live ▸ alive) ?_ (unhandled out)
      rw [links]
      exact Function.update_of_ne different _ _

/-- An orderly step changes the lists in one of the ways, and keeps them lists of blocked
tasks. -/
theorem step (queueing : Queueing queue s) {i : Input} (inv : Integrity s)
    (orderly : Orderly s i) (taken : LibcoLite.step s i = .ok s') :
    ∃ queue', QueueStep queue s i s' queue' ∧ Queueing queue' s' := by
  cases step_links inv taken with
  | keeps links live out called =>
    refine ⟨queue, .keeps (by rw [links]) (fun p => .inl (by rw [links]; exact ⟨rfl, rfl⟩)) out
      called, links ▸ queueing.spells,
      fun fd p member => queueing.stays inv taken member (unhandled out),
      fun p alive free => ?_⟩
    exact queueing.backs inv taken (live p alive) (by rw [links]) (unhandled out)
  | zeroes cid pc live links => exact ⟨queue, queueing.zeroes inv taken pc live links⟩
  | appends call fd granted appends blocked live inserted =>
    exact queueing.appends inv orderly taken appends blocked live inserted
  | removes ev rest p pc first live removed =>
    exact queueing.removes inv taken pc first live removed
  | releases releases live removed =>
    exact queueing.releases inv orderly taken releases live removed

end Queueing

end LibcoLite
