import LibcoLite.Control
import LibcoLite.Replay

/-!
# Interest in shared descriptors

The kernel has one entry per descriptor, and every task its own record of it. A task that
finishes deletes the entries of all descriptors it recorded; `add_queue` and `co_write`
replace the mask by one made from the task's own record; and `add_queue` leaves the entry
alone when the record does not ask for more. The entries contain what blocked tasks wait
for exactly as long as none of these takes it away.
-/

namespace LibcoLite

open Transition (Along Move Run along_cons)

/-- A task is in the wait loop of a call and has not received the awaited bit. -/
structure Awaits (s : State) (p : TaskPtr) (call : Call) (fd : Nat) : Prop where
  /-- The task is in the wait loop. -/
  inside : (s.pc p).waiting = some (call, fd)
  /-- The awaited bit has not been received. -/
  lacks : (s.tasks p).revents fd &&& call.event = 0

/-- An interest list has an entry for a descriptor that contains the given bits. -/
def Covered (interest : Nat → Option EpollEvent) (fd : Nat) (bits : Mask) : Prop :=
  ∃ entry, interest fd = some entry ∧ entry.events &&& bits = bits

/-- The interest list contains what every blocked task waits for. -/
def Registered (s : State) : Prop :=
  ∀ p call fd, s.live p = true → Awaits s p call fd → Covered s.interest fd call.event

/-- A step replaces the mask of a descriptor. -/
inductive Replaces (s : State) : Input → Nat → Mask → Prop where
  /-- In `add_queue`, by the requested and the recorded bits. -/
  | widens (call : Call) (fd : Nat) (granted : Bool) : s.pc s.current = .user →
      ((s.tasks s.current).events fd).dataFd ≠ 0 →
      needsMod ((s.tasks s.current).events fd).events call.event = true →
      ¬(epollCtl granted (.mod ⟨call.event ||| (((s.tasks s.current).events fd).events |||
        call.event), fd⟩) fd s.interest).2 < 0 →
      Replaces s (.io call fd granted) fd
        (call.event ||| (((s.tasks s.current).events fd).events ||| call.event))
  /-- Behind the wait loop of `co_write`, by the recorded bits without `EPOLLOUT`. -/
  | narrows (fd : Nat) (granted : Bool) : s.pc s.current = .wait .write fd →
      (s.tasks s.current).revents fd &&& epollOut ≠ 0 → ¬(coWriteDone fd granted s).2 < 0 →
      Replaces s (.ctl granted) fd (((s.tasks s.current).events fd).events &&& ~~~epollOut)

/-- In a step, a blocking call leaves the entry of its descriptor to the record of the task. -/
def Relies (s : State) (i : Input) (call : Call) (fd : Nat) : Prop :=
  (∃ granted, i = .io call fd granted) ∧ s.pc s.current = .user ∧
    ((s.tasks s.current).events fd).dataFd ≠ 0 ∧
    needsMod ((s.tasks s.current).events fd).events call.event = false

/-- A step takes no bit away that a blocked task waits for. -/
structure KeepsInterest (s : State) (i : Input) : Prop where
  /-- A finishing task takes back a descriptor on which no task is blocked. -/
  deletes : Releases s i → ∀ p call, s.live p = true →
    ¬Awaits s p call (s.tasks s.current).lastFd
  /-- A new mask contains what the blocked tasks wait for. -/
  replaces : ∀ fd mask, Replaces s i fd mask → ∀ p call, s.live p = true →
    Awaits s p call fd → mask &&& call.event = call.event
  /-- A call whose record asks for nothing finds its bit in the entry. -/
  relies : ∀ call fd, Relies s i call fd → Covered s.interest fd call.event
  /-- An event that takes a received bit back from a task finds this bit in the entry. -/
  hands : ∀ ev rest p call, s.pc s.current = .handle (ev :: rest) →
    s.links.first ev.dataFd = some p → (s.pc p).waiting = some (call, ev.dataFd) →
    ((s.tasks p).events ev.dataFd).events &&& ev.events ≠ 0 →
    (s.tasks p).revents ev.dataFd &&& call.event ≠ 0 → ev.events &&& call.event = 0 →
    Covered s.interest ev.dataFd call.event

/-- The descriptor an input closes. -/
def Input.closed : Input → Option Nat
  | .close fd => some fd
  | _ => none

/-- A move closes no descriptor on which a task is blocked. -/
def ClosesUnused (move : Move State Input) : Prop :=
  ∀ fd ∈ move.input.closed, ∀ p call, move.before.live p = true → ¬Awaits move.before p call fd

/-! ## Blocked tasks through a step -/

/-- A switch changes neither the blocked tasks nor the interest list. -/
theorem awaits_pick {s s' : State} {rounds : Nat} (inv : Integrity s)
    (taken : step s (.pick rounds) = .ok s') :
    s'.interest = s.interest ∧ s'.live = s.live ∧
      ∀ p call fd, Awaits s' p call fd ↔ Awaits s p call fd := by
  obtain ⟨_, kind⟩ := step_cases taken
  cases kind with
  | scheduled behind rounds picked q pc found =>
    have woken := (inv.picked pc found).woken
    refine ⟨woken.interest, woken.live, fun p call fd => ?_⟩
    have inside : (picked.pc p).waiting = (s.pc p).waiting := by
      rw [woken.pc]
      by_cases own : p = s.current
      · subst own; simp [State.goto, pc, Pc.waiting]
      · simp [State.goto, Function.update_of_ne own]
    have received : (picked.tasks p).revents = (s.tasks p).revents := by rw [woken.fields]; rfl
    constructor
    · rintro ⟨there, lacks⟩
      exact ⟨inside.symm.trans there, received ▸ lacks⟩
    · rintro ⟨there, lacks⟩
      exact ⟨inside.trans there, received ▸ lacks⟩

/-- A blocked task was blocked before, or has just been queued, or has been dequeued for an
event that took back the bit it waits for. -/
theorem awaits_before {s s' : State} {i : Input} (inv : Integrity s)
    (taken : step s i = .ok s') (other : ∀ rounds, i ≠ .pick rounds) {p : TaskPtr} {call : Call}
    {fd : Nat} (alive : s'.live p = true) (awaits : Awaits s' p call fd) :
    s.live p = true ∧ Awaits s p call fd ∨
      (p = s.current ∧ (∃ granted, i = .io call fd granted) ∧ s'.pc s.current = .wait call fd) ∨
      ∃ ev rest, s.pc s.current = .handle (ev :: rest) ∧ s.links.first ev.dataFd = some p ∧
        ev.dataFd = fd ∧ (s.pc p).waiting = some (call, fd) ∧
        ((s.tasks p).events fd).events &&& ev.events ≠ 0 ∧
        (s.tasks p).revents fd &&& call.event ≠ 0 ∧ ev.events &&& call.event = 0 := by
  have inside := awaits.inside
  by_cases away : p = s.current
  · subst away
    cases step_own inv taken other with
    | aside waits => cases waits.symm.trans inside
    | enters call' fd' granted before there =>
      rw [there] at inside
      obtain ⟨rfl, rfl⟩ := Prod.mk.inj (Option.some.inj inside)
      exact .inr (.inl ⟨rfl, ⟨granted, rfl⟩, there⟩)
    | again call' fd' granted before lacks there =>
      rw [there] at inside
      obtain ⟨rfl, rfl⟩ := Prod.mk.inj (Option.some.inj inside)
      exact .inl ⟨inv.seated.alive, by rw [before]; rfl, lacks⟩
    | starts before there => rw [there] at inside; cases inside
    | loops before loops => cases (Pc.waiting_of_looping loops).symm.trans inside
  · rcases step_others inv taken other away alive with ⟨_, user⟩ | ⟨before, same, tasks⟩
    · rw [user] at inside; cases inside
    rw [same] at inside
    rcases tasks with kept | ⟨ev, rest, pc, first⟩
    · exact .inl ⟨before, inside, kept ▸ awaits.lacks⟩
    by_cases lacks : (s.tasks p).revents fd &&& call.event = 0
    · exact .inl ⟨before, inside, lacks⟩
    -- the received bits have been replaced by the reported ones
    obtain ⟨_, q, first', _, tasks, _⟩ := step_handled taken pc
    obtain rfl := Option.some.inj (first.symm.trans first')
    have lost := awaits.lacks
    rw [tasks, Function.update_self] at lost
    by_cases meets : ((s.tasks p).events ev.dataFd).events &&& ev.events ≠ 0
    · rw [TaskStruct.dispatch_meets meets] at lost
      by_cases here : fd = ev.dataFd
      · subst here
        exact .inr (.inr ⟨ev, rest, pc, first, rfl, inside, meets, lacks, by simpa using lost⟩)
      · exact absurd (by simpa [Function.update_of_ne here] using lost) lacks
    · rw [TaskStruct.dispatch, if_neg meets] at lost
      exact absurd lost lacks

/-- A blocked task other than the current one stays blocked while no event is handled. -/
theorem awaits_after {s s' : State} {i : Input} (inv : Integrity s)
    (taken : step s i = .ok s') (other : ∀ rounds, i ≠ .pick rounds)
    (out : ∀ ev rest, s.pc s.current ≠ .handle (ev :: rest)) {p : TaskPtr} {call : Call}
    {fd : Nat} (away : p ≠ s.current) (alive : s.live p = true) (awaits : Awaits s p call fd) :
    s'.live p = true ∧ Awaits s' p call fd := by
  have more : (s.tasks p).status ≠ .exit := fun exited =>
    Pc.not_exiting_of_waiting awaits.inside (inv.exits p alive exited)
  have alive' := step_live inv taken alive more
  refine ⟨alive', ?_⟩
  rcases step_others inv taken other away alive' with ⟨dead, _⟩ | ⟨_, same, kept | handled⟩
  · cases dead.symm.trans alive
  · exact ⟨by rw [same]; exact awaits.inside, by rw [kept]; exact awaits.lacks⟩
  · obtain ⟨ev, rest, pc, _⟩ := handled
    exact absurd pc (out ev rest)

/-! ## What a step does to the interest list -/

/-- What a step does to the interest list, and how a task that enters a wait loop comes to
its bit. -/
inductive InterestStep (s : State) : Input → State → Prop where
  /-- The list stays. -/
  | keeps {s' : State} {i : Input} : s'.interest = s.interest →
      (∀ call fd granted, i = .io call fd granted → s'.pc s.current = .wait call fd →
        Relies s i call fd) → InterestStep s i s'
  /-- An entry is added for an absent descriptor, or replaced. -/
  | stores {s' : State} {i : Input} (fd : Nat) (entry : EpollEvent) :
      s'.interest = Function.update s.interest fd (some entry) →
      s.interest fd = none ∨ Replaces s i fd entry.events →
      (∀ call fd' granted, i = .io call fd' granted →
        fd' = fd ∧ entry.events &&& call.event = call.event) → InterestStep s i s'
  /-- A finishing task deletes an entry. -/
  | deletes {s' : State} {i : Input} : Releases s i →
      s'.interest = Function.update s.interest (s.tasks s.current).lastFd none →
      InterestStep s i s'
  /-- A descriptor is closed. -/
  | closes {s' : State} (fd : Nat) :
      s'.interest = Function.update s.interest fd none → InterestStep s (.close fd) s'

/-- A successful addition was made for an absent descriptor. -/
theorem epollCtl_add_absent {granted : Bool} {event : EpollEvent} {fd : Nat}
    {interest : Nat → Option EpollEvent}
    (succeeded : ¬(epollCtl granted (.add event) fd interest).2 < 0) : interest fd = none := by
  unfold epollCtl at succeeded
  cases present : interest fd with
  | none => rfl
  | some entry => simp [present] at succeeded

/-- A mask contains the bits it was joined from. -/
theorem or_and_left (bits others : Mask) : (bits ||| others) &&& bits = bits := by
  ext i
  simp only [BitVec.getElem_and, BitVec.getElem_or]
  exact by cases bits[i] <;> simp

/-- `co_write` replaces the entry by the record without `EPOLLOUT`. -/
theorem coWriteDone_interest {fd : Nat} {granted : Bool} {s : State}
    (succeeded : ¬(coWriteDone fd granted s).2 < 0) :
    ∃ entry : EpollEvent, entry.events = ((s.tasks s.current).events fd).events &&& ~~~epollOut ∧
      (coWriteDone fd granted s).1.interest = Function.update s.interest fd (some entry) := by
  refine ⟨_, ?_, epollCtl_granted (.inr rfl) succeeded⟩
  simp [State.modify]

/-- Every step changes the interest list in one of these ways. -/
theorem step_interest {s s' : State} {i : Input} (inv : Integrity s)
    (taken : step s i = .ok s') : InterestStep s i s' := by
  obtain ⟨_, kind⟩ := step_cases taken
  cases kind with
  | create cid pc =>
    refine .keeps ?_ (by simp)
    rcases coCreate_cases cid s with ⟨_, _, _, _, made⟩ | ⟨_, made⟩ <;> rw [made]
  | refused call fd granted tsk ctl pc bound registers failed =>
    refine .keeps ?_ fun call' fd' granted' _ there => ?_
    · cases registers with
      | add => exact epollCtl_failed failed
      | mod => exact epollCtl_failed failed
      | keep => exact absurd failed (Int.lt_irrefl 0)
    · cases (Function.update_self ..).symm.trans there
  | queued call fd granted tsk ctl links pc bound registers ok inserted =>
    cases registers with
    | add unseen room =>
      refine .stores fd ⟨call.event, fd⟩ (epollCtl_granted (.inl rfl) ok)
        (.inl (epollCtl_add_absent ok)) ?_
      rintro _ _ _ ⟨⟩
      exact ⟨rfl, BitVec.and_self⟩
    | mod seen needs =>
      refine .stores fd _ (epollCtl_granted (.inr rfl) ok)
        (.inr (.widens call fd granted pc seen needs ok)) ?_
      rintro _ _ _ ⟨⟩
      exact ⟨rfl, or_and_left _ _⟩
    | keep seen needs =>
      refine .keeps rfl ?_
      rintro _ _ _ ⟨⟩ _
      exact ⟨⟨granted, rfl⟩, pc, seen, needs⟩
  | close fd pc => exact .closes fd rfl
  | writeFailed fd granted pc bit failed => exact .keeps (epollCtl_failed failed) (by simp)
  | writeEnd fd granted pc bit ok =>
    obtain ⟨entry, mask, stored⟩ := coWriteDone_interest ok
    exact .stores fd entry stored (.inr (mask ▸ .narrows fd granted pc bit ok)) (by simp)
  | released links pc more removed => exact .deletes ⟨rfl, pc, more⟩ rfl
  | scheduled behind rounds picked p pc found =>
    exact .keeps (inv.picked pc found).woken.interest (by simp)
  | _ => exact .keeps rfl (by simp)

/-! ## Keeping the entries -/

/-- An entry of another descriptor does not matter. -/
theorem covered_update_of_ne {interest : Nat → Option EpollEvent} {fd other : Nat} {bits : Mask}
    {entry : Option EpollEvent} (different : fd ≠ other) :
    Covered (Function.update interest other entry) fd bits ↔ Covered interest fd bits := by
  simp only [Covered, Function.update_of_ne different]

/-- A stored entry contains the bits of its mask. -/
theorem covered_update_some {interest : Nat → Option EpollEvent} {fd : Nat} {bits : Mask}
    {entry : EpollEvent} :
    Covered (Function.update interest fd (some entry)) fd bits ↔ entry.events &&& bits = bits := by
  simp [Covered]

/-- A deleted entry contains nothing. -/
theorem not_covered_update_none {interest : Nat → Option EpollEvent} {fd : Nat} {bits : Mask} :
    ¬Covered (Function.update interest fd none) fd bits := by
  simp [Covered]

/-- A step that takes no awaited bit away keeps the bits of all blocked tasks registered. -/
theorem Registered.step {s s' : State} {i : Input} (registered : Registered s)
    (inv : Integrity s) (keeps : KeepsInterest s i) (unused : ClosesUnused ⟨s, i, s'⟩)
    (taken : LibcoLite.step s i = .ok s') : Registered s' := by
  intro p call fd alive awaits
  by_cases pick : ∃ rounds, i = .pick rounds
  · obtain ⟨rounds, rfl⟩ := pick
    obtain ⟨interest, live, same⟩ := awaits_pick inv taken
    rw [interest]
    exact registered p call fd (live ▸ alive) ((same p call fd).mp awaits)
  have other : ∀ rounds, i ≠ .pick rounds := fun rounds same => pick ⟨rounds, same⟩
  have change := step_interest inv taken
  rcases awaits_before inv taken other alive awaits with
    ⟨before, blocked⟩ | ⟨rfl, ⟨granted, rfl⟩, there⟩ | ⟨ev, rest, pc, first, rfl, inside, meets,
      had, lost⟩
  · -- a task that was blocked before
    have covered := registered p call fd before blocked
    cases change with
    | keeps interest => rwa [interest]
    | stores fd' entry interest origin own =>
      rw [interest]
      by_cases here : fd = fd'
      · subst here
        rw [covered_update_some]
        rcases origin with absent | replaces
        · obtain ⟨entry, present, _⟩ := covered
          cases present.symm.trans absent
        · exact keeps.replaces fd _ replaces p call before blocked
      · rwa [covered_update_of_ne here]
    | deletes releases interest =>
      rw [interest]
      have away : fd ≠ (s.tasks s.current).lastFd := by
        rintro rfl
        exact keeps.deletes releases p call before blocked
      rwa [covered_update_of_ne away]
    | closes fd' interest =>
      rw [interest]
      have away : fd ≠ fd' := by
        rintro rfl
        exact unused fd rfl p call before blocked
      rwa [covered_update_of_ne away]
  · -- the current task has just been queued
    cases change with
    | keeps interest relies =>
      rw [interest]
      exact keeps.relies call fd (relies call fd granted rfl there)
    | stores fd' entry interest origin own =>
      obtain ⟨rfl, contains⟩ := own call fd granted rfl
      rw [interest, covered_update_some]
      exact contains
    | deletes releases => cases releases.1
  · -- an event took the bit back
    obtain ⟨_, _, _, _, _, interest⟩ := step_handled taken pc
    rw [interest]
    exact keeps.hands ev rest p call pc first inside meets had lost

/-! ## Taking an awaited bit away -/

/-- The current task of a step that deletes or replaces an entry is not blocked. -/
theorem Replaces.away {s : State} {i : Input} {fd : Nat} {mask : Mask}
    (replaces : Replaces s i fd mask) {p : TaskPtr} {call : Call} {fd' : Nat}
    (awaits : Awaits s p call fd') : p ≠ s.current := by
  rintro rfl
  have inside := awaits.inside
  cases replaces with
  | widens call' fd granted pc => rw [pc] at inside; cases inside
  | narrows fd granted pc bit =>
    rw [pc] at inside
    obtain ⟨rfl, rfl⟩ := Prod.mk.inj (Option.some.inj inside)
    exact bit awaits.lacks

/-- A replaced entry has the new mask. -/
theorem Replaces.stored {s s' : State} {i : Input} {fd : Nat} {mask : Mask}
    (replaces : Replaces s i fd mask) (taken : LibcoLite.step s i = .ok s') :
    ∃ entry : EpollEvent, entry.events = mask ∧
      s'.interest = Function.update s.interest fd (some entry) := by
  obtain ⟨_, kind⟩ := step_cases taken
  cases replaces with
  | widens call fd granted pc seen needs ok =>
    cases kind with
    | refused _ _ _ _ _ _ _ registers failed =>
      cases registers with
      | add unseen => exact absurd unseen seen
      | mod => exact absurd failed ok
      | keep _ spares => cases needs.symm.trans spares
    | queued _ _ _ _ _ _ _ _ registers =>
      cases registers with
      | add unseen => exact absurd unseen seen
      | mod => exact ⟨_, rfl, epollCtl_granted (.inr rfl) ok⟩
      | keep _ spares => cases needs.symm.trans spares
  | narrows fd granted pc bit ok =>
    cases kind with
    | waitAgain call fd' granted' pc' lacks =>
      obtain ⟨rfl, rfl⟩ := Pc.wait.inj (pc.symm.trans pc')
      exact absurd lacks bit
    | waitEnd call fd' granted' pc' _ notWrite =>
      obtain ⟨rfl, rfl⟩ := Pc.wait.inj (pc.symm.trans pc')
      exact absurd rfl notWrite
    | writeFailed fd' granted' pc' _ failed =>
      obtain ⟨_, rfl⟩ := Pc.wait.inj (pc.symm.trans pc')
      exact absurd failed ok
    | writeEnd fd' granted' pc' _ ok' =>
      obtain ⟨_, rfl⟩ := Pc.wait.inj (pc.symm.trans pc')
      exact coWriteDone_interest ok

/-- A task that relies on an entry is then blocked, and the list stays. -/
theorem Relies.blocked {s s' : State} {i : Input} {call : Call} {fd : Nat}
    (relies : Relies s i call fd) (taken : LibcoLite.step s i = .ok s') :
    s'.interest = s.interest ∧ s'.live = s.live ∧ Awaits s' s.current call fd := by
  obtain ⟨⟨granted, rfl⟩, pc, seen, spares⟩ := relies
  obtain ⟨_, kind⟩ := step_cases taken
  cases kind with
  | refused _ _ _ _ _ _ _ registers failed =>
    cases registers with
    | add unseen => exact absurd unseen seen
    | mod _ needs => cases needs.symm.trans spares
    | keep => exact absurd failed (Int.lt_irrefl 0)
  | queued _ _ _ tsk _ _ _ _ registers =>
    have lacks := registers.lacks.2
    cases registers with
    | add unseen => exact absurd unseen seen
    | mod _ needs => cases needs.symm.trans spares
    | keep =>
      exact ⟨rfl, rfl, by simp [State.goto, State.registered, Pc.waiting],
        by simpa [State.goto, State.registered] using lacks⟩

/-- A step that leaves the bits of all blocked tasks registered takes no awaited bit away. -/
theorem Registered.keeps {s s' : State} {i : Input} (after : Registered s')
    (inv : Integrity s) (taken : LibcoLite.step s i = .ok s') : KeepsInterest s i where
  deletes releases p call alive awaits := by
    obtain ⟨rfl, pc, more⟩ := releases
    obtain ⟨_, kind⟩ := step_cases taken
    have away : p ≠ s.current := by
      rintro rfl
      have inside := awaits.inside
      rw [pc] at inside
      cases inside
    obtain ⟨alive', awaits'⟩ := awaits_after inv taken (by simp) (by simp [pc])
      away alive awaits
    have covered := after p call _ alive' awaits'
    cases kind with
    | released => exact not_covered_update_none covered
    | _ => simp_all
  replaces fd mask replaces p call alive awaits := by
    have out : (∀ rounds, i ≠ .pick rounds) ∧ ∀ ev rest, s.pc s.current ≠ .handle (ev :: rest) := by
      cases replaces with
      | widens call' fd granted pc => exact ⟨by simp, by simp [pc]⟩
      | narrows fd granted pc => exact ⟨by simp, by simp [pc]⟩
    obtain ⟨alive', awaits'⟩ :=
      awaits_after inv taken out.1 out.2 (replaces.away awaits) alive awaits
    obtain ⟨entry, rfl, interest⟩ := replaces.stored taken
    have covered := after p call fd alive' awaits'
    rwa [interest, covered_update_some] at covered
  relies call fd relies := by
    obtain ⟨interest, live, awaits⟩ := relies.blocked taken
    rw [← interest]
    exact after s.current call fd (live ▸ inv.seated.alive) awaits
  hands ev rest p call pc first inside meets had lost := by
    obtain ⟨rfl, q, first', alive, tasks, interest⟩ := step_handled taken pc
    obtain rfl := Option.some.inj (first.symm.trans first')
    have away : p ≠ s.current := by
      rintro rfl
      rw [pc] at inside
      cases inside
    have more : (s.tasks p).status ≠ .exit := fun exited =>
      Pc.not_exiting_of_waiting inside (inv.exits p alive exited)
    have alive' := step_live inv taken alive more
    have same : s'.pc p = s.pc p := by
      rcases step_others inv taken (by simp) away alive' with ⟨dead, _⟩ | ⟨_, same, _⟩
      · cases dead.symm.trans alive
      · exact same
    rw [← interest]
    refine after p call _ alive' ⟨by rw [same]; exact inside, ?_⟩
    rw [tasks, Function.update_self, TaskStruct.dispatch_meets meets]
    simpa using lost

/-! ## Runs -/

/-- In a run that closes no descriptor on which a task is blocked, the interest list contains
what every blocked task waits for in all states if and only if no step takes an awaited bit
away. -/
theorem interest_is_shared {self : EnvPtr} {clock : Nat → Nat} {past : History} {s : State}
    (run : ThreadRun self clock past s) (unused : Along ClosesUnused past) :
    (Registered s ∧ ∀ move ∈ past, Registered move.before) ↔
      Along (fun move => KeepsInterest move.before move.input) past := by
  induction run with
  | start =>
    have idle : Registered (State.init self clock) := by
      intro p call fd _ awaits
      cases awaits.inside
    exact ⟨fun _ => by simp [Along], fun _ => ⟨idle, by simp⟩⟩
  | move before taken ih =>
    rw [along_cons] at unused ⊢
    have inv := integrity_of_run before
    rw [← ih unused.2, List.forall_mem_cons]
    constructor
    · exact fun ⟨after, now, earlier⟩ => ⟨after.keeps inv taken, now, earlier⟩
    · exact fun ⟨keeps, now, earlier⟩ => ⟨now.step inv keeps unused.1 taken, now, earlier⟩

/-- A coroutine reads from a descriptor, and the event loop polls. -/
def oneReader : List Input :=
  [.create none, .eventloop, .ready (some []), .pick 1, .io .read 3 true, .ctl true, .pick 1]

/-- The entry contains the bit the coroutine waits for. -/
theorem interest_is_shared_oneReader : Registered (replay 2 oneReader) := by
  have run := run_of_replay 2 oneReader (by decide) (by decide)
    (by decide +kernel)
  have open_ : ∀ move ∈ replayMoves 2 oneReader, move.input.closed = none := by decide +kernel
  have points : ∀ move ∈ replayMoves 2 oneReader, move.before.pc move.before.current ∈
      [.user, .epollWait, .schedule .epollWait, .wait .read 3, .schedule (.wait .read 3)] := by
    decide +kernel
  have unseen : ∀ move ∈ replayMoves 2 oneReader, ∀ fd ∈ move.input.descriptor,
      ((move.before.tasks move.before.current).events fd).dataFd = 0 := by decide +kernel
  refine ((interest_is_shared run fun move member fd closed => ?_).mpr
    fun move member => ?_).1
  · cases (open_ move member).symm.trans closed
  · have point := points move member
    refine ⟨fun releases => ?_, fun fd mask replaces => ?_, fun call fd relies => ?_,
      fun ev rest p call pc => ?_⟩
    · simp [releases.2.1] at point
    · generalize input : move.input = i at replaces
      cases replaces with
      | widens call fd granted pc seen =>
        exact absurd (unseen move member fd (by simp [input, Input.descriptor])) seen
      | narrows fd granted pc => simp [pc] at point
    · obtain ⟨⟨granted, input⟩, _, seen, _⟩ := relies
      exact absurd (unseen move member fd (by simp [input, Input.descriptor])) seen
    · simp [pc] at point

/-- Two coroutines use one descriptor. One waits for it; the other one, whose own attempt to
register it fails, finishes. -/
def strangersEntry : List Input :=
  [.create none, .create none, .eventloop, .ready (some []), .pick 1,
    .io .read 3 true, .ctl true, .pick 1,
    .io .read 4 true, .ctl true, .pick 1,
    .ready (some [(4, epollIn)]), .run, .run, .pick 1,
    .ctl true, .run, .io .read 3 true, .ret, .run]

/-- Not every run keeps the bits of blocked tasks registered: the finishing coroutine deletes
the entry of the waiting one. -/
theorem interest_is_shared_fails : ¬∀ (past : History) (s : State),
    ThreadRun 0 ticking past s → Along InRange past →
    (∀ move ∈ past, move.input.closed = none) → ∀ p call fd, s.live p = true →
      Blocked s p call fd → Covered s.interest fd call.event := by
  intro bitsCovered
  have run := run_of_replay 3 strangersEntry (by decide) (by decide)
    (by decide +kernel)
  obtain ⟨entry, present, _⟩ := bitsCovered _ _ run (by unfold Along; decide +kernel)
    (by decide +kernel) 1 .read 3 (by decide +kernel)
    ⟨by decide +kernel, by decide +kernel, by decide +kernel⟩
  have absent : (replay 3 strangersEntry).interest 3 = none := by decide +kernel
  cases absent.symm.trans present

end LibcoLite
