import LibcoLite.Descriptor
import LibcoLite.Interest

/-!
# Recorded and registered masks

A task's record of a descriptor and the kernel's entry are written by separate statements.
The first registration records `EPOLLIN` whatever it passes to the kernel. For a descriptor
with one user whose calls succeed, the two masks agree and contain the awaited bit in every
wait exactly when the first call was not a `co_write`.
-/

namespace LibcoLite

open Transition (Along Move Run along_cons)

/-- A move of a run in which one task uses the descriptor, all its calls on it succeed, and it
is not closed. -/
structure Undivided (user : TaskPtr) (fd : Nat) (move : Move State Input) : Prop where
  /-- No other task uses the descriptor. -/
  used : UsedBy user fd move
  /-- The descriptor is not closed. -/
  stays : move.input ≠ .close fd
  /-- `add_queue` succeeds. -/
  queued : ∀ call granted, move.input = .io call fd granted →
    move.after.pc move.before.current = .wait call fd
  /-- `co_write` succeeds behind its wait loop. -/
  written : move.before.pc move.before.current = .wait .write fd →
    move.after.pc move.before.current ≠ .user

/-- The kernel's entry has the mask the task has recorded. -/
def Matches (s : State) (user : TaskPtr) (fd : Nat) : Prop :=
  ∃ entry, s.interest fd = some entry ∧ entry.events = ((s.tasks user).events fd).events

/-- While the user waits on the descriptor, its record contains the awaited bit and has the
mask of the kernel's entry, and an event with this bit makes it running. -/
def Agrees (user : TaskPtr) (fd : Nat) (s : State) : Prop :=
  ∀ call, s.live user = true → (s.pc user).waiting = some (call, fd) →
    ((s.tasks user).events fd).events &&& call.event = call.event ∧ Matches s user fd ∧
    ∀ ev : EpollEvent, ev.dataFd = fd → ev.events &&& call.event ≠ 0 →
      ((s.tasks user).dispatch ev).status = .running

/-- When the user completes a `co_write`, its record loses `EPOLLOUT` and the kernel's entry has
the new mask. -/
def Narrowed (user : TaskPtr) (fd : Nat) (move : Move State Input) : Prop :=
  move.before.current = user → move.before.pc user = .wait .write fd →
    move.after.pc user = .syscall .write fd →
    ((move.after.tasks user).events fd).events =
      ((move.before.tasks user).events fd).events &&& ~~~epollOut ∧
    Matches move.after user fd

/-- The user's first blocking call on the descriptor is a `co_write`. -/
def FirstWrite (user : TaskPtr) (fd : Nat) (move : Move State Input) : Prop :=
  (∃ granted, move.input = .io .write fd granted) ∧
    ((move.before.tasks user).events fd).dataFd = 0

/-- What holds of a descriptor the user has registered with a first call for input. -/
structure Settled (user : TaskPtr) (fd : Nat) (s : State) : Prop where
  /-- The recorded mask is the entry's. -/
  registered : Matches s user fd
  /-- It contains the bit the user waits for. -/
  contains : ∀ call, (s.pc user).waiting = some (call, fd) →
    ((s.tasks user).events fd).events &&& call.event = call.event

/-- The user has registered the descriptor and is not exiting. -/
structure Engaged (user : TaskPtr) (fd : Nat) (s : State) : Prop where
  /-- The user is live. -/
  alive : s.live user = true
  /-- It is not exiting. -/
  more : ¬(s.pc user).exiting
  /-- It has a record of the descriptor. -/
  seen : ((s.tasks user).events fd).dataFd ≠ 0

variable {user : TaskPtr} {fd : Nat} {s s' : State} {i : Input} {self : EnvPtr}
  {clock : Nat → Nat} {past : History}

/-- A registration that does not start with a write leaves the masks in agreement. -/
theorem Settled.registers {call : Call} {granted : Bool} {tsk : TaskStruct}
    {ctl : (Nat → Option EpollEvent) × Int} (masked : Masked s) (alive : s.live user = true)
    (settled : ((s.tasks user).events fd).dataFd ≠ 0 → Settled user fd s)
    (own : s.current = user) (registers : Registers fd call.event granted s tsk ctl)
    (ok : ¬ctl.2 < 0) (notFirst : ((s.tasks user).events fd).dataFd = 0 → call ≠ .write)
    (tasks : s'.tasks user = tsk) (interest : s'.interest = ctl.1)
    (there : s'.pc user = .wait call fd) : Settled user fd s' := by
  subst own
  -- the three ways of `add_queue` differ in the recorded mask and in the entry
  have leaves (mask : Mask) (record : (tsk.events fd).events = mask)
      (entry : ∃ entry, ctl.1 fd = some entry ∧ entry.events = mask)
      (contains : mask &&& call.event = call.event) : Settled s.current fd s' := by
    constructor
    · unfold Matches
      rw [tasks, record, interest]
      exact entry
    · intro call' inside
      rw [there] at inside
      cases inside
      rw [tasks, record]
      exact contains
  cases registers with
  | add unseen room =>
    have input : call.event = epollIn := by
      cases call with
      | write => exact absurd rfl (notFirst unseen)
      | _ => rfl
    apply leaves epollIn
    · simp [TaskStruct.record]
    · rw [epollCtl_granted (.inl rfl) ok, Function.update_self]
      exact ⟨_, rfl, input⟩
    · rw [input]
      rfl
  | mod seen needs =>
    apply leaves (((s.tasks s.current).events fd).events ||| call.event)
    · simp [TaskStruct.widen, TaskStruct.await]
    · rw [epollCtl_granted (.inr rfl) ok, Function.update_self]
      exact ⟨_, rfl, or_recorded _ _⟩
    · rw [BitVec.or_comm]
      exact or_and_left _ _
  | keep seen needs =>
    obtain ⟨input, other⟩ := (masked s.current fd alive seen).spares_iff.mp needs
    apply leaves epollIn
    · exact input
    · obtain ⟨entry, present, same⟩ := (settled seen).registered
      exact ⟨entry, present, same.trans input⟩
    · cases call with
      | write => exact absurd rfl other
      | _ => rfl

/-- A successful `co_write` leaves its bit out of both masks. -/
theorem narrow_leaves {granted : Bool} (own : s.current = user)
    (ok : ¬(narrowing fd granted s).2 < 0) (tasks : s'.tasks user = (s.tasks user).narrow fd)
    (interest : s'.interest = (narrowing fd granted s).1) :
    ((s'.tasks user).events fd).events = ((s.tasks user).events fd).events &&& ~~~epollOut ∧
      Matches s' user fd := by
  subst own
  have record : (s'.tasks s.current).events fd =
      ⟨((s.tasks s.current).events fd).events &&& ~~~epollOut,
        ((s.tasks s.current).events fd).dataFd⟩ := by
    rw [tasks]
    simp [TaskStruct.narrow]
  unfold Matches
  rw [record, interest, narrowing, epollCtl_granted (.inr rfl) ok, Function.update_self]
  exact ⟨rfl, _, rfl, rfl⟩

/-- The user's calls and the ends of its writes keep the masks in agreement, and nothing else
touches them. -/
theorem Settled.step (settled : Engaged user fd s → Settled user fd s)
    (inv : Integrity s) (masked : Masked s) (only : Private user fd s)
    (undivided : Undivided user fd ⟨s, i, s'⟩)
    (notFirst : ¬FirstWrite user fd ⟨s, i, s'⟩) (taken : LibcoLite.step s i = .ok s')
    (engaged : Engaged user fd s') : Settled user fd s' := by
  -- the user was there before and was not exiting
  have alive : s.live user = true := by
    apply Classical.byContradiction
    intro dead
    have new := (step_new inv taken engaged.alive (Bool.eq_false_iff.mpr dead)).2.2 fd
    exact engaged.seen (congrArg EpollEvent.dataFd new)
  have more : ¬(s.pc user).exiting := by
    intro exiting
    exact engaged.more (step_exiting_on inv taken alive engaged.alive exiting)
  have was (seen : ((s.tasks user).events fd).dataFd ≠ 0) : Settled user fd s :=
    settled ⟨alive, more, seen⟩
  cases descriptor_step inv only undivided.used taken alive more with
  | keeps _ _ record entry notCall notClose =>
    have before : Settled user fd s := by
      apply was
      rw [← record]
      exact engaged.seen
    constructor
    · unfold Matches
      rw [record, entry]
      exact before.registered
    · intro call inside
      rw [record]
      rcases step_waiting inv taken engaged.alive inside with ⟨_, waits⟩ | ⟨_, enters⟩
      · exact before.contains call waits
      · obtain ⟨granted, _, _, input, _⟩ := enters
        exact absurd input (notCall call granted)
  | registers call granted _ tsk ctl own pc registers tasks interest there =>
    have queued := undivided.queued call granted rfl
    rw [own] at queued
    have ok : ¬ctl.2 < 0 := by
      intro failed
      rw [queued, if_pos failed] at there
      cases there
    apply Settled.registers masked alive was own registers ok ?_ tasks interest queued
    rintro unseen rfl
    apply notFirst
    exact ⟨⟨granted, rfl⟩, unseen⟩
  | narrows granted _ own pc bit tasks interest there =>
    have ok : ¬(narrowing fd granted s).2 < 0 := by
      intro failed
      rw [if_pos failed] at there
      subst own
      exact undivided.written pc there
    constructor
    · exact (narrow_leaves own ok tasks interest).2
    · intro call inside
      rw [there, if_neg ok] at inside
      cases inside
  | closes => exact absurd rfl undivided.stays

/-- What is settled is in agreement while the user waits. -/
theorem Settled.agrees (positive : 0 < fd) (settled : Engaged user fd s → Settled user fd s)
    (named : Named s) : Agrees user fd s := by
  intro call alive inside
  have name := named.waits user call fd alive inside
  have before : Settled user fd s := by
    apply settled
    constructor
    · exact alive
    · exact Pc.not_exiting_of_waiting inside
    · omega
  refine ⟨before.contains call inside, before.registered, ?_⟩
  intro ev here reported
  subst here
  have meets : ((s.tasks user).events ev.dataFd).events &&& ev.events ≠ 0 := by
    intro misses
    apply reported
    rw [← before.contains call inside, ← BitVec.and_assoc, BitVec.and_comm ev.events, misses]
    simp
  rw [TaskStruct.dispatch_meets meets]

/-- The end of a `co_write` leaves its bit out of both masks. -/
theorem narrowed_step (taken : step s i = .ok s') : Narrowed user fd ⟨s, i, s'⟩ := by
  rintro (own : s.current = user) (pc : s.pc user = _) (done : s'.pc user = _)
  subst own
  obtain ⟨_, kind⟩ := step_cases taken
  cases kind with
  | writeEnd fd' granted pc' bit ok =>
    obtain rfl : fd' = fd := by
      cases pc.symm.trans pc'
      rfl
    rw [coWriteDone_eq] at ok ⊢
    exact narrow_leaves rfl ok (Function.update_self ..) rfl
  | writeFailed fd' granted =>
    rw [coWriteDone_eq] at done
    cases (Function.update_self ..).symm.trans done
  | _ => simp_all [State.goto, State.modify]

/-- A first write leaves a record without the awaited bit. -/
theorem FirstWrite.disagrees (first : FirstWrite user fd ⟨s, i, s'⟩) (inv : Integrity s)
    (undivided : Undivided user fd ⟨s, i, s'⟩) (taken : step s i = .ok s') :
    ¬Agrees user fd s' := by
  obtain ⟨⟨granted, input⟩, unseen⟩ := first
  obtain rfl : i = .io .write fd granted := input
  obtain rfl : s.current = user := undivided.used .write granted rfl
  have there := undivided.queued .write granted rfl
  obtain ⟨_, tsk, _, _, pc, registers, _, tasks, _⟩ := enters_of_pc taken there
  have more : (s.tasks s.current).status ≠ .exit := by
    intro exited
    have exiting := inv.exits s.current inv.seated.alive exited
    rw [pc] at exiting
    exact exiting
  intro agrees
  have contains := (agrees .write (step_live inv taken inv.seated.alive more)
    (by rw [show s'.pc s.current = _ from there]; rfl)).1
  rw [tasks, Function.update_self] at contains
  cases registers with
  | add =>
    simp only [TaskStruct.record, Function.update_self] at contains
    cases contains
  | mod seen => exact seen unseen
  | keep seen => exact seen unseen

/-- In a step the masks come to agree exactly when it is not a first write. -/
theorem agrees_step (positive : 0 < fd) (settled : Engaged user fd s → Settled user fd s)
    (inv : Integrity s) (named : Named s) (masked : Masked s) (only : Private user fd s)
    (undivided : Undivided user fd ⟨s, i, s'⟩) (taken : step s i = .ok s') :
    Agrees user fd s' ∧ Narrowed user fd ⟨s, i, s'⟩ ↔ ¬FirstWrite user fd ⟨s, i, s'⟩ := by
  constructor
  · rintro ⟨agrees, _⟩ first
    exact first.disagrees inv undivided taken agrees
  · intro notFirst
    constructor
    · apply Settled.agrees positive ?_ (named.step inv taken)
      exact Settled.step settled inv masked only undivided notFirst taken
    · exact narrowed_step taken

/-- A coroutine reads from a descriptor, writes to it and reads again. -/
def readWriteRead : List Input :=
  [.create none, .eventloop, .ready (some []), .pick 1, .io .read 3 true, .ctl true, .pick 1,
    .ready (some [(3, epollIn)]), .run, .run, .pick 1, .ctl true, .run,
    .io .write 3 true, .ctl true, .pick 1, .ready (some [(3, epollOut)]), .run, .run, .pick 1,
    .ctl true, .run, .io .read 3 true, .ctl true]

/-- The first library call of a thread is a write. -/
def firstWriteCall : List Input := [.io .write 3 true]

end LibcoLite
