import LibcoLite.Descriptor
import LibcoLite.Interest
import LibcoLite.Readiness
import LibcoLite.Registrations

/-!
# Reused descriptor numbers

Closing a descriptor deletes the kernel's entry, and nothing deletes the task's record. A
call that finds the record of an earlier descriptor of the same number then modifies an
entry that is absent, which fails, or does nothing and returns as if it had registered. For
a descriptor with one user, the latter happens exactly when the number was closed, or never
successfully added, before a call whose record asks for nothing.
-/

namespace LibcoLite

open Transition (Along Move Run Throughout along_cons)

/-- A move adds the descriptor to the interest list in a blocking call that succeeds. -/
def Adds (fd : Nat) (move : Move State Input) : Prop :=
  ∃ call granted, move.input = .io call fd granted ∧
    ((move.before.tasks move.before.current).events fd).dataFd = 0 ∧
    move.after.pc move.before.current = .wait call fd

/-- In a history, latest move first, the descriptor has been added and not closed since. -/
inductive Enrolled (fd : Nat) : History → Prop where
  /-- The addition. -/
  | adds (move : Move State Input) (past : History) : Adds fd move → Enrolled fd (move :: past)
  /-- A move that does not close the descriptor. -/
  | stays (move : Move State Input) (past : History) : Enrolled fd past →
      move.input ≠ .close fd → Enrolled fd (move :: past)

/-- A blocking call of the move that comes to its wait loop has an entry with its event, so its
readiness can be reported. -/
def Backed (fd : Nat) (move : Move State Input) : Prop :=
  ∀ call granted, move.input = .io call fd granted →
    move.after.pc move.before.current = .wait call fd →
    Covered move.after.interest fd call.event ∧
      mayReport move.after.interest fd call.event = true

/-- A blocking call of the move that leaves the entry to the record finds the descriptor
added and not closed since. -/
def Attended (fd : Nat) (past : History) (move : Move State Input) : Prop :=
  ∀ call, Relies move.before move.input call fd → Enrolled fd past

/-- The events still to be handled are such as may be reported now. -/
def Pending (s : State) : Prop :=
  ∀ events, s.pc s.current = .handle events →
    ∀ ev ∈ events, mayReport s.interest ev.dataFd ev.events = true

/-- The user waits for `EPOLLOUT` with an entry that has this bit only, and with a record that
no event of this entry meets. -/
structure Starved (user : TaskPtr) (fd : Nat) (s : State) (entry : EpollEvent) : Prop where
  /-- The user is in the wait loop of `co_write`. -/
  waits : (s.pc user).waiting = some (.write, fd)
  /-- The awaited bit has not been received. -/
  lacks : (s.tasks user).revents fd &&& epollOut = 0
  /-- The record is that of a first call. -/
  record : ((s.tasks user).events fd).events = epollIn
  /-- The entry, too. -/
  mask : entry.events = epollOut

/-- What the history says of the entry of a descriptor that the user has to itself. -/
structure Enrolment (user : TaskPtr) (fd : Nat) (past : History) (s : State) : Prop where
  /-- The entry was added by a call that recorded the descriptor. -/
  seen : ∀ entry, s.interest fd = some entry → ((s.tasks user).events fd).dataFd ≠ 0
  /-- There is one if and only if the descriptor has been added and not closed since. -/
  listed : Enrolled fd past ↔ ∃ entry, s.interest fd = some entry
  /-- It contains `EPOLLIN` unless the user is starved. -/
  contains : ∀ entry, s.interest fd = some entry →
    entry.events &&& epollIn = epollIn ∨ Starved user fd s entry

variable {self : EnvPtr} {clock : Nat → Nat} {past : History} {user : TaskPtr} {fd : Nat}
  {s s' : State} {i : Input}

/-- A descriptor has been added and not closed since, if the last move adds it, or if it was so
before and the move does not close it. -/
theorem enrolled_cons {move : Move State Input} :
    Enrolled fd (move :: past) ↔ Adds fd move ∨ Enrolled fd past ∧ move.input ≠ .close fd := by
  constructor
  · intro enrolled
    cases enrolled with
    | adds _ _ adds => exact .inl adds
    | stays _ _ before stays => exact .inr ⟨before, stays⟩
  · rintro (adds | ⟨before, stays⟩)
    · exact .adds move past adds
    · exact .stays move past before stays

instance (move : Move State Input) : Decidable (Adds fd move) :=
  inferInstanceAs (Decidable (∃ call granted, move.input = .io call fd granted ∧
    ((move.before.tasks move.before.current).events fd).dataFd = 0 ∧
    move.after.pc move.before.current = .wait call fd))

instance Enrolled.decidable : (past : History) → Decidable (Enrolled fd past)
  | [] => .isFalse (by intro enrolled; cases enrolled)
  | _ :: past =>
    have := Enrolled.decidable past
    decidable_of_iff _ enrolled_cons.symm

instance (past : History) (move : Move State Input) : Decidable (Attended fd past move) :=
  inferInstanceAs (Decidable (∀ call, ((∃ granted, move.input = .io call fd granted) ∧
    move.before.pc move.before.current = .user ∧
    ((move.before.tasks move.before.current).events fd).dataFd ≠ 0 ∧
    needsMod ((move.before.tasks move.before.current).events fd).events call.event = false) →
      Enrolled fd past))

/-- An entry with the event of a call lets this event be reported. -/
theorem Covered.may {interest : Nat → Option EpollEvent} {call : Call}
    (covered : Covered interest fd call.event) : mayReport interest fd call.event = true := by
  obtain ⟨entry, present, contains⟩ := covered
  have single : call.event ≠ 0 := by cases call <;> decide
  have within : call.event &&& ~~~(entry.events ||| epollErr ||| epollHup) = 0 := by
    rw [← contains]
    ext i
    simp only [BitVec.getElem_and, BitVec.getElem_not, BitVec.getElem_or]
    cases entry.events[i] <;> simp
  simp only [mayReport, present, within]
  simpa using single

/-! ## Events to be handled -/

/-- The events `epoll_wait` returns may be reported. -/
theorem may_of_epollWait (named : Named s) {reports : List (Nat × Mask)}
    {events : List EpollEvent} (polled : epollWait s.interest reports = some events) :
    ∀ ev ∈ events, mayReport s.interest ev.dataFd ev.events = true := by
  intro ev member
  have reported := Heeded.reports_of_epollWait named polled ev member
  unfold epollWait at polled
  split at polled
  · rename_i may
    exact may.2.2 _ reported
  · cases polled

/-- Every step leaves events to be handled that may be reported. -/
theorem Pending.step (pending : Pending s) (inv : Integrity s) (suspended : Suspended s)
    (named : Named s) (taken : LibcoLite.step s i = .ok s') : Pending s' := by
  intro events there
  have other := suspended.notSwitched inv taken (by rw [there]; exact id)
  rw [(step_cases taken).2.current other] at there
  rcases step_handles inv taken other there with ⟨reports, rfl, pc, polled⟩ | ⟨ev, pc⟩
  · have same : s'.interest = s.interest := by
      cases step_records inv taken with
      | keeps _ _ _ interest => exact interest
    rw [same]
    exact may_of_epollWait named polled
  · obtain ⟨_, _, _, _, _, same⟩ := step_handled taken pc
    rw [same]
    intro ev' member
    exact pending _ pc ev' (List.mem_cons_of_mem _ member)

/-- In every reachable state the events to be handled may be reported. -/
theorem pending_of_run (run : ThreadRun self clock past s) : Pending s := by
  induction run with
  | start =>
    intro events there
    cases there
  | move before taken ih =>
    exact ih.step (integrity_of_run before) (suspended_of_run before) (named_of_run before) taken

/-! ## The starved user -/

/-- A waiting task that has not received the awaited bit goes on waiting. -/
theorem step_waits_on (inv : Integrity s) (taken : step s i = .ok s') {p : TaskPtr} {call : Call}
    (alive : s.live p = true) (inside : (s.pc p).waiting = some (call, fd))
    (lacks : (s.tasks p).revents fd &&& call.event = 0) :
    (s'.pc p).waiting = some (call, fd) := by
  rcases i.switches with ⟨rounds, rfl⟩ | other
  · rw [step_switch_pc Pc.waiting (fun _ => rfl) inv taken]
    exact inside
  by_cases own : p = s.current
  · subst own
    -- a test that has found another bit is one of another wait
    have wrong {call' : Call} {fd' : Nat} (pc : s.pc s.current = .wait call' fd')
        (bit : (s.tasks s.current).revents fd' &&& call'.event ≠ 0) : False := by
      rw [pc] at inside
      cases inside
      exact bit lacks
    obtain ⟨_, kind⟩ := step_cases taken
    cases kind with
    | waitAgain call' fd' granted pc =>
      rw [pc] at inside
      cases inside
      simp [State.goto, State.modify, Pc.waiting]
    | waitEnd call' fd' granted pc bit => exact (wrong pc bit).elim
    | writeFailed fd' granted pc bit => exact (wrong pc bit).elim
    | writeEnd fd' granted pc bit => exact (wrong pc bit).elim
    | _ => simp_all [Pc.waiting]
  · have more : (s.tasks p).status ≠ .exit := by
      intro exited
      exact Pc.not_exiting_of_waiting inside (inv.exits p alive exited)
    rcases step_others inv taken other own (step_live inv taken alive more) with
      ⟨dead, _⟩ | ⟨_, same, _⟩
    · cases dead.symm.trans alive
    · rw [same]
      exact inside

/-- No event of the starved user's entry meets its record, so it goes on waiting. -/
theorem Starved.stays {entry : EpollEvent} (starved : Starved user fd s entry)
    (present : s.interest fd = some entry) (pending : Pending s) (inv : Integrity s)
    (alive : s.live user = true) (taken : step s i = .ok s')
    (record : (s'.tasks user).events fd = (s.tasks user).events fd) :
    Starved user fd s' entry := by
  constructor
  · exact step_waits_on inv taken alive starved.waits starved.lacks
  · apply Classical.byContradiction
    intro received
    obtain ⟨ev, rest, pc, rfl, _, meets, _⟩ :=
      step_received inv taken alive starved.waits starved.lacks received
    have may := pending _ pc ev (List.mem_cons_self ..)
    simp only [mayReport, present, starved.mask, decide_eq_true_eq] at may
    apply meets
    rw [starved.record, BitVec.and_comm]
    -- a reported event lacks `EPOLLIN`
    have lacks : epollIn = epollIn &&& ~~~(epollOut ||| epollErr ||| epollHup) := by decide
    rw [lacks, BitVec.and_comm epollIn, ← BitVec.and_assoc, may.2]
    exact BitVec.zero_and
  · rw [record]
    exact starved.record
  · exact starved.mask

/-! ## The history of an entry -/

/-- A descriptor that has been added was added by the user. -/
theorem enrolled_used (run : ThreadRun self clock past s) (used : Along (UsedBy user fd) past)
    (enrolled : Enrolled fd past) : user < s.fresh := by
  induction run with
  | start => cases enrolled
  | @move past s s' i before taken ih =>
    obtain ⟨last, rest⟩ := along_cons.mp used
    have inv := integrity_of_run before
    apply Nat.lt_of_lt_of_le _ (step_fresh inv taken)
    rcases enrolled_cons.mp enrolled with ⟨call, granted, input, _⟩ | ⟨earlier, _⟩
    · rw [← last call granted input]
      exact inv.used _ inv.seated.alive
    · exact ih rest earlier

/-- The descriptor of a user that has just been created has no entry. -/
theorem Enrolment.new (run : ThreadRun self clock past s) (used : Along (UsedBy user fd) past)
    (last : UsedBy user fd ⟨s, i, s'⟩) (taken : step s i = .ok s') (before : s.live user = false)
    (alive : s'.live user = true) : Enrolment user fd (⟨s, i, s'⟩ :: past) s' := by
  have inv := integrity_of_run run
  obtain ⟨new, unused, _⟩ := step_new inv taken alive before
  have absent : ∀ entry, s'.interest fd ≠ some entry := by
    intro entry present
    have only := private_of_run (.move run taken) (along_cons.mpr ⟨last, used⟩)
    obtain ⟨p, alive', k, small, recorded⟩ := held_of_run (.move run taken) fd entry present
    by_cases own : p = user
    · rw [own, unused] at small
      exact Nat.not_lt_zero k small
    · exact only.records p alive' own k small recorded
  constructor
  · intro entry present
    exact absurd present (absent entry)
  · constructor
    · intro enrolled
      rcases enrolled_cons.mp enrolled with ⟨call, granted, input, _⟩ | ⟨earlier, _⟩
      · have own := last call granted input
        have was := inv.seated.alive
        rw [own] at was
        cases before.symm.trans was
      · exact absurd new (Nat.ne_of_lt (enrolled_used run used earlier))
    · rintro ⟨entry, present⟩
      exact absurd present (absent entry)
  · intro entry present
    exact absurd present (absent entry)

/-- A move that leaves the entry, and neither adds nor closes the descriptor. -/
theorem Enrolment.kept {move : Move State Input} (enrolment : Enrolment user fd past s)
    (interest : s'.interest fd = s.interest fd) (noAdd : ¬Adds fd move)
    (noClose : move.input ≠ .close fd)
    (recorded : ∀ entry, s.interest fd = some entry → ((s'.tasks user).events fd).dataFd ≠ 0)
    (contains : ∀ entry, s.interest fd = some entry →
      entry.events &&& epollIn = epollIn ∨ Starved user fd s' entry) :
    Enrolment user fd (move :: past) s' := by
  constructor
  · rw [interest]
    exact recorded
  · rw [interest, ← enrolment.listed, enrolled_cons]
    constructor
    · rintro (adds | ⟨earlier, _⟩)
      · exact absurd adds noAdd
      · exact earlier
    · intro earlier
      exact .inr ⟨earlier, noClose⟩
  · rw [interest]
    exact contains

/-- A move that stores an entry. -/
theorem Enrolment.stored {move : Move State Input} {entry : EpollEvent}
    (interest : s'.interest fd = some entry) (enrolled : Enrolled fd (move :: past))
    (recorded : ((s'.tasks user).events fd).dataFd ≠ 0)
    (contains : entry.events &&& epollIn = epollIn ∨ Starved user fd s' entry) :
    Enrolment user fd (move :: past) s' := by
  constructor
  · exact fun _ _ => recorded
  · exact ⟨fun _ => ⟨entry, interest⟩, fun _ => enrolled⟩
  · intro entry' present
    cases interest.symm.trans present
    exact contains

/-- A call of the user leaves an entry that contains `EPOLLIN`, or starves it. -/
theorem Enrolment.registers {call : Call} {granted : Bool} {tsk : TaskStruct}
    {ctl : (Nat → Option EpollEvent) × Int} (enrolment : Enrolment user fd past s)
    (masked : Masked s) (alive : s.live user = true) (own : s.current = user)
    (pc : s.pc user = .user) (registers : Registers fd call.event granted s tsk ctl)
    (name : (tsk.events fd).dataFd ≠ 0) (tasks : s'.tasks user = tsk)
    (interest : s'.interest = ctl.1)
    (there : s'.pc user = (if ctl.2 < 0 then .user else .wait call fd)) :
    Enrolment user fd (⟨s, .io call fd granted, s'⟩ :: past) s' := by
  subst own
  have contained : ∀ entry, s.interest fd = some entry → entry.events &&& epollIn = epollIn ∨
      Starved s.current fd s' entry := by
    intro entry present
    rcases enrolment.contains entry present with contains | starved
    · exact .inl contains
    · have waits := starved.waits
      rw [pc] at waits
      cases waits
  have recorded : ((s'.tasks s.current).events fd).dataFd ≠ 0 := by
    rw [tasks]
    exact name
  have lacks := registers.lacks.2
  cases registers with
  | add unseen room =>
    by_cases failed : (epollCtl granted (.add ⟨call.event, fd⟩) fd s.interest).2 < 0
    · rw [if_pos failed] at there
      apply enrolment.kept
      · rw [interest, epollCtl_failed failed]
      · simp [Adds, there]
      · simp
      · exact fun _ _ => recorded
      · exact contained
    · rw [if_neg failed] at there
      apply Enrolment.stored
      · rw [interest, epollCtl_granted (.inl rfl) failed, Function.update_self]
      · exact .adds _ past ⟨call, granted, rfl, unseen, there⟩
      · exact recorded
      · cases call with
        | write =>
          right
          constructor
          · rw [there]
            rfl
          · rw [tasks]
            exact lacks
          · rw [tasks]
            simp [TaskStruct.record]
          · rfl
        | _ => exact .inl BitVec.and_self
  | mod seen needs =>
    by_cases failed : (epollCtl granted (.mod ⟨call.event |||
        (((s.tasks s.current).events fd).events ||| call.event), fd⟩) fd s.interest).2 < 0
    · apply enrolment.kept
      · rw [interest, epollCtl_failed failed]
      · simp [Adds, seen]
      · simp
      · exact fun _ _ => recorded
      · exact contained
    · apply Enrolment.stored
      · rw [interest, epollCtl_granted (.inr rfl) failed, Function.update_self]
      · apply Enrolled.stays
        · exact enrolment.listed.mpr (epollCtl_mod_present failed)
        · simp
      · exact recorded
      · left
        rw [or_recorded]
        exact ((masked s.current fd alive seen).join call).contains
  | keep seen needs =>
    apply enrolment.kept
    · rw [interest]
    · simp [Adds, seen]
    · simp
    · exact fun _ _ => recorded
    · exact contained

/-- The end of a write narrows an entry that is present, and it leaves `EPOLLIN`. -/
theorem Enrolment.narrows {granted : Bool} (enrolment : Enrolment user fd past s)
    (named : Named s) (masked : Masked s) (alive : s.live user = true) (own : s.current = user)
    (pc : s.pc user = .wait .write fd) (bit : (s.tasks user).revents fd &&& epollOut ≠ 0)
    (positive : 0 < fd) (tasks : s'.tasks user = (s.tasks user).narrow fd)
    (interest : s'.interest = (narrowing fd granted s).1) :
    Enrolment user fd (⟨s, .ctl granted, s'⟩ :: past) s' := by
  subst own
  have seen : ((s.tasks s.current).events fd).dataFd ≠ 0 := by
    rw [named.waits s.current .write fd alive (by rw [pc]; rfl)]
    omega
  have recorded : ((s'.tasks s.current).events fd).dataFd ≠ 0 := by
    rw [tasks]
    simpa [TaskStruct.narrow] using seen
  by_cases failed : (narrowing fd granted s).2 < 0
  · apply enrolment.kept
    · rw [interest, narrowing, epollCtl_failed failed]
    · simp [Adds]
    · simp
    · exact fun _ _ => recorded
    · intro entry present
      rcases enrolment.contains entry present with contains | starved
      · exact .inl contains
      · exact absurd starved.lacks bit
  · apply Enrolment.stored
    · rw [interest, narrowing, epollCtl_granted (.inr rfl) failed, Function.update_self]
    · apply Enrolled.stays
      · exact enrolment.listed.mpr (epollCtl_mod_present failed)
      · simp
    · exact recorded
    · left
      rw [(masked s.current fd alive seen).narrow]
      exact BitVec.and_self

/-- While the user is not exiting, every step keeps what the history says of its descriptor. -/
theorem Enrolment.step (positive : 0 < fd) (run : ThreadRun self clock past s)
    (used : Along (UsedBy user fd) past) (last : UsedBy user fd ⟨s, i, s'⟩)
    (enrolment : s.live user = true → ¬(s.pc user).exiting → Enrolment user fd past s)
    (taken : LibcoLite.step s i = .ok s') (alive : s'.live user = true)
    (more : ¬(s'.pc user).exiting) : Enrolment user fd (⟨s, i, s'⟩ :: past) s' := by
  have inv := integrity_of_run run
  cases before : s.live user with
  | false => exact .new run used last taken before alive
  | true =>
    have busy : ¬(s.pc user).exiting := by
      intro exiting
      exact more (step_exiting_on inv taken before alive exiting)
    have enrolment := enrolment before busy
    have masked := masked_of_run run
    have named := named_of_run run
    cases descriptor_step inv (private_of_run run used) last taken before busy with
    | keeps _ _ record entry notCall notClose =>
      apply enrolment.kept entry
      · rintro ⟨call, granted, input, _⟩
        exact notCall call granted input
      · exact notClose
      · rw [record]
        exact enrolment.seen
      · intro entry' present
        rcases enrolment.contains entry' present with contains | starved
        · exact .inl contains
        · exact .inr (starved.stays present (pending_of_run run) inv before taken record)
    | registers call granted _ tsk ctl own pc registers tasks interest there =>
      have name : (tsk.events fd).dataFd = fd := by
        apply registers.names
        rw [own]
        exact named.records user fd before
      exact enrolment.registers masked before own pc registers (by omega) tasks interest there
    | narrows granted _ own pc bit tasks interest there =>
      exact enrolment.narrows named masked before own pc bit positive tasks interest
    | closes _ record entry =>
      constructor
      · intro entry' present
        cases entry.symm.trans present
      · rw [entry, enrolled_cons]
        simp [Adds]
      · intro entry' present
        cases entry.symm.trans present

/-! ## Calls behind a reuse -/

/-- A call that leaves the entry to the record comes to its wait loop. -/
theorem Relies.waits {call : Call} (relies : Relies s i call fd) (taken : step s i = .ok s') :
    s'.interest = s.interest ∧ s'.pc s.current = .wait call fd := by
  obtain ⟨⟨granted, rfl⟩, _, seen, spares⟩ := relies
  obtain ⟨_, kind⟩ := step_cases taken
  cases kind with
  | refused _ _ _ tsk ctl pc bound registers failed =>
    cases registers with
    | add unseen => exact absurd unseen seen
    | mod _ needs => cases needs.symm.trans spares
    | keep => exact absurd failed (Int.lt_irrefl 0)
  | queued _ _ _ tsk ctl links pc bound registers ok inserted =>
    constructor
    · cases registers with
      | add unseen => exact absurd unseen seen
      | mod _ needs => cases needs.symm.trans spares
      | keep => rfl
    · exact Function.update_self ..

/-- A call that comes to its wait loop has its event in the entry exactly if, where it leaves the
entry to the record, the descriptor has been added and not closed since. -/
theorem backed_iff (inv : Integrity s) (masked : Masked s) (last : UsedBy user fd ⟨s, i, s'⟩)
    (enrolment : s.live user = true → ¬(s.pc user).exiting → Enrolment user fd past s)
    (taken : step s i = .ok s') : Backed fd ⟨s, i, s'⟩ ↔ Attended fd past ⟨s, i, s'⟩ := by
  -- what is known before the user's call
  have calls {call : Call} {granted : Bool} (input : i = .io call fd granted)
      (pc : s.pc s.current = .user) : Enrolment s.current fd past s := by
    have own : s.current = user := last call granted input
    rw [own]
    apply enrolment
    · rw [← own]
      exact inv.seated.alive
    · rw [← own, pc]
      exact id
  constructor
  · intro backed call relies
    obtain ⟨interest, there⟩ := relies.waits taken
    obtain ⟨⟨granted, input⟩, pc, _⟩ := relies
    obtain ⟨⟨entry, present, _⟩, _⟩ := backed call granted input there
    rw [show (_ : State).interest = s.interest from interest] at present
    exact (calls input pc).listed.mpr ⟨entry, present⟩
  · rintro attended call granted (input : i = _) there
    subst input
    obtain ⟨_, tsk, ctl, _, pc, registers, ok, _, interest, _⟩ := enters_of_pc taken there
    suffices covered : Covered s'.interest fd call.event from ⟨covered, covered.may⟩
    rw [interest]
    cases registers with
    | add =>
      rw [epollCtl_granted (.inl rfl) ok, covered_update_some]
      exact BitVec.and_self
    | mod =>
      rw [epollCtl_granted (.inr rfl) ok, covered_update_some]
      exact or_and_left _ _
    | keep seen spares =>
      have enrolment := calls rfl pc
      obtain ⟨entry, present⟩ := enrolment.listed.mp
        (attended call ⟨⟨granted, rfl⟩, pc, seen, spares⟩)
      have mask := masked s.current fd inv.seated.alive seen
      have input : call.event = epollIn := by
        cases call with
        | write => exact absurd rfl (mask.spares_iff.mp spares).2
        | _ => rfl
      rcases enrolment.contains entry present with contains | starved
      · exact ⟨entry, present, by rw [input]; exact contains⟩
      · have waits := starved.waits
        rw [pc] at waits
        cases waits

/-- A coroutine reads twice from descriptor 3, which is closed and opened again in between or
not. -/
def readTwice (reused : Bool) : List Input :=
  [.create none, .eventloop, .ready (some []), .pick 1, .io .read 3 true, .ctl true, .pick 1,
    .ready (some [(3, epollIn)]), .run, .run, .pick 1, .ctl true, .run] ++
  (if reused then [.close 3] else []) ++ [.io .read 3 true]

end LibcoLite
