import LibcoLite.Records
import LibcoLite.Replay

/-!
# Registrations have holders

A task records a descriptor before it tries to add it, so a failure leaves a record without
an entry but never an entry without a record. An exiting task deletes each entry as it takes
back the record, whether or not other tasks hold the descriptor as well. So every entry of
the interest list has a holder that has not finished its clean-up.
-/

namespace LibcoLite

/-- The control points behind the clean-up of an exiting task. -/
def Pc.cleaned : Pc → Prop
  | .finished => True
  | .schedule behind => behind.cleaned
  | _ => False

/-- A live task that has not finished its clean-up has a descriptor among `fds[0 .. fds_idx)`. -/
structure Holds (s : State) (p : TaskPtr) (fd : Nat) : Prop where
  /-- The task has not been reclaimed. -/
  alive : s.live p = true
  /-- It has not finished its clean-up. -/
  busy : ¬(s.pc p).cleaned
  /-- It has recorded the descriptor. -/
  recorded : ∃ k < (s.tasks p).fdsIdx, (s.tasks p).fds k = fd

variable {s s' : State} {i : Input} {p : TaskPtr} {fd : Nat}

/-- A modification succeeds for a present descriptor only. -/
theorem epollCtl_mod_present {granted : Bool} {event : EpollEvent}
    {interest : Nat → Option EpollEvent}
    (succeeded : ¬(epollCtl granted (.mod event) fd interest).2 < 0) :
    ∃ entry, interest fd = some entry := by
  cases present : interest fd with
  | none => exact absurd (by simp [epollCtl, present]) succeeded
  | some entry => exact ⟨entry, rfl⟩

/-- A step changes the records of the current task only. -/
theorem RecordStep.others (change : RecordStep s i s') (alive : s.live p = true)
    (away : p ≠ s.current) : (s'.tasks p).SameRecords (s.tasks p) := by
  have same {tsk : TaskStruct} (tasks : s'.tasks = Function.update s.tasks s.current tsk) :
      (s'.tasks p).SameRecords (s.tasks p) := by
    rw [tasks, Function.update_of_ne away]
    exact ⟨rfl, rfl, rfl⟩
  cases change with
  | keeps _ _ _ _ kept => exact kept p alive
  | registers _ _ _ _ _ _ _ _ _ tasks => exact same tasks
  | narrows _ _ _ _ _ tasks => exact same tasks
  | releases _ _ _ tasks => exact same tasks
  | closes _ _ tasks =>
    rw [tasks]
    exact ⟨rfl, rfl, rfl⟩

/-! ## Finished tasks -/

/-- A task that has finished its clean-up has no records left. -/
def Emptied (s : State) : Prop :=
  ∀ p, s.live p = true → (s.pc p).cleaned → (s.tasks p).fdsIdx = 0

/-- A step brings the current task behind its clean-up only without records. -/
theorem step_cleaned (inv : Integrity s) (taken : step s i = .ok s')
    (other : ∀ rounds, i ≠ .pick rounds) (there : (s'.pc s.current).cleaned) :
    (s'.tasks s.current).fdsIdx = 0 := by
  have moved {here : Pc} (pc : s'.pc = Function.update s.pc s.current here) : here.cleaned := by
    rw [pc, Function.update_self] at there
    exact there
  obtain ⟨_, kind⟩ := step_cases taken
  cases kind with
  | create cid pc =>
    obtain ⟨_, same, _⟩ := coCreate_other cid (inv.notFresh inv.seated.alive)
    have there : ((coCreate cid s).1.pc s.current).cleaned := there
    rw [same, pc] at there
    exact there.elim
  | close fd pc =>
    rw [show (_ : State).pc = s.pc from rfl, pc] at there
    exact there.elim
  | released links pc =>
    rw [show (_ : State).pc = s.pc from rfl, pc] at there
    exact there.elim
  | cleaned pc none => exact none
  | scheduled behind rounds => exact absurd rfl (other rounds)
  | _ => exact (moved rfl).elim

/-- Every step keeps finished tasks without records. -/
theorem Emptied.step (emptied : Emptied s) (inv : Integrity s)
    (taken : LibcoLite.step s i = .ok s') : Emptied s' := by
  intro p alive behind
  have change := step_records inv taken
  rcases i.switches with ⟨rounds, rfl⟩ | other
  · obtain ⟨_, _, _, live, _⟩ := step_switch_frame inv taken
    rw [step_switch_pc Pc.cleaned (fun _ => rfl) inv taken] at behind
    cases change with
    | keeps _ _ _ _ same =>
      rw [(same p (live ▸ alive)).2.2]
      exact emptied p (live ▸ alive) behind
  · by_cases own : p = s.current
    · rw [own] at behind ⊢
      exact step_cleaned inv taken other behind
    · rcases step_others inv taken other own alive with ⟨_, user⟩ | ⟨before, same, _⟩
      · rw [user] at behind
        exact behind.elim
      · rw [(change.others before own).2.2]
        rw [same] at behind
        exact emptied p before behind

/-- In every reachable state finished tasks have no records left. -/
theorem emptied_of_run {self : EnvPtr} {clock : Nat → Nat} {past : History}
    (run : ThreadRun self clock past s) : Emptied s := by
  induction run with
  | start =>
    intro p alive behind
    exact behind.elim
  | move before taken ih => exact ih.step (integrity_of_run before) taken

/-! ## Holders -/

/-- A task with records is not reclaimed. -/
theorem step_keeps_live (inv : Integrity s) (suspended : Suspended s) (emptied : Emptied s)
    (taken : step s i = .ok s') (alive : s.live p = true) (some : 0 < (s.tasks p).fdsIdx) :
    s'.live p = true := by
  by_cases more : (s.tasks p).status ≠ .exit
  · exact step_live inv taken alive more
  have exited : (s.tasks p).status = .exit := Classical.byContradiction more
  have exiting := inv.exits p alive exited
  have own : p = s.current := by
    apply Classical.byContradiction
    intro away
    have rests := suspended.others p alive away
    have finished : (s.pc p).cleaned := by
      cases there : s.pc p with
      | finished => trivial
      | _ =>
        rw [there] at exiting rests
        first | exact exiting.elim | exact rests.elim
    have none := emptied p alive finished
    omega
  subst own
  rcases i.switches with ⟨rounds, rfl⟩ | other
  · obtain ⟨_, _, _, live, _⟩ := step_switch_frame inv taken
    rw [live]
    exact alive
  · rw [← (step_cases taken).2.current other]
    exact (inv.step taken).seated.alive

/-- Every entry of the interest list has a task that recorded the descriptor. -/
def Held (s : State) : Prop :=
  ∀ fd entry, s.interest fd = some entry → ∃ p, s.live p = true ∧
    ∃ k < (s.tasks p).fdsIdx, (s.tasks p).fds k = fd

/-- Registering keeps the recorded descriptors. -/
theorem Registers.recorded {events : Mask} {granted : Bool} {tsk : TaskStruct}
    {ctl : (Nat → Option EpollEvent) × Int} (registers : Registers fd events granted s tsk ctl)
    {k : Nat} (recorded : k < (s.tasks s.current).fdsIdx) :
    k < tsk.fdsIdx ∧ tsk.fds k = (s.tasks s.current).fds k := by
  cases registers with
  | add =>
    simp only [TaskStruct.record, TaskStruct.await]
    constructor
    · omega
    · exact Function.update_of_ne (by omega) _ _
  | mod => exact ⟨recorded, rfl⟩
  | keep => exact ⟨recorded, rfl⟩

/-- Registering leaves an entry only where there was one, or where it has recorded the
descriptor. -/
theorem Registers.held {events : Mask} {granted : Bool} {tsk : TaskStruct}
    {ctl : (Nat → Option EpollEvent) × Int} (registers : Registers fd events granted s tsk ctl)
    {fd' : Nat} {entry : EpollEvent} (present : ctl.1 fd' = some entry) :
    (∃ entry, s.interest fd' = some entry) ∨
      fd' = fd ∧ ∃ k < tsk.fdsIdx, tsk.fds k = fd := by
  cases registers with
  | add =>
    by_cases here : fd' = fd
    · right
      refine ⟨here, (s.tasks s.current).fdsIdx, Nat.lt_succ_self _, ?_⟩
      exact Function.update_self ..
    · rw [epollCtl_other here] at present
      exact .inl ⟨entry, present⟩
  | mod =>
    by_cases failed : (epollCtl granted (.mod ⟨events ||| (((s.tasks s.current).events fd).events
        ||| events), fd⟩) fd s.interest).2 < 0
    · rw [epollCtl_failed failed] at present
      exact .inl ⟨entry, present⟩
    · by_cases here : fd' = fd
      · rw [here]
        exact .inl (epollCtl_mod_present failed)
      · rw [epollCtl_other here] at present
        exact .inl ⟨entry, present⟩
  | keep => exact .inl ⟨entry, present⟩

/-- An entry that was there before is still held if the current task keeps its record of the
descriptor. -/
theorem Held.carried (held : Held s) (inv : Integrity s) (suspended : Suspended s)
    (emptied : Emptied s) (taken : step s i = .ok s') (change : RecordStep s i s')
    (old : ∃ entry, s.interest fd = some entry)
    (kept : ∀ k < (s.tasks s.current).fdsIdx, (s.tasks s.current).fds k = fd →
      ∃ j < (s'.tasks s.current).fdsIdx, (s'.tasks s.current).fds j = fd) :
    ∃ p, s'.live p = true ∧ ∃ k < (s'.tasks p).fdsIdx, (s'.tasks p).fds k = fd := by
  obtain ⟨entry, was⟩ := old
  obtain ⟨p, alive, k, small, recorded⟩ := held fd entry was
  refine ⟨p, step_keeps_live inv suspended emptied taken alive (by omega), ?_⟩
  by_cases own : p = s.current
  · subst own
    exact kept k small recorded
  · obtain ⟨_, fds, count⟩ := change.others alive own
    exact ⟨k, by rw [count]; exact small, by rw [fds]; exact recorded⟩

/-- Every step keeps the entries held. -/
theorem Held.step (held : Held s) (inv : Integrity s) (suspended : Suspended s)
    (emptied : Emptied s) (taken : LibcoLite.step s i = .ok s') : Held s' := by
  intro fd entry present
  have change := step_records inv taken
  have carried (old : ∃ entry, s.interest fd = some entry) :=
    held.carried inv suspended emptied taken change old
  have alive := inv.seated.alive
  cases change with
  | keeps _ _ _ interest same =>
    rw [interest] at present
    apply carried ⟨entry, present⟩
    intro k small recorded
    obtain ⟨_, fds, count⟩ := same s.current alive
    exact ⟨k, by rw [count]; exact small, by rw [fds]; exact recorded⟩
  | registers call fd' granted _ tsk ctl _ _ registers tasks interest pc =>
    rw [interest] at present
    have current : s'.tasks s.current = tsk := by
      rw [tasks, Function.update_self]
    rcases registers.held present with old | ⟨rfl, k, small, recorded⟩
    · apply carried old
      intro k small recorded
      obtain ⟨still, same⟩ := registers.recorded small
      rw [current]
      exact ⟨k, still, same.trans recorded⟩
    · refine ⟨s.current, ?_, k, ?_⟩
      · rw [← (step_cases taken).2.current (by simp)]
        exact (inv.step taken).seated.alive
      · rw [current]
        exact ⟨small, recorded⟩
  | narrows fd' granted _ pc _ tasks interest =>
    rw [interest] at present
    have current : s'.tasks s.current = (s.tasks s.current).narrow fd' := by
      rw [tasks, Function.update_self]
    apply carried
    · by_cases failed : (narrowing fd' granted s).2 < 0
      · rw [narrowing, epollCtl_failed failed] at present
        exact ⟨entry, present⟩
      · by_cases here : fd = fd'
        · rw [here]
          exact epollCtl_mod_present failed
        · rw [narrowing, epollCtl_other here] at present
          exact ⟨entry, present⟩
    · intro k small recorded
      rw [current]
      exact ⟨k, small, recorded⟩
  | releases _ pc more tasks interest =>
    rw [interest] at present
    have other : fd ≠ (s.tasks s.current).lastFd := by
      rintro rfl
      rw [Function.update_self] at present
      cases present
    rw [Function.update_of_ne other] at present
    apply carried ⟨entry, present⟩
    intro k small recorded
    rw [tasks, Function.update_self]
    have earlier : k ≠ (s.tasks s.current).fdsIdx - 1 := by
      rintro rfl
      exact other recorded.symm
    refine ⟨k, ?_, recorded⟩
    show k < (s.tasks s.current).fdsIdx - 1
    omega
  | closes fd' _ tasks interest =>
    rw [interest] at present
    have other : fd ≠ fd' := by
      rintro rfl
      rw [Function.update_self] at present
      cases present
    rw [Function.update_of_ne other] at present
    apply carried ⟨entry, present⟩
    intro k small recorded
    rw [tasks]
    exact ⟨k, small, recorded⟩

/-- In every reachable state the entries are held. -/
theorem held_of_run {self : EnvPtr} {clock : Nat → Nat} {past : History}
    (run : ThreadRun self clock past s) : Held s := by
  induction run with
  | start =>
    intro fd entry present
    cases present
  | move before taken ih =>
    exact ih.step (integrity_of_run before) (suspended_of_run before) (emptied_of_run before) taken

/-- In every reachable state each descriptor of the interest list is held by a task that has
not finished its clean-up; and a descriptor that no such task holds is not reported. -/
theorem no_orphaned_registrations {self : EnvPtr} {clock : Nat → Nat} {past : History}
    (run : ThreadRun self clock past s) :
    (∀ fd entry, s.interest fd = some entry → ∃ p, Holds s p fd) ∧
      ∀ fd, (∀ p, ¬Holds s p fd) → ∀ events, mayReport s.interest fd events = false := by
  have holders : ∀ fd entry, s.interest fd = some entry → ∃ p, Holds s p fd := by
    intro fd entry present
    obtain ⟨p, alive, k, small, recorded⟩ := held_of_run run fd entry present
    refine ⟨p, alive, ?_, k, small, recorded⟩
    intro finished
    have none := emptied_of_run run p alive finished
    omega
  refine ⟨holders, ?_⟩
  intro fd unused events
  apply Bool.eq_false_iff.mpr
  intro reported
  obtain ⟨entry, present⟩ := mayReport_registered reported
  obtain ⟨p, holds⟩ := holders fd entry present
  exact unused p holds

/-- Two coroutines read from one descriptor; the second one's attempt to add it fails. -/
def sharedRead : List Input :=
  [.create none, .create none, .eventloop, .ready (some []), .pick 1,
    .io .read 3 true, .ctl true, .pick 1, .io .read 3 true]

/-- The shared descriptor is held. -/
theorem no_orphaned_registrations_sharedRead : ∃ p, Holds (replay 3 sharedRead) p 3 :=
  (no_orphaned_registrations (run_of_replay 3 sharedRead (by decide) (by decide)
    (by decide +kernel))).1 3 ⟨epollIn, 3⟩ (by decide +kernel)

end LibcoLite
