import LibcoLite.Interest

/-!
# Failed waits

When `epoll_ctl` fails, a blocking call returns from `add_queue` at once. By then the status
is `COROUTINE_WAIT`, the awaited bit is cleared, and the record of the descriptor has been
made or widened; none of it is taken back. Only the queues, which are changed last, are left
alone.
-/

namespace LibcoLite

/-- A call on a descriptor leaves the current task and the queues as they were. -/
structure AsItWas (s s' : State) (fd : Nat) : Prop where
  /-- The status. -/
  status : (s'.tasks s.current).status = (s.tasks s.current).status
  /-- The number of recorded descriptors. -/
  fdsIdx : (s'.tasks s.current).fdsIdx = (s.tasks s.current).fdsIdx
  /-- The recorded descriptors. -/
  fds : (s'.tasks s.current).fds = (s.tasks s.current).fds
  /-- The record of the descriptor. -/
  events : (s'.tasks s.current).events fd = (s.tasks s.current).events fd
  /-- The received bits. -/
  revents : (s'.tasks s.current).revents fd = (s.tasks s.current).revents fd
  /-- Every block queue. -/
  queues : s'.links = s.links

/-- A call that fails has nothing to undo. -/
structure NothingToUndo (s : State) (fd : Nat) (events : Mask) : Prop where
  /-- An earlier call that failed has left the status. -/
  status : (s.tasks s.current).status = .wait
  /-- The descriptor is recorded. -/
  seen : ((s.tasks s.current).events fd).dataFd ≠ 0
  /-- The record contains the awaited bit. -/
  contains : ((s.tasks s.current).events fd).events &&& events = events
  /-- The awaited bit is clear. -/
  clear : (s.tasks s.current).revents fd &&& events = 0

/-- Joining bits changes a mask unless it contains them. -/
theorem or_eq_left_iff {mask bits : Mask} : mask ||| bits = mask ↔ mask &&& bits = bits := by
  constructor
  · intro same
    rw [← same, BitVec.or_comm]
    exact or_and_left bits mask
  · intro contains
    ext i inside
    have bit : (mask &&& bits)[i] = bits[i] := by rw [contains]
    rw [BitVec.getElem_and] at bit
    rw [BitVec.getElem_or, ← bit]
    cases mask[i] <;> simp

/-- Clearing bits changes a mask unless they are clear. -/
theorem and_not_eq_left_iff {mask bits : Mask} : mask &&& ~~~bits = mask ↔ mask &&& bits = 0 := by
  constructor
  · intro same
    rw [← same, BitVec.and_assoc, BitVec.and_comm (~~~bits), BitVec.and_not_self]
    exact BitVec.and_zero
  · intro clear
    ext i inside
    have bit : (mask &&& bits)[i] = (0 : Mask)[i] := by rw [clear]
    simp at bit ⊢
    exact bit

variable {s s' : State} {call : Call} {fd : Nat} {granted : Bool}

/-- A failing call has registered nothing and queued nothing. -/
theorem step_refused (taken : step s (.io call fd granted) = .ok s')
    (failed : s'.pc s.current = .user) :
    ∃ tsk ctl, Registers fd call.event granted s tsk ctl ∧ ctl.2 < 0 ∧
      s'.tasks s.current = tsk ∧ s'.links = s.links ∧ s'.interest = s.interest := by
  obtain ⟨_, kind⟩ := step_cases taken
  cases kind with
  | refused _ _ _ tsk ctl pc bound registers negative =>
    refine ⟨tsk, ctl, registers, negative, Function.update_self .., rfl, ?_⟩
    cases registers with
    | add => exact epollCtl_failed negative
    | mod => exact epollCtl_failed negative
    | keep => rfl
  | queued _ _ _ tsk ctl links =>
    simp [State.goto, State.registered] at failed

/-- A registration that fails leaves the task as it was exactly when there was nothing to
undo. -/
theorem asItWas_iff {tsk : TaskStruct} {ctl : (Nat → Option EpollEvent) × Int}
    (registers : Registers fd call.event granted s tsk ctl) (negative : ctl.2 < 0)
    (block : s'.tasks s.current = tsk) (links : s'.links = s.links) :
    AsItWas s s' fd ↔ NothingToUndo s fd call.event := by
  have waits : (s'.tasks s.current).status = .wait := by
    rw [block]
    exact registers.lacks.1
  constructor
  · intro same
    have status := same.status
    rw [waits] at status
    cases registers with
    | add unseen room =>
      have more := same.fdsIdx
      rw [block] at more
      simp [TaskStruct.record, TaskStruct.await] at more
    | mod seen needs =>
      have events := same.events
      have revents := same.revents
      rw [block] at events revents
      simp only [TaskStruct.widen, TaskStruct.await, Function.update_self] at events revents
      constructor
      · exact status.symm
      · exact seen
      · exact or_eq_left_iff.mp (congrArg EpollEvent.events events)
      · exact and_not_eq_left_iff.mp revents
    | keep => exact absurd negative (Int.lt_irrefl 0)
  · intro nothing
    cases registers with
    | add unseen => exact absurd unseen nothing.seen
    | mod seen needs =>
      constructor
      · rw [waits, nothing.status]
      · rw [block]
        rfl
      · rw [block]
        rfl
      · rw [block]
        simp [TaskStruct.widen, TaskStruct.await, or_eq_left_iff.mpr nothing.contains]
      · rw [block]
        simp [TaskStruct.widen, TaskStruct.await, and_not_eq_left_iff.mpr nothing.clear]
      · exact links
    | keep => exact absurd negative (Int.lt_irrefl 0)

/-- A blocking call that fails in `add_queue` always leaves the status `COROUTINE_WAIT`, which
is not schedulable; and it leaves the task as it was exactly when there was nothing to undo. -/
theorem failed_wait_is_not_undone (taken : step s (.io call fd granted) = .ok s')
    (failed : s'.pc s.current = .user) :
    ¬(AsItWas s s' fd ∧ (s'.tasks s.current).status = .running) ∧
      (AsItWas s s' fd ↔ NothingToUndo s fd call.event) := by
  obtain ⟨tsk, ctl, registers, negative, block, links, _⟩ := step_refused taken failed
  constructor
  · rintro ⟨_, running⟩
    have waits := registers.lacks.1
    rw [← block, running] at waits
    cases waits
  · exact asItWas_iff registers negative block links

/-- The first library call of a thread is a read from a descriptor that epoll refuses. -/
def refusedRead : List Input := [.io .read 3 false]

theorem taken_refusedRead :
    step (State.init 0 ticking) (.io .read 3 false) = .ok (replay 1 refusedRead) := rfl

/-- The refused read changes the task. -/
theorem failed_wait_is_not_undone_refusedRead :
    ¬(AsItWas (State.init 0 ticking) (replay 1 refusedRead) 3 ∧
      ((replay 1 refusedRead).tasks initTask).status = .running) :=
  (failed_wait_is_not_undone taken_refusedRead rfl).1

/-- Not every failed wait leaves the coroutine as it was. -/
theorem failed_wait_is_not_undone_fails : ¬∀ (past : History) (s s' : State) (call : Call)
    (fd : Nat) (granted : Bool), ThreadRun 0 ticking past s → 0 < fd → fd < maxFd →
      step s (.io call fd granted) = .ok s' → s'.pc s.current = .user →
      AsItWas s s' fd ∧ (s'.tasks s.current).status = .running := by
  intro leftAsItWas
  have undone := leftAsItWas [] (State.init 0 ticking) (replay 1 refusedRead) .read 3 false .start
    (by decide) (by decide) taken_refusedRead rfl
  have more : ((replay 1 refusedRead).tasks initTask).fdsIdx = 1 := by decide
  cases more.symm.trans undone.1.fdsIdx

end LibcoLite
