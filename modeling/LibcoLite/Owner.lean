import LibcoLite.Exit
import LibcoLite.Records

/-!
# Descriptors used by one coroutine

While each descriptor is passed to blocking calls by one coroutine only, its queue is empty
or holds that coroutine alone. No task has a successor, back links point to heads of the
task's own descriptors, and only the queues of exited owners lose their cached ends. So all
steps are orderly, and whether an event finds a waiting task depends only on whether its
owner has been queued since the last event for the descriptor.
-/

namespace LibcoLite

open TailQueue
open Transition (Along Move)

/-- Descriptors passed to blocking calls are in range and used by their owner. -/
def Owned (owner : Nat → TaskPtr) (move : Move State Input) : Prop :=
  ∀ fd ∈ move.input.descriptor, 0 < fd ∧ fd < maxFd ∧ owner fd = move.before.current

instance (owner : Nat → TaskPtr) (move : Move State Input) : Decidable (Owned owner move) :=
  inferInstanceAs (Decidable (∀ fd ∈ move.input.descriptor,
    0 < fd ∧ fd < maxFd ∧ owner fd = move.before.current))

/-- A task records only descriptors it passes to blocking calls. -/
theorem step_recorded {s s' : State} {i : Input} (inv : Integrity s)
    (taken : step s i = .ok s') {p : TaskPtr} (alive : s'.live p = true) {k : Nat}
    (recorded : k < (s'.tasks p).fdsIdx) :
    s.live p = true ∧ k < (s.tasks p).fdsIdx ∧ (s'.tasks p).fds k = (s.tasks p).fds k ∨
      p = s.current ∧ (s'.tasks p).fds k ∈ i.descriptor := by
  cases before : s.live p with
  | false =>
    obtain ⟨_, none, _⟩ := step_new inv taken alive before
    rw [none] at recorded
    contradiction
  | true =>
    -- a change of the current block that records nothing
    have changed {tsk : TaskStruct} (tasks : s'.tasks = Function.update s.tasks s.current tsk)
        (fewer : tsk.fdsIdx ≤ (s.tasks s.current).fdsIdx)
        (fds : tsk.fds = (s.tasks s.current).fds) :
        k < (s.tasks p).fdsIdx ∧ (s'.tasks p).fds k = (s.tasks p).fds k := by
      rw [tasks] at recorded ⊢
      by_cases own : p = s.current
      · subst own
        rw [Function.update_self] at recorded ⊢
        exact ⟨Nat.lt_of_lt_of_le recorded fewer, congrFun fds k⟩
      · rw [Function.update_of_ne own] at recorded ⊢
        exact ⟨recorded, rfl⟩
    cases step_records inv taken with
    | keeps _ _ _ _ same =>
      obtain ⟨_, fds, idx⟩ := same p before
      exact .inl ⟨rfl, idx ▸ recorded, congrFun fds k⟩
    | registers call fd granted _ tsk ctl _ _ registers tasks =>
      cases registers with
      | add =>
        rw [tasks] at recorded ⊢
        by_cases own : p = s.current
        · subst own
          rw [Function.update_self] at recorded ⊢
          by_cases new : k = (s.tasks s.current).fdsIdx
          · subst new
            right
            refine ⟨rfl, ?_⟩
            simp [TaskStruct.record, TaskStruct.await, Input.descriptor]
          · left
            refine ⟨rfl, ?_, Function.update_of_ne new _ _⟩
            simp only [TaskStruct.record, TaskStruct.await] at recorded
            omega
        · rw [Function.update_of_ne own] at recorded ⊢
          exact .inl ⟨rfl, recorded, rfl⟩
      | mod => exact .inl ⟨rfl, changed tasks (Nat.le_refl _) rfl⟩
      | keep => exact .inl ⟨rfl, changed tasks (Nat.le_refl _) rfl⟩
    | narrows fd granted _ _ _ tasks => exact .inl ⟨rfl, changed tasks (Nat.le_refl _) rfl⟩
    | releases _ _ _ tasks => exact .inl ⟨rfl, changed tasks (Nat.sub_le _ _) rfl⟩
    | closes fd _ tasks =>
      rw [tasks] at recorded ⊢
      exact .inl ⟨rfl, recorded, rfl⟩

/-- A task has exited or been freed since. -/
def Gone (s : State) (p : TaskPtr) : Prop := p < s.fresh ∧ (s.tasks p).status = .exit

/-- The queues and link fields of descriptors with single owners. -/
structure Sole (owner : Nat → TaskPtr) (queue : Nat → List TaskPtr) (s : State) : Prop where
  /-- Only the owner waits on a descriptor. -/
  owned : ∀ fd p, p ∈ queue fd → owner fd = p
  /-- No task has a successor. -/
  next : ∀ p, s.links.next p = none
  /-- Back links point to heads of the task's own descriptors. -/
  back : ∀ p cell, s.links.prev p = some cell → ∃ head, cell = .first head ∧ owner head = p
  /-- While the owner has not exited, the cached end of its queue is true. -/
  last : ∀ fd, ¬Gone s (owner fd) →
    s.links.last fd = some (endCell (.first fd) (queue fd))
  /-- A task records its own descriptors only. -/
  recorded : ∀ p, s.live p = true → ∀ k < (s.tasks p).fdsIdx, owner ((s.tasks p).fds k) = p

namespace Sole

variable {owner : Nat → TaskPtr} {queue : Nat → List TaskPtr} {s s' : State}

/-- At the start of a thread no descriptor is used. -/
theorem init (self : EnvPtr) (clock : Nat → Nat) :
    Sole owner (fun _ => []) (State.init self clock) where
  owned := by simp
  next _ := rfl
  back _ _ := by simp [TailQueue.Links.init, State.init]
  last _ _ := rfl
  recorded p alive k recorded := by
    by_cases root : p = initTask
    · subst root; exact absurd recorded (Nat.not_lt_zero k)
    · simp [State.init, Function.update_of_ne root] at alive

/-- A queue that does not hold its owner is empty. -/
theorem empty (sole : Sole owner queue s) {fd : Nat} (absent : owner fd ∉ queue fd) :
    queue fd = [] := by
  refine List.eq_nil_iff_forall_not_mem.mpr fun p member => absent ?_
  rw [sole.owned fd p member]
  exact member

/-- Behind the owner nobody waits. -/
theorem alone (sole : Sole owner queue s) (queueing : Queueing queue s) {fd : Nat} {p : TaskPtr}
    {behind : List TaskPtr} (shape : queue fd = p :: behind) : behind = [] := by
  have nodup := queueing.spells.nodup fd
  refine List.eq_nil_iff_forall_not_mem.mpr fun q member => ?_
  have first := sole.owned fd p (shape ▸ List.mem_cons_self)
  have second := sole.owned fd q (shape ▸ List.mem_cons_of_mem _ member)
  rw [shape] at nodup
  exact (List.nodup_cons.mp nodup).1 (first.symm.trans second ▸ member)

/-- A step of a thread whose descriptors have single owners is orderly. -/
theorem orderly (sole : Sole owner queue s) {i : Input} (inv : Integrity s)
    (queueing : Queueing queue s) (owned : Owned owner ⟨s, i, s'⟩) : Orderly s i where
  releases _ after next := by
    cases (sole.next s.current).symm.trans next
  appends fd appends := by
    obtain ⟨call, granted, _, _, rfl, pc, _⟩ := appends
    obtain ⟨_, _, own⟩ := owned fd rfl
    refine ⟨queue fd, queueing.spells.chain fd, sole.last fd fun gone => ?_⟩
    rw [own] at gone
    exact inv.current_status (by rw [pc]; exact id) gone.2

/-- A finishing task clears a queue that is empty. -/
theorem clears (sole : Sole owner queue s) (queueing : Queueing queue s)
    (releases : Releases s .run) {head : Nat}
    (prev : s.links.prev s.current = some (.first head)) :
    Function.update queue head [] = queue := by
  obtain ⟨_, same, own⟩ := sole.back s.current _ prev
  obtain rfl := Link.first.inj same
  have free := queueing.outside (p := s.current) (by rw [releases.2.1]; rfl) head
  exact Function.update_eq_self_iff.mpr (sole.empty (own ▸ free)).symm

/-- Steps keep the descriptors with their owners. -/
theorem step (sole : Sole owner queue s) {i : Input} {queue' : Nat → List TaskPtr}
    (inv : Integrity s) (ended : Ended s) (queueing : Queueing queue s)
    (owned : Owned owner ⟨s, i, s'⟩) (taken : LibcoLite.step s i = .ok s')
    (changed : QueueStep queue s i s' queue') : Sole owner queue' s' := by
  -- owners that have not exited after the step had not exited before
  have earlier {fd : Nat} (remains : ¬Gone s' (owner fd)) : ¬Gone s (owner fd) := by
    rintro ⟨used, exited⟩
    exact remains ⟨Nat.lt_of_lt_of_le used (step_fresh inv taken),
      step_stays_exited inv queueing taken used exited⟩
  have recorded : ∀ p, s'.live p = true → ∀ k < (s'.tasks p).fdsIdx,
      owner ((s'.tasks p).fds k) = p := by
    intro p alive k small
    rcases step_recorded inv taken alive small with ⟨before, below, same⟩ | ⟨rfl, new⟩
    · rw [same]
      exact sole.recorded p before k below
    · exact (owned _ new).2.2
  cases changed with
  | keeps last fields out called =>
    refine ⟨sole.owned, fun p => ?_, fun p cell prev => ?_, fun fd remains => ?_, recorded⟩
    · rcases fields p with ⟨next, _⟩ | ⟨next, _⟩
      · exact next.trans (sole.next p)
      · exact next
    · rcases fields p with ⟨_, same⟩ | ⟨_, none⟩
      · exact sole.back p cell (same.symm.trans prev)
      · cases none.symm.trans prev
    · rw [last]
      exact sole.last fd (earlier remains)
  | appends call fd granted appends blocked free ends last zeroed next prev =>
    obtain ⟨_, _, own⟩ := owned fd rfl
    have none : queue fd = [] := sole.empty (by rw [own]; exact free fd)
    rw [none] at ends next ⊢
    refine ⟨fun other p member => ?_, fun p => ?_, fun p cell known => ?_, fun other remains => ?_,
      recorded⟩
    · by_cases here : other = fd
      · subst here
        rw [Function.update_self] at member
        exact own.trans (List.mem_singleton.mp member).symm
      · rw [Function.update_of_ne here] at member
        exact sole.owned other p member
    · by_cases new : p = s.current
      · rw [new, zeroed]
      · exact (next p List.not_mem_nil new).trans (sole.next p)
    · rw [prev] at known
      split at known
      · rename_i new
        rw [ends] at known
        exact ⟨fd, (Option.some.inj known).symm, own.trans new.symm⟩
      · exact sole.back p cell known
    · rw [last]
      by_cases here : other = fd
      · subst here; simp [endCell]
      · simpa [Function.update_of_ne here] using sole.last other (earlier remains)
  | removes ev rest p behind pc shape last next prev =>
    obtain rfl := sole.alone queueing shape
    refine ⟨fun fd q member => ?_, fun q => ?_, fun q cell known => ?_, fun fd remains => ?_,
      recorded⟩
    · by_cases here : fd = ev.dataFd
      · subst here; simp at member
      · rw [Function.update_of_ne here] at member
        exact sole.owned fd q member
    · rw [next]
      exact sole.next q
    · exact sole.back q cell ((prev q List.not_mem_nil).symm.trans known)
    · rw [last]
      by_cases here : fd = ev.dataFd
      · subst here; simp [endCell]
      · simpa [Function.update_of_ne here] using sole.last fd (earlier remains)
  | clears head releases next prev links =>
    rw [sole.clears queueing releases prev]
    refine ⟨sole.owned, fun p => ?_, fun p cell known => ?_, fun fd remains => ?_, recorded⟩
    · rw [links]; exact sole.next p
    · rw [links] at known; exact sole.back p cell known
    · -- the descriptor taken back belongs to the current task, which has exited
      have other : fd ≠ (s.tasks s.current).lastFd := by
        rintro rfl
        have alive := inv.seated.alive
        have own := sole.recorded s.current alive ((s.tasks s.current).fdsIdx - 1)
          (Nat.sub_lt releases.2.2 Nat.one_pos)
        refine earlier remains ?_
        rw [TaskStruct.lastFd, own]
        exact ⟨inv.used _ alive, ended.exited _ alive (by rw [releases.2.1]; trivial)⟩
      rw [links]
      exact (Function.update_of_ne other _ _).trans (sole.last fd (earlier remains))
  | cuts head first rest after releases next prev shape links =>
    cases (sole.next s.current).symm.trans next

end Sole

end LibcoLite
