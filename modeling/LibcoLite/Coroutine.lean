import LibcoLite.Lib.Run
import LibcoLite.Epoll

/-!
# Creation, exit and joining

The functions of `coroutine.c` on the environment of one thread. A coroutine exits through
`start`, which marks it, then takes back one recorded descriptor after the other; `co_join`
polls the status of a slot and reclaims the task once it has exited.
-/

namespace LibcoLite

/-- `calloc` of one task block: a block that was never used, with zeroed fields. -/
def State.calloc (s : State) : State :=
  { s with
    tasks := Function.update s.tasks s.fresh .calloc
    links := { s.links with
      next := Function.update s.links.next s.fresh none
      prev := Function.update s.links.prev s.fresh none }
    live := Function.update s.live s.fresh true
    fresh := s.fresh + 1 }

/-- `free` of a task block. -/
def State.free (s : State) (tsk : TaskPtr) : State :=
  { s with live := Function.update s.live tsk false }

/-- The search loop of `co_create`: the first slot from `id` on that is free, or the slot
behind the given number of slots. -/
def firstFree (task : Nat → Option TaskPtr) : Nat → Nat → Nat
  | 0, id => id
  | slots + 1, id => if task id ≠ none then firstFree task slots (id + 1) else id

/-- `co_create` with the variable its pointer `cid` points to, if there is one: the state,
the returned value and the variable after the call. -/
def coCreate (cid : Option Int) (s : State) : State × Int × Option Int :=
  let id := firstFree s.task nrTasks 0
  if id = nrTasks then (s, -1, cid)
  else
    let tsk := s.fresh
    let s := s.calloc
    let s := { s with
      task := Function.update s.task id (some tsk)
      taskCount := s.taskCount + 1
      pc := Function.update s.pc tsk .user }
    let s := s.modify tsk fun block =>
      { block with
        id := id
        threadEnv := some s.self
        wakeuptime := 0
        status := .running
        fdsIdx := 0 }
    (s, 0, cid.map fun _ => (id : Int))

/-- `task[cid]`, dereferenced by `co_join`. -/
def taskAt (cid : Nat) (s : State) : Except Stop TaskPtr :=
  if cid < nrTasks then
    match s.task cid with
    | some p => .ok p
    | none => .error (.fault .null)
  else .error .bounds

/-- One test of the loop of `co_join`; behind the loop the task is freed, its slot cleared
and the count decremented. Tells whether the loop has ended. -/
def coJoin (cid : Nat) (s : State) : Except Stop (State × Bool) := do
  let p ← taskAt cid s
  let tsk ← s.deref p
  if tsk.status ≠ .exit then .ok (s, false)
  else
    .ok ({ s.free p with
      task := Function.update s.task cid none
      taskCount := s.taskCount - 1 }, true)

/-- `start` behind the call of `co_fn`: the task is marked as exited. -/
def startExit (s : State) : State :=
  s.modify s.current fun tsk => { tsk with status := .exit }

/-- One pass of the clean-up loop of `start`: the last recorded descriptor is taken back,
deleted from the interest list, and the task removed from its queue. Tells whether there
was a descriptor left. -/
def startCleanup (s : State) : Except Stop (State × Bool) :=
  let tsk := s.tasks s.current
  if tsk.fdsIdx > 0 then do
    let fd := tsk.fds (tsk.fdsIdx - 1)
    let s := s.modify s.current fun tsk => { tsk with fdsIdx := tsk.fdsIdx - 1 }
    let s := { s with interest := (epollCtl true .del fd s.interest).1 }
    let s ← s.relink (s.links.remove s.live fd s.current)
    .ok (s, true)
  else .ok (s, false)

/-! ## The slot `co_create` takes -/

/-- The search passes occupied slots only and stops at a free slot or behind the last. -/
theorem firstFree_spec (task : Nat → Option TaskPtr) (slots id : Nat) :
    id ≤ firstFree task slots id ∧ firstFree task slots id ≤ id + slots ∧
      (∀ k, id ≤ k → k < firstFree task slots id → task k ≠ none) ∧
      (firstFree task slots id < id + slots → task (firstFree task slots id) = none) := by
  induction slots generalizing id with
  | zero =>
    refine ⟨Nat.le_refl _, Nat.le_refl _, fun k low high => ?_, fun high => ?_⟩
    · exact absurd high (Nat.not_lt.mpr low)
    · exact absurd high (Nat.lt_irrefl _)
  | succ slots ih =>
    unfold firstFree
    split
    · rename_i taken
      obtain ⟨low, high, passed, stops⟩ := ih (id + 1)
      refine ⟨by omega, by omega, fun k from_ below => ?_, fun below => stops (by omega)⟩
      by_cases first : k = id
      · rw [first]; exact taken
      · exact passed k (by omega) below
    · rename_i free
      refine ⟨Nat.le_refl _, by omega, fun k low high => ?_, fun _ => by simpa using free⟩
      exact absurd high (Nat.not_lt.mpr low)

/-! ## What joining and cleaning up do -/

open Transition (bind_eq_ok)

/-- A test of the joined task finds it live in its slot; it is reclaimed if it has exited. -/
theorem coJoin_cases {cid : Nat} {s s' : State} {ended : Bool}
    (done : coJoin cid s = .ok (s', ended)) :
    ∃ p, cid < nrTasks ∧ s.task cid = some p ∧ s.live p = true ∧
      (((s.tasks p).status ≠ .exit ∧ ended = false ∧ s' = s) ∨
        ((s.tasks p).status = .exit ∧ ended = true ∧
          s' = { s.free p with
            task := Function.update s.task cid none
            taskCount := s.taskCount - 1 })) := by
  unfold coJoin at done
  obtain ⟨p, found, done⟩ := bind_eq_ok.mp done
  obtain ⟨tsk, accessed, done⟩ := bind_eq_ok.mp done
  obtain ⟨alive, rfl⟩ := State.deref_ok.mp accessed
  unfold taskAt at found
  split at found
  · rename_i bound
    cases slot : s.task cid with
    | none => simp [slot] at found
    | some q =>
      simp only [slot, Except.ok.injEq] at found
      subst found
      refine ⟨q, bound, rfl, alive, ?_⟩
      split at done
      · rename_i more
        obtain ⟨rfl, rfl⟩ := Prod.mk.inj (Except.ok.inj done)
        exact .inl ⟨more, rfl, rfl⟩
      · rename_i exited
        obtain ⟨rfl, rfl⟩ := Prod.mk.inj (Except.ok.inj done)
        exact .inr ⟨by simpa using exited, rfl, rfl⟩
  · contradiction

/-- The descriptor the next pass of the clean-up loop takes back. -/
def TaskStruct.lastFd (tsk : TaskStruct) : Nat := tsk.fds (tsk.fdsIdx - 1)

/-- A pass of the clean-up loop takes back the last recorded descriptor, if there is one. -/
theorem startCleanup_cases {s s' : State} {again : Bool}
    (done : startCleanup s = .ok (s', again)) :
    (0 < (s.tasks s.current).fdsIdx ∧ again = true ∧ ∃ links,
      s.links.remove s.live (s.tasks s.current).lastFd s.current = .ok links ∧
      s' = { s with
        links
        tasks := Function.update s.tasks s.current
          { s.tasks s.current with fdsIdx := (s.tasks s.current).fdsIdx - 1 }
        interest := Function.update s.interest (s.tasks s.current).lastFd none }) ∨
      ((s.tasks s.current).fdsIdx = 0 ∧ again = false ∧ s' = s) := by
  unfold startCleanup at done
  dsimp only at done
  split at done
  · rename_i more
    obtain ⟨after, linked, done⟩ := bind_eq_ok.mp done
    obtain ⟨rfl, rfl⟩ := Prod.mk.inj (Except.ok.inj done)
    simp only [State.modify, epollCtl_del] at linked
    cases removed : s.links.remove s.live (s.tasks s.current).lastFd s.current with
    | error fault =>
      simp [State.relink, TaskStruct.lastFd] at linked removed
      simp [removed] at linked
    | ok links =>
      refine .inl ⟨more, rfl, links, rfl, ?_⟩
      simp only [TaskStruct.lastFd] at removed
      simp only [State.relink, removed, Except.ok.injEq] at linked
      exact linked.symm
  · rename_i none
    obtain ⟨rfl, rfl⟩ := Prod.mk.inj (Except.ok.inj done)
    exact .inr ⟨by omega, rfl, rfl⟩

/-- A created task: a fresh block in the lowest free slot, ready to run its own code. -/
theorem coCreate_cases (cid : Option Int) (s : State) :
    (∃ id < nrTasks, s.task id = none ∧ (∀ k < id, s.task k ≠ none) ∧
      coCreate cid s = ({ s with
        task := Function.update s.task id (some s.fresh)
        taskCount := s.taskCount + 1
        tasks := Function.update s.tasks s.fresh
          { TaskStruct.calloc with id, threadEnv := some s.self }
        links := { s.links with
          next := Function.update s.links.next s.fresh none
          prev := Function.update s.links.prev s.fresh none }
        live := Function.update s.live s.fresh true
        fresh := s.fresh + 1
        pc := Function.update s.pc s.fresh .user }, 0, cid.map fun _ => (id : Int))) ∨
      (∀ k < nrTasks, s.task k ≠ none) ∧ coCreate cid s = (s, -1, cid) := by
  obtain ⟨_, high, passed, stops⟩ := firstFree_spec s.task nrTasks 0
  unfold coCreate
  by_cases full : firstFree s.task nrTasks 0 = nrTasks
  · exact .inr ⟨fun k bound => passed k (Nat.zero_le _) (by omega), by simp [full]⟩
  · refine .inl ⟨firstFree s.task nrTasks 0, by omega, stops (by omega),
      fun k below => passed k (Nat.zero_le _) below, ?_⟩
    simp [full, State.calloc, State.modify, TaskStruct.calloc]

/-- Creating a task leaves every block but the fresh one. -/
theorem coCreate_other (cid : Option Int) {s : State} {p : TaskPtr} (old : p ≠ s.fresh) :
    (coCreate cid s).1.live p = s.live p ∧ (coCreate cid s).1.pc p = s.pc p ∧
      (coCreate cid s).1.tasks p = s.tasks p := by
  rcases coCreate_cases cid s with ⟨_, _, _, _, made⟩ | ⟨_, made⟩
  · rw [made]
    exact ⟨Function.update_of_ne old _ _, Function.update_of_ne old _ _,
      Function.update_of_ne old _ _⟩
  · rw [made]
    exact ⟨rfl, rfl, rfl⟩

/-- A task that is live behind `co_create` was live before, and is as it was, or it is the fresh
block. -/
theorem coCreate_alive {cid : Option Int} {s : State} {p : TaskPtr}
    (alive : (coCreate cid s).1.live p = true) :
    s.live p = true ∧ (coCreate cid s).1.pc p = s.pc p ∧
        (coCreate cid s).1.tasks p = s.tasks p ∨
      p = s.fresh ∧ (coCreate cid s).1.pc p = .user ∧ ∃ id,
        (coCreate cid s).1.tasks p = { TaskStruct.calloc with id, threadEnv := some s.self } := by
  by_cases new : p = s.fresh
  · rcases coCreate_cases cid s with ⟨id, _, _, _, made⟩ | ⟨_, made⟩
    · right
      rw [made]
      subst new
      exact ⟨rfl, Function.update_self .., id, Function.update_self ..⟩
    · left
      rw [made] at alive ⊢
      exact ⟨alive, rfl, rfl⟩
  · obtain ⟨live, pc, tasks⟩ := coCreate_other cid new
    exact .inl ⟨live ▸ alive, pc, tasks⟩

end LibcoLite
