import LibcoLite.Replay
import Mathlib.Data.List.Pairwise

/-!
# Joining

Every call of `co_join` that has not returned watches one task: the one its slot held when
the call was made. Slots are cleared by the only call that watches their task, so a slot
cannot pass to another task while a call watches it. A ledger of created and reclaimed
tasks accounts for the live tasks and for the count. So the table stays in order while slots
are reclaimed and used again.
-/

namespace LibcoLite

open Transition (Run Move)

/-- The slot of the `co_join` call a control point is in. -/
def Pc.joining : Pc → Option Nat
  | .join cid => some cid
  | .schedule behind => behind.joining
  | _ => none

/-- The task a move calls `co_join` for. -/
def joinTarget (move : Move State Input) : Option TaskPtr :=
  match move.input with
  | .join cid => move.before.task cid
  | _ => none

/-- Two moves do not call `co_join` for the same coroutine. -/
def JoinedApart (move other : Move State Input) : Prop :=
  ∀ p, p ≠ initTask → joinTarget move = some p → joinTarget other ≠ some p

instance : Std.Symm JoinedApart where
  symm _ _ apart p coroutine first second := apart p coroutine second first

/-- The task a move creates. -/
def createdBy (move : Move State Input) : Option TaskPtr :=
  if move.after.live move.before.fresh then some move.before.fresh else none

/-- The task a move of `co_join` reclaims. -/
def reclaimedBy (move : Move State Input) : Option TaskPtr :=
  match move.before.pc move.before.current, move.input with
  | .join cid, .run => if move.after.task cid = none then move.before.task cid else none
  | _, _ => none

/-- The tasks created along a history. -/
def creations (past : History) : List TaskPtr := past.filterMap createdBy

/-- The tasks reclaimed along a history. -/
def reclaims (past : History) : List TaskPtr := past.filterMap reclaimedBy

/-- A task called `co_join` for a slot that held a task at the call and after every move
since, while the call has not returned. -/
def Watches (past : History) (joiner : TaskPtr) (cid : Nat) (p : TaskPtr) : Prop :=
  ∃ later call earlier, past = later ++ call :: earlier ∧ call.input = .join cid ∧
    call.before.current = joiner ∧ call.before.task cid = some p ∧
    ∀ move ∈ later, move.before.task cid = some p ∧
      (move.before.pc joiner).joining = some cid

/-! ## What a step means for joining -/

/-- A task is in a call of `co_join` only if it was before, or has just called. -/
theorem step_joining {s s' : State} {i : Input} (inv : Integrity s)
    (taken : step s i = .ok s') {joiner : TaskPtr} {cid : Nat}
    (inside : (s'.pc joiner).joining = some cid) :
    (s.pc joiner).joining = some cid ∨
      i = .join cid ∧ joiner = s.current ∧ s' = s.goto (.join cid) := by
  obtain ⟨_, kind⟩ := step_cases taken
  -- only the control point of the current task is changed, to one inside `co_join` or not
  have moved {there : Pc} (changed : s'.pc = Function.update s.pc s.current there)
      (same : there.joining = some cid → (s.pc s.current).joining = some cid) :
      (s.pc joiner).joining = some cid := by
    by_cases own : joiner = s.current
    · subst own
      exact same (by simpa [changed] using inside)
    · simpa [changed, Function.update_of_ne own] using inside
  cases kind with
  | create cid' pc =>
    left
    rcases coCreate_cases cid' s with ⟨_, _, _, _, made⟩ | ⟨_, made⟩
    · rw [made] at inside
      by_cases new : joiner = s.fresh
      · subst new; simp [Pc.joining] at inside
      · simpa [Function.update_of_ne new] using inside
    · rw [made] at inside; exact inside
  | join cid' pc =>
    by_cases own : joiner = s.current
    · subst own
      obtain rfl : cid' = cid := by simpa [State.goto, Pc.joining] using inside
      exact .inr ⟨rfl, rfl, rfl⟩
    · exact .inl (by simpa [State.goto, Function.update_of_ne own] using inside)
  | close fd pc => exact .inl inside
  | released links pc more removed => exact .inl inside
  | joinAgain cid' p pc => exact .inl (moved rfl fun same => by rw [pc]; exact same)
  | scheduled behind rounds picked p pc found alive own =>
    refine .inl (moved (inv.picked pc found).woken.pc fun same => ?_)
    rw [pc]
    exact same
  | _ => exact .inl (moved rfl fun same => by cases same)

/-- A test of `co_join` finds its slot occupied. -/
theorem step_join {s s' : State} {i : Input} {cid : Nat} (pc : s.pc s.current = .join cid)
    (taken : step s i = .ok s') : ∃ p, s.task cid = some p := by
  obtain ⟨alive, kind⟩ := step_cases taken
  cases kind <;> simp_all

/-- A live task has exited only if it had before, or if its own code has just returned. -/
theorem step_exited {s s' : State} {i : Input} (inv : Integrity s)
    (taken : step s i = .ok s') {p : TaskPtr} (alive : s'.live p = true)
    (exited : (s'.tasks p).status = .exit) :
    s.live p = true ∧ (s.tasks p).status = .exit ∨ i = .ret ∧ s.current = p := by
  obtain ⟨_, kind⟩ := step_cases taken
  -- the steps that change one block do not mark it as exited
  have changed {q : TaskPtr} {tsk : TaskStruct} (tasks : s'.tasks = Function.update s.tasks q tsk)
      (live : s'.live = s.live) (same : tsk.status = .exit → (s.tasks q).status = .exit) :
      s.live p = true ∧ (s.tasks p).status = .exit := by
    refine ⟨live ▸ alive, ?_⟩
    by_cases here : p = q
    · subst here
      exact same (by simpa [tasks] using exited)
    · simpa [tasks, Function.update_of_ne here] using exited
  cases kind with
  | create cid pc =>
    left
    rcases coCreate_alive alive with ⟨before, _, same⟩ | ⟨_, _, _, new⟩
    · rw [same] at exited
      exact ⟨before, exited⟩
    · rw [new] at exited
      cases exited
  | sleep seconds pc => exact .inl (changed rfl rfl (by simp))
  | refused call fd granted tsk ctl pc bound registers failed =>
    exact .inl (changed rfl rfl fun same => by cases registers <;> cases same)
  | queued call fd granted tsk ctl links pc bound registers ok inserted =>
    exact .inl (changed rfl rfl fun same => by cases registers <;> cases same)
  | ret pc notInit =>
    by_cases own : p = s.current
    · exact .inr ⟨rfl, own.symm⟩
    · exact .inl ⟨alive, by
        simpa [startExit, State.goto, State.modify, Function.update_of_ne own] using exited⟩
  | joinEnd cid q pc bound slot alive' exited' =>
    refine .inl ⟨?_, exited⟩
    by_cases gone : p = q
    · subst gone; exact alive'
    · exact (Function.update_of_ne gone _ _).symm.trans alive
  | waitAgain call fd granted pc waiting => exact .inl (changed rfl rfl (by simp))
  | writeFailed fd granted pc received failed => exact .inl (changed rfl rfl id)
  | writeEnd fd granted pc received ok => exact .inl (changed rfl rfl id)
  | handled ev rest q links pc first alive' removed =>
    refine .inl (changed rfl rfl ?_)
    unfold TaskStruct.dispatch
    split
    · simp
    · exact id
  | released links pc more removed => exact .inl (changed rfl rfl id)
  | scheduled behind rounds picked q pc found alive' own =>
    have woken := (inv.picked pc found).woken
    refine .inl ⟨(congrFun woken.live p).symm.trans alive, ?_⟩
    rcases woken.block p with same | ⟨_, same⟩
    · exact (congrArg TaskStruct.status same).symm.trans exited
    · cases (congrArg TaskStruct.status same).symm.trans exited
  | _ => exact .inl ⟨alive, exited⟩

/-! ## Pending calls -/

/-- Every call of `co_join` in progress watches the task of its slot, except that a call for
a free slot is about to access it. -/
def Watched (past : History) (s : State) : Prop :=
  ∀ joiner cid, (s.pc joiner).joining = some cid →
    (∃ p, s.task cid = some p ∧ Watches past joiner cid p) ∨
      s.task cid = none ∧ joiner = s.current ∧ s.pc joiner = .join cid

/-- A call that watches a task is a move of the history. -/
theorem Watches.call {past : History} {joiner : TaskPtr} {cid : Nat} {p : TaskPtr}
    (watches : Watches past joiner cid p) :
    ∃ call ∈ past, call.before.current = joiner ∧ joinTarget call = some p := by
  obtain ⟨later, call, earlier, rfl, input, own, slot, _⟩ := watches
  exact ⟨call, by simp, own, by simp [joinTarget, input, slot]⟩

/-- A call keeps watching its task through a move that begins with it in the slot. -/
theorem Watches.cons {past : History} {joiner : TaskPtr} {cid : Nat} {p : TaskPtr}
    (watches : Watches past joiner cid p) {move : Move State Input}
    (slot : move.before.task cid = some p) (inside : (move.before.pc joiner).joining = some cid) :
    Watches (move :: past) joiner cid p := by
  obtain ⟨later, call, earlier, rfl, input, own, held, since⟩ := watches
  refine ⟨move :: later, call, earlier, rfl, input, own, held, fun other member => ?_⟩
  rcases List.mem_cons.mp member with rfl | member
  · exact ⟨slot, inside⟩
  · exact since other member

/-- No coroutine is watched by two tasks when each is joined at most once. -/
theorem Watches.unique {past : History} (once : past.Pairwise JoinedApart) {p : TaskPtr}
    (coroutine : p ≠ initTask) {joiner other : TaskPtr} {cid cid' : Nat}
    (watches : Watches past joiner cid p) (watches' : Watches past other cid' p) :
    joiner = other := by
  obtain ⟨call, member, rfl, target⟩ := watches.call
  obtain ⟨call', member', rfl, target'⟩ := watches'.call
  by_cases same : call = call'
  · rw [same]
  · exact absurd target' (once.forall member member' same p coroutine target)

/-- Pending calls keep watching their tasks. -/
theorem watched_step {past : History} {s s' : State} {i : Input} (inv : Integrity s)
    (watched : Watched past s) (once : past.Pairwise JoinedApart) (taken : step s i = .ok s') :
    Watched (⟨s, i, s'⟩ :: past) s' := by
  intro joiner cid inside
  rcases step_joining inv taken inside with before | ⟨rfl, rfl, rfl⟩
  case inr =>
    cases slot : s.task cid with
    | none => exact .inr ⟨slot, rfl, by simp [State.goto]⟩
    | some p => exact .inl ⟨p, slot, [], _, past, rfl, rfl, rfl, slot, by simp⟩
  rcases watched joiner cid before with ⟨p, slot, watches⟩ | ⟨free, rfl, pc⟩
  case inr =>
    obtain ⟨p, slot⟩ := step_join pc taken
    cases free.symm.trans slot
  refine .inl ⟨p, ?_, watches.cons slot before⟩
  cases step_table inv taken with
  | fills _ id pc bound free lowest table =>
    have other : cid ≠ id := by
      rintro rfl
      cases free.symm.trans slot
    rw [table, Function.update_of_ne other, slot]
  | clears cid' q pc slot' exited table count live fresh control =>
    by_cases same : cid = cid'
    · subst same
      obtain rfl := Option.some.inj (slot.symm.trans slot')
      -- the clearing call watches the same task, so it is the same call
      have coroutine : p ≠ initTask := fun root =>
        inv.stays (root ▸ inv.exits p (inv.tableLive cid p slot) exited)
      have own : (s.pc s.current).joining = some cid := by rw [pc]; rfl
      rcases watched s.current cid own with ⟨q, held, clearing⟩ | ⟨free, _⟩
      · obtain rfl := Option.some.inj (slot.symm.trans held)
        obtain rfl := watches.unique once coroutine clearing
        rw [control, Function.update_self] at inside
        cases inside
      · cases free.symm.trans slot
    · rw [table, Function.update_of_ne same, slot]
  | keeps table => rw [table, slot]

/-- In every run in which no coroutine is joined twice, pending calls watch their tasks. -/
theorem watched_of_run {self : EnvPtr} {clock : Nat → Nat} {past : History} {s : State}
    (run : ThreadRun self clock past s) (once : past.Pairwise JoinedApart) : Watched past s := by
  induction run with
  | start =>
    intro _ _ inside
    cases inside
  | move before taken ih =>
    have earlier := (List.pairwise_cons.mp once).2
    exact watched_step (integrity_of_run before) (ih earlier) earlier taken

/-! ## Created and reclaimed tasks -/

/-- The live tasks are the initial task and those created and not reclaimed. -/
structure Ledger (past : History) (s : State) : Prop where
  /-- Created tasks are new. -/
  created : ∀ p ∈ creations past, initTask < p ∧ p < s.fresh
  /-- Each task is created once. -/
  createdOnce : (creations past).Nodup
  /-- Reclaimed tasks were created. -/
  reclaimed : ∀ p ∈ reclaims past, p ∈ creations past
  /-- Each task is reclaimed once. -/
  reclaimedOnce : (reclaims past).Nodup
  /-- A task is live from its creation until it is reclaimed. -/
  live : ∀ p, s.live p = true ↔ p = initTask ∨ p ∈ creations past ∧ p ∉ reclaims past
  /-- The count follows. -/
  count : s.taskCount + (reclaims past).length = 1 + (creations past).length

/-- At the start of a thread nothing was created. -/
theorem ledger_init (self : EnvPtr) (clock : Nat → Nat) : Ledger [] (State.init self clock) where
  created := by simp [creations]
  createdOnce := List.nodup_nil
  reclaimed := by simp [reclaims]
  reclaimedOnce := List.nodup_nil
  live p := by
    by_cases root : p = initTask
    · subst root; simp [State.init]
    · simp [State.init, root, creations]
  count := rfl

section

variable {past : History} {s s' : State} {move : Move State Input}

/-- A move that creates the next task enters it in the ledger. -/
theorem Ledger.creates (ledger : Ledger past s) (rootLive : initTask < s.fresh)
    (creates : createdBy move = some s.fresh) (frees : reclaimedBy move = none)
    (fresh : s'.fresh = s.fresh + 1) (live : s'.live = Function.update s.live s.fresh true)
    (added : s'.taskCount = s.taskCount + 1) : Ledger (move :: past) s' := by
  have old : s.fresh ∉ creations past := fun member => lt_irrefl _ (ledger.created _ member).2
  have all : creations (move :: past) = s.fresh :: creations past :=
    List.filterMap_cons_some creates
  have none : reclaims (move :: past) = reclaims past := List.filterMap_cons_none frees
  have count := ledger.count
  constructor
  · intro p member
    rw [fresh]
    rcases List.mem_cons.mp (all ▸ member) with rfl | member
    · exact ⟨rootLive, Nat.lt_succ_self _⟩
    · exact ⟨(ledger.created p member).1, Nat.lt_succ_of_lt (ledger.created p member).2⟩
  · rw [all]
    exact List.nodup_cons.mpr ⟨old, ledger.createdOnce⟩
  · intro p member
    rw [all]
    exact List.mem_cons_of_mem _ (ledger.reclaimed p (none ▸ member))
  · rw [none]
    exact ledger.reclaimedOnce
  · intro p
    rw [live, all, none]
    by_cases new : p = s.fresh
    · subst new
      simpa using .inr fun member => old (ledger.reclaimed _ member)
    · simpa [Function.update_of_ne new, new] using ledger.live p
  · rw [all, none, List.length_cons]
    omega

/-- A move that reclaims a live coroutine takes it off the ledger. -/
theorem Ledger.frees (ledger : Ledger past s) {q : TaskPtr} (alive : s.live q = true)
    (coroutine : q ≠ initTask) (creates : createdBy move = none)
    (frees : reclaimedBy move = some q) (fresh : s'.fresh = s.fresh)
    (live : s'.live = Function.update s.live q false)
    (removed : s'.taskCount = s.taskCount - 1) : Ledger (move :: past) s' := by
  obtain ⟨made, kept⟩ := ((ledger.live q).mp alive).resolve_left coroutine
  have none : creations (move :: past) = creations past := List.filterMap_cons_none creates
  have all : reclaims (move :: past) = q :: reclaims past := List.filterMap_cons_some frees
  have count := ledger.count
  constructor
  · rw [none, fresh]
    exact ledger.created
  · rw [none]
    exact ledger.createdOnce
  · intro p member
    rw [none]
    rcases List.mem_cons.mp (all ▸ member) with rfl | member
    · exact made
    · exact ledger.reclaimed p member
  · rw [all]
    exact List.nodup_cons.mpr ⟨kept, ledger.reclaimedOnce⟩
  · intro p
    rw [live, all, none]
    by_cases gone : p = q
    · subst gone
      simp [coroutine]
    · simpa [Function.update_of_ne gone, gone] using ledger.live p
  · rw [all, none, List.length_cons]
    omega

/-- A move that neither creates nor reclaims keeps the ledger. -/
theorem Ledger.keeps (ledger : Ledger past s) (creates : createdBy move = none)
    (frees : reclaimedBy move = none) (fresh : s'.fresh = s.fresh) (live : s'.live = s.live)
    (count : s'.taskCount = s.taskCount) : Ledger (move :: past) s' := by
  have none : creations (move :: past) = creations past := List.filterMap_cons_none creates
  have same : reclaims (move :: past) = reclaims past := List.filterMap_cons_none frees
  constructor
  · rw [none, fresh]
    exact ledger.created
  · rw [none]
    exact ledger.createdOnce
  · rw [none, same]
    exact ledger.reclaimed
  · rw [same]
    exact ledger.reclaimedOnce
  · rw [none, same, live]
    exact ledger.live
  · rw [none, same, count]
    exact ledger.count

end

/-- Every step keeps the ledger. -/
theorem ledger_step {past : History} {s s' : State} {i : Input} (inv : Integrity s)
    (ledger : Ledger past s) (taken : step s i = .ok s') :
    Ledger (⟨s, i, s'⟩ :: past) s' := by
  have unused : s.live s.fresh = false :=
    Bool.eq_false_iff.mpr fun alive => lt_irrefl _ (inv.used _ alive)
  cases step_table inv taken with
  | fills cid id pc bound free lowest table added live fresh =>
    have creates : createdBy ⟨s, .create cid, s'⟩ = some s.fresh := by simp [createdBy, live]
    have frees : reclaimedBy ⟨s, .create cid, s'⟩ = none := by simp [reclaimedBy, pc]
    exact ledger.creates (inv.used _ inv.rootLive) creates frees fresh live added
  | clears cid q pc slot exited table removed live fresh control =>
    have alive : s.live q = true := inv.tableLive cid q slot
    have coroutine : q ≠ initTask := fun root => inv.stays (root ▸ inv.exits q alive exited)
    have creates : createdBy ⟨s, .run, s'⟩ = none := by
      have new : s.fresh ≠ q := fun same => by simp [same, alive] at unused
      simp [createdBy, live, Function.update_of_ne new, unused]
    have frees : reclaimedBy ⟨s, .run, s'⟩ = some q := by
      simp [reclaimedBy, pc, table, slot]
    exact ledger.frees alive coroutine creates frees fresh live removed
  | keeps table count live fresh =>
    have creates : createdBy ⟨s, i, s'⟩ = none := by simp [createdBy, live, unused]
    have frees : reclaimedBy ⟨s, i, s'⟩ = none := by
      simp only [reclaimedBy, table]
      split
      · simp
      · rfl
    exact ledger.keeps creates frees fresh live count

/-- The ledger holds in every run. -/
theorem ledger_of_run {self : EnvPtr} {clock : Nat → Nat} {past : History} {s : State}
    (run : ThreadRun self clock past s) : Ledger past s :=
  run.history_invariant (fun _ => True) _ (ledger_init self clock)
    (fun _ _ _ _ before ledger _ taken => ledger_step (integrity_of_run before) ledger taken)
    fun _ _ => trivial

/-- A live task that has exited got there by returning from its own code. -/
theorem returned_of_run {self : EnvPtr} {clock : Nat → Nat} {past : History} {s : State}
    (run : ThreadRun self clock past s) {p : TaskPtr} (alive : s.live p = true)
    (exited : (s.tasks p).status = .exit) :
    ∃ move ∈ past, move.input = .ret ∧ move.before.current = p := by
  induction run with
  | start =>
    by_cases root : p = initTask
    · subst root; cases exited
    · simp [State.init, Function.update_of_ne root] at alive
  | move before taken ih =>
    rcases step_exited (integrity_of_run before) taken alive exited with ⟨live, exited⟩ | ⟨rfl, own⟩
    · obtain ⟨move, member, returns⟩ := ih live exited
      exact ⟨move, List.mem_cons_of_mem _ member, returns⟩
    · exact ⟨_, List.mem_cons_self, rfl, own⟩

/-- In every run in which no coroutine is joined by two calls of `co_join`, a call that
returns reclaims the coroutine its slot held when the call was made: the slot held it at
every step of the call, its own code returned and it was marked as exited before, and
exactly its slot is cleared, its block freed and one task less counted. Every created
coroutine is reclaimed at most once, and the count follows creations and reclaims. -/
theorem join_integrity {self : EnvPtr} {clock : Nat → Nat} {past : History} {s : State}
    (run : ThreadRun self clock past s) (once : past.Pairwise JoinedApart) :
    (∀ cid s', s.pc s.current = .join cid → step s .run = .ok s' → s'.pc s.current = .user →
      ∃ p later call earlier, past = later ++ call :: earlier ∧ call.input = .join cid ∧
        call.before.current = s.current ∧ call.before.task cid = some p ∧
        (∀ move ∈ later, move.before.task cid = some p ∧
          (move.before.pc s.current).joining = some cid) ∧
        s.task cid = some p ∧ (s.tasks p).status = .exit ∧
        (∃ move ∈ past, move.input = .ret ∧ move.before.current = p) ∧
        s'.task = Function.update s.task cid none ∧
        s'.live = Function.update s.live p false ∧ s'.taskCount = s.taskCount - 1) ∧
    (reclaims past).Nodup ∧ (∀ p ∈ reclaims past, p ∈ creations past ∧ s.live p = false) ∧
    s.taskCount + (reclaims past).length = 1 + (creations past).length := by
  have inv := integrity_of_run run
  have ledger := ledger_of_run run
  refine ⟨fun cid s' pc taken returned => ?_, ledger.reclaimedOnce, fun p member => ?_,
    ledger.count⟩
  · obtain ⟨p, slot⟩ := step_join pc taken
    have inside : (s.pc s.current).joining = some cid := by rw [pc]; rfl
    rcases watched_of_run run once s.current cid inside with ⟨q, held, watches⟩ | ⟨free, _⟩
    case inr => cases free.symm.trans slot
    obtain ⟨later, call, earlier, shape, input, own, before, since⟩ := watches
    obtain ⟨_, kind⟩ := step_cases taken
    cases kind with
    | joinAgain cid' q pc' => simp [State.goto] at returned
    | joinEnd cid' q pc' bound slot' alive exited =>
      obtain rfl := Pc.join.inj (pc.symm.trans pc')
      obtain rfl := Option.some.inj (held.symm.trans slot')
      exact ⟨q, later, call, earlier, shape, input, own, before, since, held, exited,
        returned_of_run run alive exited, rfl, rfl, rfl⟩
    | _ => simp_all
  · have made := ledger.reclaimed p member
    refine ⟨made, Bool.eq_false_iff.mpr fun alive => ?_⟩
    rcases (ledger.live p).mp alive with root | ⟨_, kept⟩
    · exact absurd root (ledger.created p made).1.ne'
    · exact kept member

/-- Two coroutines are created, and the second one exits while the first one is joined. -/
def joinScenario : List Input :=
  [.create none, .create none, .join 1, .run, .pick 1, .ret, .run, .pick 1, .sleep 0, .pick 1]

/-- The joining task of the scenario reclaims the coroutine of slot one. -/
theorem join_integrity_scenario : ∃ p, (replay 3 joinScenario).task 1 = some p ∧
    ((replay 3 joinScenario).tasks p).status = .exit := by
  have run := run_of_replay 3 joinScenario (by decide) (by decide)
    (by decide +kernel)
  -- there is only one call of `co_join`
  have once : (replayMoves 3 joinScenario).Pairwise fun move other =>
      joinTarget move = none ∨ joinTarget other = none := by decide +kernel
  have outcome : ((step (replay 3 joinScenario) .run).toOption.map fun s' =>
      s'.pc (replay 3 joinScenario).current) = some .user := by decide +kernel
  cases taken : step (replay 3 joinScenario) .run with
  | error stop => simp [taken, Except.toOption] at outcome
  | ok s' =>
    have returned : s'.pc (replay 3 joinScenario).current = .user := by
      simpa [taken, Except.toOption] using outcome
    obtain ⟨p, _, _, _, _, _, _, _, _, slot, exited, _⟩ :=
      (join_integrity run (once.imp fun {move other} one p _ first second => by
        rcases one with none | none
        · cases none.symm.trans first
        · cases none.symm.trans second)).1 1 s' (by decide +kernel) taken returned
    exact ⟨p, slot, exited⟩

/-! ## The task table -/

/-- In every reachable state the initial task is in slot zero and live, occupied slots hold
live tasks of their number and environment, the current task is live and in its slot, and
the count is the number of occupied slots. `co_create` gives out the lowest free slot,
whose number no live task holds, or changes nothing when there is none. -/
theorem task_table_integrity {self : EnvPtr} {clock : Nat → Nat}
    {past : History} {s : State} (run : ThreadRun self clock past s) :
    (s.task 0 = some initTask ∧ s.live initTask = true) ∧
    (∀ i p, s.task i = some p → i < nrTasks ∧ s.live p = true ∧ (s.tasks p).id = i ∧
      (s.tasks p).threadEnv = some self) ∧
    (s.live s.current = true ∧ s.task (s.tasks s.current).id = some s.current) ∧
    (s.taskCount = (occupied s.task).card ∧ 1 ≤ s.taskCount ∧ s.taskCount ≤ nrTasks) ∧
    ∀ cid : Option Int,
      (∃ id < nrTasks, s.task id = none ∧ (∀ k < id, s.task k ≠ none) ∧
        (∀ p, s.live p = true → (s.tasks p).id ≠ id) ∧ s.live s.fresh = false ∧
        (coCreate cid s).2 = (0, cid.map fun _ => (id : Int)) ∧
        (coCreate cid s).1.task = Function.update s.task id (some s.fresh)) ∨
      (∀ k < nrTasks, s.task k ≠ none) ∧ coCreate cid s = (s, -1, cid) := by
  have inv := integrity_of_run run
  have zero : 0 ∈ occupied s.task := by simp [inv.root, nrTasks]
  have some : 0 < (occupied s.task).card := Finset.card_pos.mpr ⟨0, zero⟩
  have few : (occupied s.task).card ≤ nrTasks :=
    (Finset.card_filter_le _ _).trans_eq (Finset.card_range nrTasks)
  have counted := inv.count
  refine ⟨⟨inv.root, inv.rootLive⟩, ?_, ⟨inv.seated.alive, inv.seated.slot⟩,
    ⟨counted, by omega, by omega⟩, fun cid => ?_⟩
  · intro i p slot
    exact self_of_run run ▸ inv.slots i p slot
  · rcases coCreate_cases cid s with ⟨id, bound, free, lowest, made⟩ | full
    · refine .inl ⟨id, bound, free, lowest, fun p alive held => ?_, ?_, ?_, ?_⟩
      · cases (held ▸ inv.housed p alive).symm.trans free
      · exact Bool.eq_false_iff.mpr fun alive => lt_irrefl _ (inv.used _ alive)
      · rw [made]
      · rw [made]
    · exact .inr full

/-- The joining task goes on behind the scenario, and creates another coroutine. -/
def reusedSlot : List Input := joinScenario ++ [.run, .create (some 7)]

/-- The coroutine of slot one is reclaimed and the slot is used again: the new coroutine is live and
has its number, and with the initial task and the coroutine of slot two, three slots are
occupied. -/
theorem task_table_integrity_reusedSlot :
    reclaims (replayMoves 3 reusedSlot) = [1] ∧ (replay 3 reusedSlot).task 1 = some 3 ∧
      (replay 3 reusedSlot).live 3 = true ∧ ((replay 3 reusedSlot).tasks 3).id = 1 ∧
      (occupied (replay 3 reusedSlot).task).card = 3 := by
  have run := run_of_replay 3 reusedSlot (by decide) (by decide) (by decide +kernel)
  obtain ⟨_, slots, _, ⟨count, _⟩, _⟩ := task_table_integrity run
  have slot : (replay 3 reusedSlot).task 1 = some 3 := by decide +kernel
  obtain ⟨_, alive, number, _⟩ := slots 1 3 slot
  have three : (replay 3 reusedSlot).taskCount = 3 := by decide +kernel
  rw [three] at count
  exact ⟨by decide +kernel, slot, alive, number, (Int.ofNat.inj count).symm⟩

end LibcoLite
