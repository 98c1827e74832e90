import LibcoLite.Machine
import Mathlib.Data.Finset.Card

/-!
# The task table

An invariant of every run: slots and live tasks correspond, the current task and the
initial task stay in their slots, and the count is the number of occupied slots. The
current task is not the one that `co_join` frees, because only a task in `start` behind its
own code has the status it waits for. `StepCases` is inspected once; every kind of step
either keeps identities, occupies a slot, clears one, or switches.
-/

namespace LibcoLite

open Transition (Run)

/-- The slots that hold a task. -/
def occupied (task : Nat → Option TaskPtr) : Finset Nat :=
  (Finset.range nrTasks).filter fun i => task i ≠ none

@[simp]
theorem mem_occupied {task : Nat → Option TaskPtr} {i : Nat} :
    i ∈ occupied task ↔ i < nrTasks ∧ task i ≠ none := by
  rw [occupied, Finset.mem_filter, Finset.mem_range]

/-- Filling a free slot adds it. -/
theorem occupied_fill {task : Nat → Option TaskPtr} {id : Nat} {p : TaskPtr}
    (bound : id < nrTasks) (free : task id = none) :
    (occupied (Function.update task id (some p))).card = (occupied task).card + 1 := by
  have added : occupied (Function.update task id (some p)) = insert id (occupied task) := by
    ext i
    by_cases same : i = id
    · subst same; simp [bound]
    · simp [same]
  rw [added, Finset.card_insert_of_notMem (by simp [free])]

/-- Clearing an occupied slot removes it. -/
theorem occupied_clear {task : Nat → Option TaskPtr} {id : Nat} {p : TaskPtr}
    (bound : id < nrTasks) (held : task id = some p) :
    (occupied (Function.update task id none)).card + 1 = (occupied task).card := by
  have removed : occupied (Function.update task id none) = (occupied task).erase id := by
    ext i
    by_cases same : i = id
    · subst same; simp
    · simp [same]
  rw [removed, Finset.card_erase_add_one (by simp [bound, held])]

/-- The control points of `start` behind the task's own code. -/
def Pc.exiting : Pc → Prop
  | .cleanup => True
  | .finished => True
  | .schedule behind => behind.exiting
  | _ => False

/-- A block still stands for the same task, which has not newly exited. -/
def TaskStruct.SameTask (tsk old : TaskStruct) : Prop :=
  tsk.id = old.id ∧ tsk.threadEnv = old.threadEnv ∧ (tsk.status = .exit → old.status = .exit)

/-- Slots, tasks, the current task and the count fit together. -/
structure Integrity (s : State) : Prop where
  /-- The current task is in its slot. -/
  seated : Seated s
  /-- A slot holds a live task of its number and of this environment. -/
  slots : ∀ i p, s.task i = some p → i < nrTasks ∧ s.live p = true ∧ (s.tasks p).id = i ∧
    (s.tasks p).threadEnv = some s.self
  /-- A live task is in the slot of its number. -/
  housed : ∀ p, s.live p = true → s.task (s.tasks p).id = some p
  /-- Blocks `calloc` will return are not in use. -/
  used : ∀ p, s.live p = true → p < s.fresh
  /-- Slot zero holds the initial task. -/
  root : s.task 0 = some initTask
  /-- The count is the number of occupied slots. -/
  count : s.taskCount = (occupied s.task).card
  /-- Only tasks behind their own code have exited. -/
  exits : ∀ p, s.live p = true → (s.tasks p).status = .exit → (s.pc p).exiting
  /-- The initial task does not run `start`. -/
  stays : ¬(s.pc initTask).exiting

namespace Integrity

variable {s s' : State}

/-- The environment a thread starts with. -/
theorem init (self : EnvPtr) (clock : Nat → Nat) : Integrity (State.init self clock) where
  seated := ⟨rfl, show 0 < nrTasks by decide, rfl⟩
  slots i p slot := by
    by_cases zero : i = 0
    · subst zero
      obtain rfl : initTask = p := Option.some.inj slot
      exact ⟨by decide, rfl, rfl, rfl⟩
    · simp [State.init, Function.update_of_ne zero] at slot
  housed p alive := by
    by_cases root : p = initTask
    · subst root; rfl
    · simp [State.init, Function.update_of_ne root] at alive
  used p alive := by
    by_cases root : p = initTask
    · subst root; exact Nat.lt_succ_self _
    · simp [State.init, Function.update_of_ne root] at alive
  root := rfl
  count := by
    have only : occupied (State.init self clock).task = {0} := by
      ext i
      by_cases zero : i = 0
      · subst zero; simp [State.init, nrTasks]
      · simp [State.init, zero]
    rw [only]
    rfl
  exits p alive exited := by
    by_cases root : p = initTask
    · subst root; cases exited
    · simp [State.init, Function.update_of_ne root] at alive
  stays := id

/-- Occupied slots hold live tasks. -/
theorem tableLive (inv : Integrity s) : TableLive s := fun i p slot => (inv.slots i p slot).2.1

/-- The initial task is live. -/
theorem rootLive (inv : Integrity s) : s.live initTask = true :=
  (inv.slots 0 initTask inv.root).2.1

/-- A live task is not the block `calloc` will return next. -/
theorem notFresh (inv : Integrity s) {p : TaskPtr} (alive : s.live p = true) : p ≠ s.fresh :=
  Nat.ne_of_lt (inv.used p alive)

/-- The current task has not exited while it is outside `start`. -/
theorem current_status (inv : Integrity s) (inside : ¬(s.pc s.current).exiting) :
    (s.tasks s.current).status ≠ .exit :=
  fun exited => inside (inv.exits s.current inv.seated.alive exited)

/-- Changes that keep the identity of every block, and exit no task, keep the table. -/
theorem blocks (inv : Integrity s) {tasks : TaskPtr → TaskStruct}
    (same : ∀ p, (tasks p).SameTask (s.tasks p)) (links : TailQueue.Links Nat TaskPtr)
    (interest : Nat → Option EpollEvent) (readings : Nat) :
    Integrity { s with tasks, links, interest, readings } where
  seated := by
    refine ⟨inv.seated.alive, ?_, ?_⟩
    · simp only [(same s.current).1]; exact inv.seated.bound
    · simp only [(same s.current).1]; exact inv.seated.slot
  slots i p slot := by
    obtain ⟨bound, alive, id, own⟩ := inv.slots i p slot
    exact ⟨bound, alive, (same p).1.trans id, (same p).2.1.trans own⟩
  housed p alive := by
    simp only [(same p).1]
    exact inv.housed p alive
  used := inv.used
  root := inv.root
  count := inv.count
  exits p alive exited := inv.exits p alive ((same p).2.2 exited)
  stays := inv.stays

/-- The same for a change of one block. -/
theorem block (inv : Integrity s) (p : TaskPtr) (tsk : TaskStruct)
    (block : tsk.SameTask (s.tasks p)) (links : TailQueue.Links Nat TaskPtr)
    (interest : Nat → Option EpollEvent) (readings : Nat) :
    Integrity { s with
      tasks := Function.update s.tasks p tsk
      links, interest, readings } := by
  refine inv.blocks (fun q => ?_) links interest readings
  by_cases same : q = p
  · subst same; simpa using block
  · simpa [Function.update_of_ne same] using ⟨rfl, rfl, id⟩

/-- Going on inside or outside `start` keeps the table. -/
theorem goto (inv : Integrity s) {pc : Pc} (side : pc.exiting ↔ (s.pc s.current).exiting) :
    Integrity (s.goto pc) where
  seated := ⟨inv.seated.alive, inv.seated.bound, inv.seated.slot⟩
  slots := inv.slots
  housed := inv.housed
  used := inv.used
  root := inv.root
  count := inv.count
  exits p alive exited := by
    by_cases same : p = s.current
    · subst same
      simpa [State.goto, side] using inv.exits s.current alive exited
    · simpa [State.goto, Function.update_of_ne same] using inv.exits p alive exited
  stays := by
    by_cases same : initTask = s.current
    · simpa [State.goto, ← same, side] using same ▸ inv.stays
    · simpa [State.goto, Function.update_of_ne same] using inv.stays

/-- Behind a call of `schedule` the table is the same. -/
theorem behind (inv : Integrity s) {pc : Pc} (calls : s.pc s.current = .schedule pc) :
    Integrity (s.goto pc) := by
  apply inv.goto
  rw [calls]
  exact Iff.rfl

/-- What `pick` returns to a call of `schedule`. -/
theorem picked (inv : Integrity s) {pc : Pc} (calls : s.pc s.current = .schedule pc)
    {rounds : Nat} {p : TaskPtr} (found : pick rounds (s.goto pc) = .ok (s', p)) :
    Picked (s.goto pc) s' p :=
  pick_spec (inv.behind calls).tableLive (inv.behind calls).seated found

/-- Waking keeps the table. -/
theorem woken (inv : Integrity s) (woken : Woken s s') : Integrity s' := by
  rw [woken.frame]
  refine inv.blocks (fun p => ?_) s.links s.interest s'.readings
  rcases woken.block p with same | ⟨_, same⟩
  · rw [same]; exact ⟨rfl, rfl, id⟩
  · rw [same]; exact ⟨rfl, rfl, by simp⟩

/-- A call of `schedule` switches to the task `pick` returns. -/
theorem schedule_of_pick (inv : Integrity s) {rounds : Nat} {middle : State} {p : TaskPtr}
    (found : pick rounds s = .ok (middle, p)) :
    schedule rounds s = .ok { middle with current := p } := by
  obtain ⟨woken, slot, _, held, _⟩ := pick_spec inv.tableLive inv.seated found
  obtain ⟨_, alive, _, own⟩ := (inv.woken woken).slots slot p held
  by_cases same : middle.current = p
  · subst same
    simp [schedule, found, coSwitchTo, State.deref, alive, own, bind, Except.bind]
  · simp [schedule, found, coSwitchTo, State.deref, alive, own, same, bind, Except.bind]

/-- Switching to the task of a slot keeps the table. -/
theorem switch (inv : Integrity s) {j : Nat} {p : TaskPtr} (slot : s.task j = some p) :
    Integrity { s with current := p } := by
  obtain ⟨bound, alive, id, _⟩ := inv.slots j p slot
  exact { inv with seated := ⟨alive, id ▸ bound, id ▸ slot⟩ }

/-- A coroutine whose own code has ended is marked and goes on in `start`. -/
theorem exit (inv : Integrity s) (notInit : s.current ≠ initTask) :
    Integrity ((startExit s).goto .cleanup) where
  seated := by
    refine ⟨inv.seated.alive, ?_, ?_⟩
    · simpa [startExit, State.goto, State.modify] using inv.seated.bound
    · simpa [startExit, State.goto, State.modify] using inv.seated.slot
  slots i p slot := by
    have held := inv.slots i p slot
    by_cases same : p = s.current
    · subst same; simpa [startExit, State.goto, State.modify] using held
    · simpa [startExit, State.goto, State.modify, Function.update_of_ne same] using held
  housed p alive := by
    have held := inv.housed p alive
    by_cases same : p = s.current
    · subst same; simpa [startExit, State.goto, State.modify] using held
    · simpa [startExit, State.goto, State.modify, Function.update_of_ne same] using held
  used := inv.used
  root := inv.root
  count := inv.count
  exits p alive exited := by
    by_cases same : p = s.current
    · subst same; simp [startExit, State.goto, State.modify, Pc.exiting]
    · simp only [startExit, State.goto, State.modify, Function.update_of_ne same] at exited ⊢
      exact inv.exits p alive exited
  stays := by
    simpa [startExit, State.goto, State.modify, Function.update_of_ne notInit.symm]
      using inv.stays

/-- A fresh block that fills a free slot keeps the table. -/
theorem create (inv : Integrity s) (cid : Option Int) : Integrity (coCreate cid s).1 := by
  rcases coCreate_cases cid s with ⟨id, bound, free, _, made⟩ | ⟨_, made⟩
  case inr => rw [made]; exact inv
  rw [made]
  dsimp only
  have unused : ∀ p, s.live p = true → p ≠ s.fresh :=
    fun p alive => Nat.ne_of_lt (inv.used p alive)
  have elsewhere : ∀ i p, s.task i = some p → i ≠ id := by
    intro i p slot same
    rw [same, free] at slot
    cases slot
  exact {
    seated := by
      have other := unused _ inv.seated.alive
      refine ⟨?_, ?_, ?_⟩
      · simpa [Function.update_of_ne other] using inv.seated.alive
      · simpa [Function.update_of_ne other] using inv.seated.bound
      · simpa [Function.update_of_ne other,
          Function.update_of_ne (elsewhere _ _ inv.seated.slot)] using inv.seated.slot
    slots := by
      intro i p slot
      by_cases here : i = id
      · subst here
        obtain rfl : s.fresh = p := by simpa using slot
        exact ⟨bound, by simp, by simp, by simp⟩
      · simp only [Function.update_of_ne here] at slot
        have held := inv.slots i p slot
        simpa [Function.update_of_ne (unused p held.2.1)] using held
    housed := by
      intro p alive
      by_cases new : p = s.fresh
      · subst new; simp
      · simp only [Function.update_of_ne new] at alive ⊢
        have held := inv.housed p alive
        rwa [Function.update_of_ne (elsewhere _ _ held)]
    used := by
      intro p alive
      by_cases new : p = s.fresh
      · subst new; exact Nat.lt_succ_self _
      · simp only [Function.update_of_ne new] at alive
        exact Nat.lt_succ_of_lt (inv.used p alive)
    root := by
      exact (Function.update_of_ne (elsewhere _ _ inv.root) _ _).trans inv.root
    count := by
      simp only [occupied_fill bound free, inv.count]
      rfl
    exits := by
      intro p alive exited
      by_cases new : p = s.fresh
      · subst new; simp [TaskStruct.calloc] at exited
      · simp only [Function.update_of_ne new] at alive exited ⊢
        exact inv.exits p alive exited
    stays := by
      simpa [Function.update_of_ne (unused _ inv.rootLive)] using inv.stays }

/-- Freeing an exited task other than the current one and clearing its slot keeps the
table. -/
theorem reclaim (inv : Integrity s) {cid : Nat} {p : TaskPtr} (slot : s.task cid = some p)
    (exited : (s.tasks p).status = .exit) (outside : ¬(s.pc s.current).exiting) :
    Integrity { s.free p with
      task := Function.update s.task cid none
      taskCount := s.taskCount - 1 } := by
  obtain ⟨bound, alive, id, own⟩ := inv.slots cid p slot
  have behind := inv.exits p alive exited
  have running : s.current ≠ p := fun same => outside (same ▸ behind)
  have notRoot : initTask ≠ p := fun same => inv.stays (same ▸ behind)
  -- a task of another slot is another task, and the other way round
  have apart : ∀ i q, s.task i = some q → q ≠ p → i ≠ cid := fun i q held different same =>
    different (Option.some.inj (held.symm.trans (same ▸ slot)))
  have keeps : ∀ q, q ≠ p → (s.free p).live q = s.live q := fun q different =>
    Function.update_of_ne different _ _
  have alive' : ∀ q, (s.free p).live q = true → q ≠ p ∧ s.live q = true := by
    intro q alive
    have different : q ≠ p := by
      rintro rfl
      simp [State.free] at alive
    exact ⟨different, keeps q different ▸ alive⟩
  exact {
    seated := by
      refine ⟨(keeps _ running).trans inv.seated.alive, inv.seated.bound, ?_⟩
      exact (Function.update_of_ne (apart _ _ inv.seated.slot running) _ _).trans inv.seated.slot
    slots := by
      intro i q held
      have other : i ≠ cid := by rintro rfl; simp at held
      simp only [Function.update_of_ne other] at held
      obtain ⟨bound, alive, id', own⟩ := inv.slots i q held
      have different : q ≠ p := fun same => other (id'.symm.trans (same ▸ id))
      exact ⟨bound, (keeps q different).trans alive, id', own⟩
    housed := by
      intro q alive
      obtain ⟨different, alive⟩ := alive' q alive
      have held := inv.housed q alive
      exact (Function.update_of_ne (apart _ _ held different) _ _).trans held
    used := fun q alive => inv.used q (alive' q alive).2
    root := (Function.update_of_ne (apart _ _ inv.root notRoot) _ _).trans inv.root
    count := by
      have counted := occupied_clear bound slot
      have before := inv.count
      simp only
      omega
    exits := fun q alive exited => inv.exits q (alive' q alive).2 exited
    stays := inv.stays }

/-- Registering changes no identity. -/
theorem registered (inv : Integrity s) {fd : Nat} {events : Mask} {granted : Bool}
    {tsk : TaskStruct} {ctl : (Nat → Option EpollEvent) × Int}
    (registers : Registers fd events granted s tsk ctl)
    (links : TailQueue.Links Nat TaskPtr) : Integrity { s.registered tsk ctl.1 with links } := by
  refine inv.block s.current tsk ?_ links ctl.1 s.readings
  cases registers <;> exact ⟨rfl, rfl, fun same => by cases same⟩

/-- Every step keeps the table. -/
theorem step {i : Input} (inv : Integrity s) (taken : step s i = .ok s') : Integrity s' := by
  obtain ⟨_, kind⟩ := step_cases taken
  -- control points outside `start`
  have outside {here there : Pc} (at_ : s.pc s.current = here) (out : here.exiting = False)
      (out' : there.exiting = False) : there.exiting ↔ (s.pc s.current).exiting := by
    rw [at_, out, out']
  cases kind with
  | create cid pc => exact inv.create cid
  | join cid pc => exact inv.goto (outside pc rfl rfl)
  | sleep seconds pc =>
    have slept : Integrity (coSleep seconds s) :=
      inv.block s.current _ (by exact ⟨rfl, rfl, fun same => by cases same⟩) s.links s.interest
        (s.readings + 1)
    refine slept.goto ((outside pc rfl rfl).trans (Iff.of_eq ?_))
    rfl
  | refused call fd granted tsk ctl pc bound registers failed =>
    exact (inv.registered registers s.links).goto (outside pc rfl rfl)
  | queued call fd granted tsk ctl links pc bound registers ok inserted =>
    exact (inv.registered registers links).goto (outside pc rfl rfl)
  | eventloop pc => exact inv.goto (outside pc rfl rfl)
  | close fd pc => exact inv.blocks (fun p => ⟨rfl, rfl, id⟩) s.links _ s.readings
  | ret pc notInit => exact inv.exit notInit
  | joinAgain cid p pc bound slot alive more => exact inv.goto (outside pc rfl rfl)
  | joinEnd cid p pc bound slot alive exited =>
    exact (inv.reclaim slot exited (pc ▸ id)).goto (outside pc rfl rfl)
  | waitAgain call fd granted pc waiting =>
    have again : Integrity (s.modify s.current fun tsk => { tsk with status := .wait }) :=
      inv.block s.current _ (by exact ⟨rfl, rfl, fun same => by cases same⟩) s.links s.interest
        s.readings
    exact again.goto (outside pc rfl rfl)
  | waitEnd call fd granted pc received other => exact inv.goto (outside pc rfl rfl)
  | writeFailed fd granted pc received failed =>
    have done : Integrity (coWriteDone fd granted s).1 :=
      inv.block s.current _ (by exact ⟨rfl, rfl, id⟩) s.links _ s.readings
    exact done.goto (outside pc rfl rfl)
  | writeEnd fd granted pc received ok =>
    have done : Integrity (coWriteDone fd granted s).1 :=
      inv.block s.current _ (by exact ⟨rfl, rfl, id⟩) s.links _ s.readings
    exact done.goto (outside pc rfl rfl)
  | syscall call fd pc => exact inv.goto (outside pc rfl rfl)
  | timeout reports pc none => exact inv.goto (outside pc rfl rfl)
  | reported reports ev rest pc some => exact inv.goto (outside pc rfl rfl)
  | handled ev rest p links pc first alive removed =>
    have dispatched : Integrity { s with
        links
        tasks := Function.update s.tasks p ((s.tasks p).dispatch ev) } := by
      refine inv.block p _ ?_ links s.interest s.readings
      unfold TaskStruct.dispatch
      split
      · exact ⟨rfl, rfl, by simp⟩
      · exact ⟨rfl, rfl, id⟩
    exact dispatched.goto (outside pc rfl rfl)
  | drained pc => exact inv.goto (outside pc rfl rfl)
  | released links pc more removed =>
    exact inv.block s.current _ (by exact ⟨rfl, rfl, id⟩) links _ s.readings
  | cleaned pc none => exact inv.goto (by rw [pc]; exact Iff.rfl)
  | scheduled behind rounds picked p pc found alive own =>
    have gone : Integrity (s.goto behind) := inv.behind pc
    obtain ⟨woken, j, bound, slot, _⟩ := pick_spec gone.tableLive gone.seated found
    exact (gone.woken woken).switch slot

end Integrity

/-- The table is sound in every reachable state. -/
theorem integrity_of_run {self : EnvPtr} {clock : Nat → Nat} {past : History}
    {s : State} (run : ThreadRun self clock past s) : Integrity s :=
  run.invariant (fun _ => True) _ (Integrity.init self clock)
    (fun _ _ _ inv _ taken => inv.step taken) fun _ _ => trivial

/-- What a step does to the task table. -/
inductive TableStep (s : State) : Input → State → Prop where
  /-- A fresh block fills the lowest free slot. -/
  | fills {s' : State} (cid : Option Int) (id : Nat) : s.pc s.current = .user → id < nrTasks →
      s.task id = none → (∀ k < id, s.task k ≠ none) →
      s'.task = Function.update s.task id (some s.fresh) → s'.taskCount = s.taskCount + 1 →
      s'.live = Function.update s.live s.fresh true → s'.fresh = s.fresh + 1 →
      TableStep s (.create cid) s'
  /-- An exited task is freed and its slot cleared. -/
  | clears {s' : State} (cid : Nat) (p : TaskPtr) : s.pc s.current = .join cid →
      s.task cid = some p → (s.tasks p).status = .exit →
      s'.task = Function.update s.task cid none → s'.taskCount = s.taskCount - 1 →
      s'.live = Function.update s.live p false → s'.fresh = s.fresh →
      s'.pc = Function.update s.pc s.current .user → TableStep s .run s'
  /-- The table, its count and the allocated blocks stay. -/
  | keeps {s' : State} {i : Input} : s'.task = s.task → s'.taskCount = s.taskCount →
      s'.live = s.live → s'.fresh = s.fresh → TableStep s i s'

/-- Every step fills a slot, clears one or leaves the table alone. -/
theorem step_table {s s' : State} {i : Input} (inv : Integrity s)
    (taken : step s i = .ok s') : TableStep s i s' := by
  obtain ⟨_, kind⟩ := step_cases taken
  cases kind with
  | create cid pc =>
    rcases coCreate_cases cid s with ⟨id, bound, free, lowest, made⟩ | ⟨_, made⟩ <;> rw [made]
    · exact .fills cid id pc bound free lowest rfl rfl rfl rfl
    · exact .keeps rfl rfl rfl rfl
  | joinEnd cid p pc bound slot alive exited =>
    exact .clears cid p pc slot exited rfl rfl rfl rfl rfl
  | scheduled behind rounds picked p pc found alive own =>
    have woken := (inv.picked pc found).woken
    have table : picked.task = s.task := congrArg ThreadEnv.task woken.env
    have count : picked.taskCount = s.taskCount := congrArg ThreadEnv.taskCount woken.env
    exact .keeps table count woken.live woken.fresh
  | _ => exact .keeps rfl rfl rfl rfl

/-- Used blocks stay used. -/
theorem step_fresh {s s' : State} {i : Input} (inv : Integrity s)
    (taken : step s i = .ok s') : s.fresh ≤ s'.fresh := by
  cases step_table inv taken with
  | fills cid id pc bound free lowest table count live fresh => exact fresh ▸ Nat.le_succ s.fresh
  | clears cid p pc slot exited table count live fresh => exact Nat.le_of_eq fresh.symm
  | keeps table count live fresh => exact Nat.le_of_eq fresh.symm

/-- Only `schedule` switches. -/
theorem StepCases.current {s s' : State} {i : Input} (kind : StepCases s i s')
    (other : ∀ rounds, i ≠ .pick rounds) : s'.current = s.current := by
  cases kind with
  | create cid pc => rcases coCreate_cases cid s with ⟨_, _, _, _, made⟩ | ⟨_, made⟩ <;> rw [made]
  | scheduled behind rounds => exact absurd rfl (other rounds)
  | _ => rfl

/-- A live task keeps its number. -/
theorem step_id {s s' : State} {i : Input} (inv : Integrity s) (taken : step s i = .ok s')
    {p : TaskPtr} (alive : s.live p = true) : (s'.tasks p).id = (s.tasks p).id := by
  have changed {q : TaskPtr} {tsk : TaskStruct} (same : tsk.id = (s.tasks q).id) :
      (Function.update s.tasks q tsk p).id = (s.tasks p).id := by
    by_cases here : p = q
    · subst here; simpa using same
    · rw [Function.update_of_ne here]
  obtain ⟨_, kind⟩ := step_cases taken
  cases kind with
  | create cid pc =>
    obtain ⟨_, _, tasks⟩ := coCreate_other cid (inv.notFresh alive)
    exact congrArg TaskStruct.id tasks
  | refused call fd granted tsk ctl pc bound registers failed =>
    exact changed (by cases registers <;> rfl)
  | queued call fd granted tsk ctl links pc bound registers ok inserted =>
    exact changed (by cases registers <;> rfl)
  | handled ev rest q links pc first alive removed =>
    exact changed (by unfold TaskStruct.dispatch; split <;> rfl)
  | scheduled behind rounds picked q pc found alive own =>
    change (picked.tasks p).id = ((s.goto behind).tasks p).id
    rw [(inv.picked pc found).woken.fields]
  | _ => first | rfl | exact changed rfl

/-- A live task that has not exited stays live. -/
theorem step_live {s s' : State} {i : Input} (inv : Integrity s) (taken : step s i = .ok s')
    {p : TaskPtr} (alive : s.live p = true) (more : (s.tasks p).status ≠ .exit) :
    s'.live p = true := by
  obtain ⟨_, kind⟩ := step_cases taken
  cases kind with
  | create cid pc =>
    obtain ⟨live, _⟩ := coCreate_other cid (inv.notFresh alive)
    exact live.trans alive
  | joinEnd cid q pc bound slot alive' exited =>
    exact (Function.update_of_ne (fun same : p = q => more (same ▸ exited)) _ _).trans alive
  | scheduled behind rounds picked q pc found alive' own =>
    exact (congrFun (inv.picked pc found).woken.live p).trans alive
  | _ => exact alive

/-- `pick` selects a running task. -/
theorem step_pick {s s' : State} {rounds : Nat} (inv : Integrity s)
    (taken : step s (.pick rounds) = .ok s') : (s'.tasks s'.current).status = .running := by
  obtain ⟨_, kind⟩ := step_cases taken
  cases kind with
  | scheduled behind rounds picked q pc found =>
    obtain ⟨_, _, _, _, running, _⟩ := inv.picked pc found
    exact running

open Cycle in
/-- A switch selects a task whose slot is nearer than the one of any other running task. -/
theorem step_nearer {s s' : State} {rounds : Nat} (inv : Integrity s)
    (taken : step s (.pick rounds) = .ok s') {q : TaskPtr} (alive : s.live q = true)
    (runs : (s'.tasks q).status = .running) (other : s'.current ≠ q) :
    ahead nrTasks (s.tasks s.current).id (s'.tasks s'.current).id <
      ahead nrTasks (s.tasks s.current).id (s'.tasks q).id := by
  obtain ⟨_, kind⟩ := step_cases taken
  cases kind with
  | scheduled behind rounds picked p pc found =>
    obtain ⟨woken, slot, slotBound, held, _, idle⟩ := inv.picked pc found
    have after := (inv.behind pc).woken woken
    have number : (picked.tasks p).id = slot := (after.slots slot p held).2.2.1
    have home : picked.task (picked.tasks q).id = some q := by
      apply after.housed
      rw [woken.live]
      exact alive
    have bound : (picked.tasks q).id < nrTasks := (after.slots _ q home).1
    have notFurther : ahead nrTasks (s.tasks s.current).id slot ≤
        ahead nrTasks (s.tasks s.current).id (picked.tasks q).id :=
      Nat.not_lt.mp fun nearer => idle _ bound nearer ⟨q, home, runs⟩
    have different : slot ≠ (picked.tasks q).id := by
      rintro rfl
      exact other (Option.some.inj (held.symm.trans home))
    show ahead nrTasks (s.tasks s.current).id (picked.tasks p).id <
      ahead nrTasks (s.tasks s.current).id (picked.tasks q).id
    rw [number]
    apply Nat.lt_of_le_of_ne notFurther
    intro same
    exact different (ahead_inj inv.seated.bound slotBound bound same)

/-- No step moves the environment. -/
theorem step_self {s s' : State} {i : Input} (inv : Integrity s) (taken : step s i = .ok s') :
    s'.self = s.self := by
  obtain ⟨_, kind⟩ := step_cases taken
  cases kind with
  | create cid pc => rcases coCreate_cases cid s with ⟨_, _, _, _, made⟩ | ⟨_, made⟩ <;> rw [made]
  | scheduled behind rounds picked p pc found alive own =>
    exact (inv.picked pc found).woken.self
  | _ => rfl

/-- Reachable states belong to the environment the thread started with. -/
theorem self_of_run {self : EnvPtr} {clock : Nat → Nat} {past : History}
    {s : State} (run : ThreadRun self clock past s) : s.self = self := by
  refine (run.invariant (fun _ => True)
    (fun s => Integrity s ∧ s.self = self) ⟨Integrity.init self clock, rfl⟩
    (fun s i s' inv _ taken => ?_) fun _ _ => trivial).2
  exact ⟨inv.1.step taken, (step_self inv.1 taken).trans inv.2⟩

end LibcoLite
