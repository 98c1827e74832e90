import LibcoLite.Replay

/-!
# Round-robin selection

Between two selections of a running task, every selection lies further along the cycle of
slots than the one before and not as far as the task's own slot. So no other slot is
selected twice, the slot that was current at the beginning is not selected at all, and the
next call of `schedule` always returns.
-/

namespace LibcoLite

open Transition (Run Move Along along_cons)
open Cycle

/-- The slot a move selects, if it calls `pick`. -/
def selectedSlot (move : Move State Input) : Option Nat :=
  match move.input with
  | .pick _ => some (move.after.tasks move.after.current).id
  | _ => none

/-- The slots selected along a history, latest first. -/
def selections (past : History) : List Nat := past.filterMap selectedSlot

/-- A task is running and was not selected by a move. -/
def PassedOver (j : TaskPtr) (move : Move State Input) : Prop :=
  (move.after.tasks j).status = .running ∧
    ∀ rounds, move.input = .pick rounds → move.after.current ≠ j

/-- The current slot is the latest selection; selections move along the cycle from the first
current slot, towards a target they do not reach. -/
structure Advancing (origin target : Nat) (chosen : List Nat) (here : Nat) : Prop where
  /-- The current slot was selected last. -/
  latest : here = chosen.headD origin
  /-- Each selection is further along the cycle than the ones before. -/
  further : (chosen.map (ahead nrTasks origin)).Pairwise (· > ·)
  /-- No selection is as far as the target. -/
  short : ∀ slot ∈ chosen, slot < nrTasks ∧ ahead nrTasks origin slot < ahead nrTasks origin target

namespace Advancing

variable {origin target here : Nat} {chosen : List Nat}

/-- The nearest running slot behind the current one is the next selection, when it is
nearer than a running target. -/
theorem select (adv : Advancing origin target chosen here) (inside : origin < nrTasks)
    (bound : target < nrTasks) {slot : Nat} (slotBound : slot < nrTasks)
    (nearer : ahead nrTasks here slot < ahead nrTasks here target) :
    Advancing origin target (slot :: chosen) slot := by
  cases chosen with
  | nil =>
    obtain rfl : here = origin := adv.latest
    exact ⟨rfl, by simp, by simpa using ⟨slotBound, nearer⟩⟩
  | cons last before =>
    obtain rfl : here = last := adv.latest
    obtain ⟨lastBound, toward⟩ := adv.short here List.mem_cons_self
    have rest := ahead_sub inside lastBound bound toward
    have most : ahead nrTasks origin target ≤ nrTasks := ahead_le bound
    have sum : ahead nrTasks origin slot =
        ahead nrTasks origin here + ahead nrTasks here slot :=
      ahead_add inside lastBound (by omega)
    have moved : 0 < ahead nrTasks here slot := ahead_pos lastBound
    refine ⟨rfl, ?_, ?_⟩
    · refine List.pairwise_cons.mpr ⟨?_, adv.further⟩
      intro distance member
      have upTo : distance ≤ ahead nrTasks origin here := by
        rcases List.mem_cons.mp member with same | earlier
        · exact same.le
        · exact ((List.pairwise_cons.mp adv.further).1 distance earlier).le
      omega
    · rintro other member
      rcases List.mem_cons.mp member with rfl | earlier
      · exact ⟨slotBound, by omega⟩
      · exact adv.short other earlier

/-- No slot is selected twice. -/
theorem nodup (adv : Advancing origin target chosen here) : chosen.Nodup :=
  .of_map (ahead nrTasks origin) (adv.further.imp fun greater => greater.ne')

/-- The target is not selected. -/
theorem target_notMem (adv : Advancing origin target chosen here) : target ∉ chosen :=
  fun member => lt_irrefl _ (adv.short target member).2

/-- The slot the walk began behind is not selected. -/
theorem origin_notMem (adv : Advancing origin target chosen here) (bound : target < nrTasks) :
    origin ∉ chosen := by
  intro member
  have far := (adv.short origin member).2
  rw [ahead_self] at far
  exact absurd (ahead_le bound) (Nat.not_le.mpr far)

/-- Fewer slots are selected than there are. -/
theorem length_lt (adv : Advancing origin target chosen here) (bound : target < nrTasks) :
    chosen.length < nrTasks := by
  have among : chosen.toFinset ⊆ (Finset.range nrTasks).erase target := by
    intro slot member
    rw [List.mem_toFinset] at member
    refine Finset.mem_erase.mpr ⟨?_, Finset.mem_range.mpr (adv.short slot member).1⟩
    rintro rfl
    exact adv.target_notMem member
  have counted := Finset.card_le_card among
  rw [List.toFinset_card_of_nodup adv.nodup, Finset.card_erase_of_mem
    (Finset.mem_range.mpr bound), Finset.card_range] at counted
  have positive : 0 < nrTasks := by decide
  omega

end Advancing

/-- A running task that stays running stays live in its slot, and selections advance
towards it. -/
theorem advancing_of_run {start s : State} {later : History} (inv : Integrity start)
    (run : Run step start later s) {j : TaskPtr} (alive : start.live j = true)
    (runs : (start.tasks j).status = .running) (passed : Along (PassedOver j) later) :
    Integrity s ∧ s.live j = true ∧ (s.tasks j).status = .running ∧
      (s.tasks j).id = (start.tasks j).id ∧
      Advancing (start.tasks start.current).id (start.tasks j).id (selections later)
        (s.tasks s.current).id := by
  have inside := inv.seated.bound
  have bound : (start.tasks j).id < nrTasks := (inv.slots _ j (inv.housed j alive)).1
  refine run.history_invariant _ (fun later s => Integrity s ∧ s.live j = true ∧
      (s.tasks j).status = .running ∧ (s.tasks j).id = (start.tasks j).id ∧
      Advancing (start.tasks start.current).id (start.tasks j).id (selections later)
        (s.tasks s.current).id)
    ⟨inv, alive, runs, rfl, rfl, List.Pairwise.nil, (by rintro _ ⟨⟩)⟩ ?_ passed
  rintro past s i s' _ ⟨inv, alive, runs, id, adv⟩ ⟨stays, notChosen⟩ taken
  refine ⟨inv.step taken, step_live inv taken alive (by simp [runs]), stays,
    (step_id inv taken alive).trans id, ?_⟩
  obtain ⟨currentAlive, kind⟩ := step_cases taken
  rcases i.switches with ⟨rounds, rfl⟩ | noPick
  · have nearer := step_nearer inv taken alive stays (notChosen rounds rfl)
    rw [(step_id inv taken alive).trans id] at nearer
    exact adv.select inside bound (inv.step taken).seated.bound nearer
  · have same := kind.current noPick
    have number : (s'.tasks s'.current).id = (s.tasks s.current).id := by
      rw [same]
      exact step_id inv taken currentAlive
    have none : selectedSlot ⟨s, i, s'⟩ = none := by
      cases i with
      | pick rounds => exact absurd rfl (noPick rounds)
      | _ => rfl
    rw [number, selections, List.filterMap_cons_none none]
    exact adv

/-- From any reachable state, as long as a running task stays running without being
selected, the selected slots are pairwise different, its own slot and the slot current at
the beginning are not among them, they are fewer than there are slots, and every further
call of `schedule` returns. In particular a task that is running when `co_eventloop` calls
`schedule` is selected before the event loop's own coroutine is selected again. -/
theorem round_robin_fairness {self : EnvPtr} {clock : Nat → Nat} {past later : History}
    {start s : State} (reached : ThreadRun self clock past start) (run : Run step start later s)
    {j : TaskPtr} (alive : start.live j = true) (runs : (start.tasks j).status = .running)
    (passed : Along (PassedOver j) later) :
    (selections later).Nodup ∧ (start.tasks j).id ∉ selections later ∧
      (start.tasks start.current).id ∉ selections later ∧
      (selections later).length < nrTasks ∧
      ∀ behind rounds, s.pc s.current = .schedule behind →
        ∃ s', step s (.pick (rounds + 1)) = .ok s' := by
  have sound := integrity_of_run reached
  have bound : (start.tasks j).id < nrTasks := (sound.slots _ j (sound.housed j alive)).1
  obtain ⟨inv, alive', runs', id, adv⟩ := advancing_of_run sound run alive runs passed
  refine ⟨adv.nodup, adv.target_notMem, adv.origin_notMem bound, adv.length_lt bound, ?_⟩
  intro behind rounds pc
  have gone : Integrity (s.goto behind) := inv.behind pc
  have running : RunningSlot (s.goto behind) (s.tasks j).id := ⟨j, inv.housed j alive', runs'⟩
  obtain ⟨picked, p, found⟩ := pick_returns gone.tableLive gone.seated
    (inv.slots _ j (inv.housed j alive')).1 running rounds
  obtain ⟨woken, slot, _, held, _⟩ := pick_spec gone.tableLive gone.seated found
  obtain ⟨_, live, _, own⟩ := (gone.woken woken).slots slot p held
  refine ⟨{ picked with current := p }, ?_⟩
  by_cases same : picked.current = p
  · subst same
    simp [step, inv.seated.alive, pc, schedule, found, coSwitchTo, State.deref, live, own,
      bind, Except.bind]
  · simp [step, inv.seated.alive, pc, schedule, found, coSwitchTo, State.deref, live, own,
      bind, Except.bind, same]

/-- A thread creates three coroutines and runs the event loop. -/
def threeCoroutines : List Input := [.create none, .create none, .create none, .eventloop]

/-- Nothing is reported, and the first two coroutines take their turns and sleep. -/
def twoTurns : List Input :=
  [.ready (some []), .pick 1, .sleep 1, .pick 1, .sleep 1]

/-- The two turns are in different slots, neither of them the third coroutine's or the event
loop's, and the next call of `schedule` returns. -/
theorem round_robin_fairness_twoTurns :
    selections (continuedMoves 4 threeCoroutines twoTurns) = [2, 1] ∧
      (selections (continuedMoves 4 threeCoroutines twoTurns)).Nodup ∧
      3 ∉ selections (continuedMoves 4 threeCoroutines twoTurns) ∧
      0 ∉ selections (continuedMoves 4 threeCoroutines twoTurns) ∧
      ∃ s', step (continued 4 threeCoroutines twoTurns) (.pick 1) = .ok s' := by
  have reached := run_of_replay 4 threeCoroutines (by decide) (by decide) (by decide +kernel)
  have run := run_of_continued 4 threeCoroutines twoTurns (by decide) (by decide)
    (by decide +kernel) (by decide +kernel)
  have waits : ∀ move ∈ continuedMoves 4 threeCoroutines twoTurns,
      (move.after.tasks 3).status = .running ∧ move.after.current ≠ 3 := by decide +kernel
  have fair := round_robin_fairness reached run (j := 3) (by decide +kernel) (by decide +kernel)
    fun move member => ⟨(waits move member).1, fun _ _ => (waits move member).2⟩
  obtain ⟨apart, notTarget, notOrigin, _, returns⟩ := fair
  have target : ((replay 4 threeCoroutines).tasks 3).id = 3 := by decide +kernel
  have origin : ((replay 4 threeCoroutines).tasks (replay 4 threeCoroutines).current).id = 0 := by
    decide +kernel
  rw [target] at notTarget
  rw [origin] at notOrigin
  exact ⟨by decide +kernel, apart, notTarget, notOrigin, returns .user 0 (by decide +kernel)⟩

end LibcoLite
