import LibcoLite.Integrity

/-!
# Replaying runs with few tasks

`pick` visits all slots of the table. While only the first few slots are occupied, looking
at those gives the same result, so that a run of a small scenario can be evaluated. A
replayed run is a run.
-/

namespace LibcoLite

open Transition (Run bind_eq_ok execute movesOf outcome run_of_outcome)
open Cycle

instance (s : State) (j : Nat) : Decidable (RunningSlot s j) :=
  match slot : s.task j with
  | none => .isFalse (by simp [RunningSlot, slot])
  | some p =>
    decidable_of_iff ((s.tasks p).status = .running)
      ⟨fun running => ⟨p, slot, running⟩, fun ⟨_, held, running⟩ =>
        Option.some.inj (slot.symm.trans held) ▸ running⟩

/-- Among the first slots, the running one that a walk behind a current slot meets first. -/
def nearestWithin (size : Nat) (s : State) (current : Nat) : Option Nat :=
  (List.range size).find? fun j => decide (RunningSlot s j ∧
    ∀ k < size, ahead nrTasks current k < ahead nrTasks current j → ¬RunningSlot s k)

/-- The first round of `pick`, looking at the first slots only. -/
def pickWithin (size : Nat) (s : State) : Except Stop (State × TaskPtr) := do
  let s ← (List.range size).foldlM wakeSlot s
  match nearestWithin size s (s.tasks s.current).id with
  | none => .error .spinning
  | some j =>
    match s.task j with
    | none => .error .spinning
    | some p => .ok (s, p)

/-- One step in a table whose first slots only are occupied. -/
def stepWithin (size : Nat) (s : State) (i : Input) : Except Stop State :=
  match i with
  | .pick (_ + 1) =>
    if s.live s.current then
      match s.pc s.current with
      | .schedule behind => do
        let (s, next) ← pickWithin size (s.goto behind)
        coSwitchTo s next
      | _ => .error .disabled
    else .error (.fault .freed)
  | .create cid =>
    if firstFree s.task nrTasks 0 < size then step s (.create cid) else .error .bounds
  | i => step s i

/-- No slot is occupied from a number on. -/
def EmptyFrom (size : Nat) (s : State) : Prop := ∀ i, size ≤ i → s.task i = none

variable {size : Nat} {s : State}

/-- Scanning free slots does nothing. -/
theorem foldlM_wakeSlot_free {slots : List Nat} (free : ∀ i ∈ slots, s.task i = none) :
    slots.foldlM wakeSlot s = .ok s := by
  induction slots with
  | nil => rfl
  | cons i rest ih =>
    have here : wakeSlot s i = .ok s := by
      unfold wakeSlot
      rw [free i List.mem_cons_self]
    rw [List.foldlM_cons, here]
    exact ih fun k member => free k (List.mem_cons_of_mem i member)

/-- Scanning all slots has the outcome of scanning the occupied ones. -/
theorem scan_eq {middle : State} (few : size ≤ nrTasks) (empty : EmptyFrom size s)
    (table : TableLive s) (scanned : (List.range size).foldlM wakeSlot s = .ok middle) :
    scan s = .ok middle := by
  have split : List.range nrTasks =
      List.range size ++ (List.range (nrTasks - size)).map (size + ·) := by
    rw [← List.range_add, Nat.add_sub_cancel' few]
  obtain ⟨_, again, woken⟩ := foldlM_wakeSlot_spec table (List.range size)
  obtain rfl := Except.ok.inj (again.symm.trans scanned)
  rw [scan, split, List.foldlM_append, scanned]
  refine foldlM_wakeSlot_free fun i member => ?_
  obtain ⟨k, _, rfl⟩ := List.mem_map.mp member
  rw [woken.env]
  exact empty _ (Nat.le_add_right size k)

/-- Looking at the occupied slots only gives the result of `pick`. -/
theorem pick_eq (few : size ≤ nrTasks) (empty : EmptyFrom size s) (inv : Integrity s)
    {s' : State} {p : TaskPtr} (found : pickWithin size s = .ok (s', p)) (rounds : Nat) :
    pick (rounds + 1) s = .ok (s', p) := by
  obtain ⟨middle, scanned, found⟩ := bind_eq_ok.mp found
  obtain ⟨again, whole, woken, outcome⟩ := pick_round inv.tableLive inv.seated rounds
  have scans := scan_eq few empty inv.tableLive scanned
  obtain rfl : again = middle := Except.ok.inj (whole.symm.trans scans)
  have same : (again.tasks again.current).id = (s.tasks s.current).id := by
    rw [congrArg ThreadEnv.current woken.env, woken.fields]
  cases nearest : nearestWithin size again (again.tasks again.current).id with
  | none => simp [nearest] at found
  | some j => ?_
  cases slot : again.task j with
  | none => simp [nearest, slot] at found
  | some q => ?_
  simp only [nearest, slot, Except.ok.injEq, Prod.mk.injEq] at found
  obtain ⟨rfl, rfl⟩ := found
  have bound : j < size := List.mem_range.mp (List.mem_of_find?_eq_some nearest)
  have chosen := List.find?_some nearest
  simp only [decide_eq_true_eq] at chosen
  obtain ⟨running, first⟩ := chosen
  rw [same] at first
  rcases outcome with ⟨p, ok, picked⟩ | ⟨_, idle⟩
  · obtain ⟨i, small, held, runs, before⟩ := picked.nearest
    -- each of the two slots is not farther than the other
    have inside : i < size := Nat.lt_of_not_le fun far => by
      have free := empty i far
      rw [← congrArg ThreadEnv.task woken.env, held] at free
      cases free
    have notNearer : ¬ahead nrTasks (s.tasks s.current).id i <
        ahead nrTasks (s.tasks s.current).id j :=
      fun nearer => first i inside nearer ⟨p, held, runs⟩
    have notFarther : ¬ahead nrTasks (s.tasks s.current).id j <
        ahead nrTasks (s.tasks s.current).id i := fun nearer =>
      before j (by omega) nearer running
    obtain rfl : i = j := ahead_inj inv.seated.bound small (by omega) (by omega)
    rw [ok, Option.some.inj (held.symm.trans slot)]
  · exact absurd running (idle j (by omega))

/-- A replayed step is a step, and keeps the further slots free. -/
theorem step_of_within (few : size ≤ nrTasks) {s' : State} {i : Input} (inv : Integrity s)
    (empty : EmptyFrom size s) (taken : stepWithin size s i = .ok s') :
    step s i = .ok s' ∧ Integrity s' ∧ EmptyFrom size s' := by
  have same : step s i = .ok s' := by
    unfold stepWithin at taken
    split at taken
    case h_1 rounds =>
      split at taken
      case isFalse => contradiction
      rename_i alive
      split at taken
      · rename_i behind pc
        obtain ⟨⟨picked, p⟩, found, switched⟩ := bind_eq_ok.mp taken
        have gone : Integrity (s.goto behind) := inv.behind pc
        have returned := pick_eq few (s := s.goto behind) empty gone found rounds
        simp only [step, alive, pc, ↓reduceIte, schedule, returned, bind, Except.bind]
        exact switched
      · contradiction
    case h_2 cid =>
      split at taken
      · exact taken
      · contradiction
    case h_3 => exact taken
  refine ⟨same, inv.step same, ?_⟩
  intro i far
  cases step_table inv same with
  | fills cid id pc bound free lowest table =>
    have low : id < size := by
      by_cases inside : firstFree s.task nrTasks 0 < size
      · obtain ⟨_, _, _, stops⟩ := firstFree_spec s.task nrTasks 0
        have free' := stops (by omega)
        exact Nat.lt_of_le_of_lt (Nat.le_of_not_lt fun below => lowest _ below free') inside
      · simp [stepWithin, inside] at taken
    rw [table, Function.update_of_ne (by omega)]
    exact empty i far
  | clears cid p pc slot exited table =>
    rw [table]
    by_cases here : i = cid
    · rw [here, Function.update_self]
    · rw [Function.update_of_ne here]
      exact empty i far
  | keeps table =>
    rw [table]
    exact empty i far

/-- A clock that advances by a millisecond from reading to reading. -/
def ticking (reading : Nat) : Nat := reading * 1000

/-- The start of a scenario. -/
def scenarioStart : State := State.init 0 ticking

/-- The state a scenario leads to, the start if it cannot be performed. -/
def replay (size : Nat) (inputs : List Input) : State :=
  outcome (stepWithin size) scenarioStart inputs

/-- The moves of a scenario, latest first. -/
def replayMoves (size : Nat) (inputs : List Input) : History :=
  movesOf (stepWithin size) scenarioStart inputs

/-- The state a second scenario leads to behind a first one. -/
def continued (size : Nat) (first second : List Input) : State :=
  outcome (stepWithin size) (replay size first) second

/-- The moves of the second scenario, latest first. -/
def continuedMoves (size : Nat) (first second : List Input) : History :=
  movesOf (stepWithin size) (replay size first) second

/-- What can be performed in a table whose first slots only are occupied is a run, and leaves the
other slots free. -/
theorem run_of_within_table (few : size ≤ nrTasks) (inputs : List Input) (inv : Integrity s)
    (empty : EmptyFrom size s) (performed : (execute (stepWithin size) s inputs).isOk = true) :
    Run step s (movesOf (stepWithin size) s inputs) (outcome (stepWithin size) s inputs) ∧
      Integrity (outcome (stepWithin size) s inputs) ∧
      EmptyFrom size (outcome (stepWithin size) s inputs) :=
  (run_of_outcome inputs performed).replace (fun s => Integrity s ∧ EmptyFrom size s)
    ⟨inv, empty⟩ fun _ _ _ inv taken => step_of_within few inv.1 inv.2 taken

/-- At the start of a thread the first slot is occupied. -/
theorem emptyFrom_scenarioStart (some : 0 < size) : EmptyFrom size scenarioStart := by
  intro i far
  have behind : i ≠ 0 := by omega
  simp [scenarioStart, State.init, behind]

/-- A scenario that can be performed is a run. -/
theorem run_of_replay (size : Nat) (inputs : List Input) (small : size ≤ nrTasks)
    (some : 0 < size)
    (performed : (execute (stepWithin size) scenarioStart inputs).isOk = true) :
    ThreadRun 0 ticking (replayMoves size inputs) (replay size inputs) :=
  (run_of_within_table small inputs (Integrity.init 0 _) (emptyFrom_scenarioStart some)
    performed).1

/-- A scenario that can be performed behind another one is a run from where that leads. -/
theorem run_of_continued (size : Nat) (first second : List Input) (small : size ≤ nrTasks)
    (some : 0 < size)
    (performed : (execute (stepWithin size) scenarioStart first).isOk = true)
    (goesOn : (execute (stepWithin size) (replay size first) second).isOk = true) :
    Run step (replay size first) (continuedMoves size first second)
      (continued size first second) := by
  obtain ⟨_, inv, empty⟩ := run_of_within_table small first (Integrity.init 0 _)
    (emptyFrom_scenarioStart some) performed
  exact (run_of_within_table small second inv empty goesOn).1

end LibcoLite
