import Mathlib.Logic.Basic

/-!
# Runs of a step function

A step function maps a state and an input, which resolves every choice the environment
makes, to the next state or to an error that ends the run. A run keeps its whole history,
latest transition first, so that a property may speak of what happened before. Two rules
package the induction over runs: one for predicates of a state, one for predicates of a
state and its history.
-/

universe u v

namespace Transition

/-- A computation in sequence succeeds exactly when both of its parts do. -/
theorem bind_eq_ok {ε : Type u} {α β : Type v} {first : Except ε α} {rest : α → Except ε β}
    {result : β} : first >>= rest = .ok result ↔
      ∃ middle, first = .ok middle ∧ rest middle = .ok result := by
  cases first <;> simp [bind, Except.bind]

/-- A computation in sequence fails exactly when one of its parts does. -/
theorem bind_eq_error {ε : Type u} {α β : Type v} {first : Except ε α} {rest : α → Except ε β}
    {failure : ε} : first >>= rest = .error failure ↔
      first = .error failure ∨ ∃ middle, first = .ok middle ∧ rest middle = .error failure := by
  cases first <;> simp [bind, Except.bind]

/-- One performed step with the states around it. -/
structure Move (σ ι : Type*) where
  /-- State before the step. -/
  before : σ
  /-- Choice of the environment. -/
  input : ι
  /-- State after the step. -/
  after : σ

variable {σ ι ε : Type*} {step : σ → ι → Except ε σ} {start : σ}

/-- The step function leads from a start state to a state through a history of moves. -/
inductive Run (step : σ → ι → Except ε σ) (start : σ) : List (Move σ ι) → σ → Prop where
  | start : Run step start [] start
  | move {past : List (Move σ ι)} {s s' : σ} {i : ι} :
      Run step start past s → step s i = .ok s' → Run step start (⟨s, i, s'⟩ :: past) s'

/-- Every move of a history meets a condition. -/
def Along (condition : Move σ ι → Prop) (past : List (Move σ ι)) : Prop :=
  ∀ move ∈ past, condition move

/-- A condition along a longer history holds of its last move and along the rest. -/
theorem along_cons {condition : Move σ ι → Prop} {move : Move σ ι} {past : List (Move σ ι)} :
    Along condition (move :: past) ↔ condition move ∧ Along condition past :=
  List.forall_mem_cons

/-- A condition along two histories in sequence holds along each. -/
theorem along_append {condition : Move σ ι → Prop} {later past : List (Move σ ι)} :
    Along condition (later ++ past) ↔ Along condition later ∧ Along condition past :=
  List.forall_mem_append

/-- Conditions are weakened move by move. -/
theorem Along.mono {condition weaker : Move σ ι → Prop} {past : List (Move σ ι)}
    (along : Along condition past) (weaken : ∀ move, condition move → weaker move) :
    Along weaker past :=
  fun move member => weaken move (along move member)

/-- A state predicate that holds at the start and is kept by every step under a condition
holds at the end of every run along the condition. -/
theorem Run.invariant (condition : Move σ ι → Prop) (holds : σ → Prop)
    (initial : holds start)
    (kept : ∀ s i s', holds s → condition ⟨s, i, s'⟩ → step s i = .ok s' → holds s')
    {past : List (Move σ ι)} {s : σ} (run : Run step start past s)
    (along : Along condition past) : holds s := by
  induction run with
  | start => exact initial
  | move _ taken ih =>
    obtain ⟨last, rest⟩ := along_cons.mp along
    exact kept _ _ _ (ih rest) last taken

/-- The same rule for predicates of the state together with its history. -/
theorem Run.history_invariant (condition : Move σ ι → Prop)
    (holds : List (Move σ ι) → σ → Prop) (initial : holds [] start)
    (kept : ∀ past s i s', Run step start past s → holds past s → condition ⟨s, i, s'⟩ →
      step s i = .ok s' → holds (⟨s, i, s'⟩ :: past) s')
    {past : List (Move σ ι)} {s : σ} (run : Run step start past s)
    (along : Along condition past) : holds past s := by
  induction run with
  | start => exact initial
  | move before taken ih =>
    obtain ⟨last, rest⟩ := along_cons.mp along
    exact kept _ _ _ _ before (ih rest) last taken

/-- A condition on each move of a history together with the moves before it. -/
def Throughout (condition : List (Move σ ι) → Move σ ι → Prop) : List (Move σ ι) → Prop
  | [] => True
  | move :: past => condition past move ∧ Throughout condition past

instance Throughout.decidable (condition : List (Move σ ι) → Move σ ι → Prop)
    [∀ past move, Decidable (condition past move)] :
    (past : List (Move σ ι)) → Decidable (Throughout condition past)
  | [] => .isTrue trivial
  | move :: past =>
    have := Throughout.decidable condition past
    inferInstanceAs (Decidable (condition past move ∧ Throughout condition past))

/-- Conditions that agree on every step of a run agree throughout it. -/
theorem Run.throughout_congr {first second : List (Move σ ι) → Move σ ι → Prop}
    (agree : ∀ past s i s', Run step start past s → step s i = .ok s' →
      (first past ⟨s, i, s'⟩ ↔ second past ⟨s, i, s'⟩))
    {past : List (Move σ ι)} {s : σ} (run : Run step start past s) :
    Throughout first past ↔ Throughout second past := by
  induction run with
  | start => exact Iff.rfl
  | move before taken ih => exact and_congr (agree _ _ _ _ before taken) ih

/-- A predicate of state and history that every step keeps under a condition on the move and
its history holds at the end of every run throughout which the condition holds. -/
theorem Run.throughout_invariant (condition : List (Move σ ι) → Move σ ι → Prop)
    (holds : List (Move σ ι) → σ → Prop) (initial : holds [] start)
    (kept : ∀ past s i s', Run step start past s → holds past s → condition past ⟨s, i, s'⟩ →
      step s i = .ok s' → holds (⟨s, i, s'⟩ :: past) s')
    {past : List (Move σ ι)} {s : σ} (run : Run step start past s)
    (along : Throughout condition past) : holds past s := by
  induction run with
  | start => exact initial
  | move before taken ih =>
    obtain ⟨last, rest⟩ := along
    exact kept _ _ _ _ before (ih rest) last taken

/-- Two runs compose, the later history in front. -/
theorem Run.trans {middle : σ} {past later : List (Move σ ι)} {s : σ}
    (first : Run step start past middle) (second : Run step middle later s) :
    Run step start (later ++ past) s := by
  induction second with
  | start => exact first
  | move _ taken ih => exact .move ih taken

/-- A run splits wherever its history does. -/
theorem Run.split {past later : List (Move σ ι)} {s : σ} (run : Run step start (later ++ past) s) :
    ∃ middle, Run step start past middle ∧ Run step middle later s := by
  induction later generalizing s with
  | nil => exact ⟨s, run, .start⟩
  | cons move later ih =>
    cases run with
    | move before taken =>
      obtain ⟨middle, first, second⟩ := ih before
      exact ⟨middle, first, .move second taken⟩

/-- Each move of a run is a step from a state that the moves before it reach. -/
theorem Run.taken {past : List (Move σ ι)} {s : σ} (run : Run step start past s)
    {move : Move σ ι} (member : move ∈ past) :
    ∃ earlier, Run step start earlier move.before ∧
      step move.before move.input = .ok move.after := by
  induction run with
  | start => cases member
  | move before taken ih =>
    rcases List.mem_cons.mp member with rfl | member
    · exact ⟨_, before, taken⟩
    · exact ih member

/-- A run of a step function that agrees with another one wherever an invariant holds is a
run of the other one. -/
theorem Run.replace {other : σ → ι → Except ε σ} (holds : σ → Prop) (initial : holds start)
    (agrees : ∀ s i s', holds s → other s i = .ok s' → step s i = .ok s' ∧ holds s')
    {past : List (Move σ ι)} {s : σ} (run : Run other start past s) :
    Run step start past s ∧ holds s := by
  induction run with
  | start => exact ⟨.start, initial⟩
  | move _ taken ih =>
    obtain ⟨same, kept⟩ := agrees _ _ _ ih.2 taken
    exact ⟨.move ih.1 same, kept⟩

/-- A move of one system seen as a move of another. -/
def Move.view {σ' κ : Type*} (state : σ → σ') (input : σ → ι → κ) (move : Move σ ι) :
    Move σ' κ :=
  ⟨state move.before, input move.before move.input, state move.after⟩

/-- When every step of one system is a step of another for what is seen of it, its runs are
runs of the other. -/
theorem Run.project {σ' κ ε' : Type*} {other : σ' → κ → Except ε' σ'} (state : σ → σ')
    (input : σ → ι → κ)
    (simulates : ∀ s i s', step s i = .ok s' → other (state s) (input s i) = .ok (state s'))
    {past : List (Move σ ι)} {s : σ} (run : Run step start past s) :
    Run other (state start) (past.map (Move.view state input)) (state s) := by
  induction run with
  | start => exact .start
  | move _ taken ih => exact .move ih (simulates _ _ _ taken)

/-- A condition along what is seen of a history is one along the history. -/
theorem along_view {σ' κ : Type*} {state : σ → σ'} {input : σ → ι → κ}
    {condition : Move σ' κ → Prop} {past : List (Move σ ι)} :
    Along condition (past.map (Move.view state input)) ↔
      Along (fun move => condition (move.view state input)) past :=
  List.forall_mem_map

/-- Execute a list of inputs in order. -/
def execute (step : σ → ι → Except ε σ) : σ → List ι → Except ε σ
  | s, [] => .ok s
  | s, i :: rest => (step s i).bind fun s' => execute step s' rest

/-- An execution that goes on after a list of inputs goes on from where they lead. -/
theorem execute_append {s : σ} (first second : List ι) :
    execute step s (first ++ second) =
      (execute step s first).bind fun s => execute step s second := by
  induction first generalizing s with
  | nil => rfl
  | cons i rest ih =>
    simp only [List.cons_append, execute]
    cases step s i with
    | error stop => rfl
    | ok middle => exact ih

/-- The moves an execution performs, latest first. -/
def movesOf (step : σ → ι → Except ε σ) : σ → List ι → List (Move σ ι)
  | _, [] => []
  | s, i :: rest =>
    match step s i with
    | .ok s' => movesOf step s' rest ++ [⟨s, i, s'⟩]
    | .error _ => []

/-- A successful execution is a run with the history of its moves. -/
theorem run_of_execute {s s' : σ} {inputs : List ι} (done : execute step s inputs = .ok s') :
    Run step s (movesOf step s inputs) s' := by
  induction inputs generalizing s with
  | nil =>
    obtain rfl : s = s' := by simpa [execute] using done
    exact .start
  | cons i rest ih =>
    cases taken : step s i with
    | error e => simp [execute, taken, Except.bind] at done
    | ok middle =>
      have tail := @ih middle (by simpa [execute, taken, Except.bind] using done)
      simpa [movesOf, taken] using Run.trans (.move .start taken) tail

/-- The state an execution leads to, the start if it fails. -/
def outcome (step : σ → ι → Except ε σ) (start : σ) (inputs : List ι) : σ :=
  match execute step start inputs with
  | .ok s => s
  | .error _ => start

/-- An execution that succeeds is a run to its outcome. -/
theorem run_of_outcome (inputs : List ι) (done : (execute step start inputs).isOk = true) :
    Run step start (movesOf step start inputs) (outcome step start inputs) := by
  cases result : execute step start inputs with
  | error e => simp [result, Except.isOk, Except.toBool] at done
  | ok s =>
    have reached : outcome step start inputs = s := by rw [outcome, result]
    rw [reached]
    exact run_of_execute result

end Transition
