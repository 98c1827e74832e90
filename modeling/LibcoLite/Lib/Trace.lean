import LibcoLite.Lib.Run

/-!
# Runs of a step relation

A specification that leaves choices open is a relation between states. Its runs keep their
history as those of a step function do. A step function whose steps are steps of the relation,
for what is seen of its states, has runs of the relation only, so that what the relation
guarantees along every history holds along the histories of the function.
-/

namespace Transition

variable {σ τ ι ε : Type*} {relation : τ → ι → τ → Prop} {origin : τ}

/-- The step relation leads from a start state to a state through a history of moves. -/
inductive Trace (relation : τ → ι → τ → Prop) (origin : τ) : List (Move τ ι) → τ → Prop where
  | start : Trace relation origin [] origin
  | move {past : List (Move τ ι)} {t t' : τ} {i : ι} :
      Trace relation origin past t → relation t i t' → Trace relation origin (⟨t, i, t'⟩ :: past) t'

/-- A predicate of state and history that every step keeps holds at the end of every trace. -/
theorem Trace.history_invariant (holds : List (Move τ ι) → τ → Prop) (initial : holds [] origin)
    (kept : ∀ past t i t', holds past t → relation t i t' → holds (⟨t, i, t'⟩ :: past) t')
    {past : List (Move τ ι)} {t : τ} (trace : Trace relation origin past t) : holds past t := by
  induction trace with
  | start => exact initial
  | move _ taken ih => exact kept _ _ _ _ ih taken

/-- When every step that a run takes under a condition is a step of the relation for what is seen
of it, the run is a trace of the relation. -/
theorem Run.simulates {step : σ → ι → Except ε σ} {start : σ} (view : σ → τ)
    (condition : Move σ ι → Prop)
    (each : ∀ past s i s', Run step start past s → Along condition (⟨s, i, s'⟩ :: past) →
      step s i = .ok s' → relation (view s) i (view s'))
    {past : List (Move σ ι)} {s : σ} (run : Run step start past s)
    (along : Along condition past) :
    Trace relation (view start) (past.map (Move.view view fun _ i => i)) (view s) := by
  induction run with
  | start => exact .start
  | move before taken ih =>
    exact .move (ih (along_cons.mp along).2) (each _ _ _ _ before along taken)

end Transition
