import LibcoLite.Lib.Run

/-!
# What a step function leads to

A step function can lead from a state to states of a kind. A measure that can always be made
smaller leads to the kind in the end; and where the choices of the environment make no
difference, what can be reached is what every run comes to.
-/

namespace Transition

variable {σ ι ε : Type*} {step : σ → ι → Except ε σ} {start s s' : σ} {goal : σ → Prop}

/-- Some run leads from a state to one of a kind. -/
def Reaches (step : σ → ι → Except ε σ) (s : σ) (goal : σ → Prop) : Prop :=
  ∃ later s', Run step s later s' ∧ goal s'

namespace Reaches

/-- A state of the kind has been reached. -/
theorem here (holds : goal s) : Reaches step s goal := ⟨[], s, .start, holds⟩

/-- What is reached behind two runs is reached. -/
theorem trans {middle : σ → Prop} (first : Reaches step s middle)
    (second : ∀ s', middle s' → Reaches step s' goal) : Reaches step s goal := by
  obtain ⟨later, s', run, holds⟩ := first
  obtain ⟨later', s'', run', ends⟩ := second s' holds
  exact ⟨later' ++ later, s'', run.trans run', ends⟩

/-- What is reached behind a step is reached. -/
theorem move {i : ι} (taken : step s i = .ok s') (behind : Reaches step s' goal) :
    Reaches step s goal := by
  obtain ⟨later, s'', run, ends⟩ := behind
  exact ⟨_, s'', Run.trans (.move .start taken) run, ends⟩

/-- A state of a wider kind is reached. -/
theorem mono {wider : σ → Prop} (reaches : Reaches step s goal)
    (widen : ∀ s', goal s' → wider s') : Reaches step s wider :=
  reaches.trans fun s' holds => .here (widen s' holds)

/-- Where every state with an invariant leads to the kind, or to a state with the invariant and a
smaller measure, it leads to the kind. -/
theorem rank (measure : σ → Nat) (inv : σ → Prop)
    (onward : ∀ s, inv s → Reaches step s fun s' => goal s' ∨ inv s' ∧ measure s' < measure s)
    (holds : inv s) : Reaches step s goal := by
  induction left : measure s using Nat.strongRecOn generalizing s with
  | _ left' ih =>
    refine (onward s holds).trans fun s' nearer => ?_
    rcases nearer with done | ⟨between, less⟩
    · exact .here done
    · exact ih (measure s') (left ▸ less) between rfl

end Reaches

/-- A run of some steps begins with one. -/
theorem Run.first {move : Move σ ι} {past : List (Move σ ι)}
    (run : Run step start (move :: past) s) : ∃ i s', step start i = .ok s' := by
  induction past generalizing move s with
  | nil =>
    cases run with
    | move before taken =>
      cases before
      exact ⟨_, _, taken⟩
  | cons earlier past ih =>
    cases run with
    | move before taken => exact ih before

/-- The choices of the environment make no difference in the states that are reached. -/
def Forced (step : σ → ι → Except ε σ) (start : σ) : Prop :=
  ∀ past s i j s' s'', Run step start past s → step s i = .ok s' → step s j = .ok s'' → s' = s''

namespace Forced

variable {past later : List (Move σ ι)}

/-- Runs of one length come to the same state. -/
theorem unique (forced : Forced step start) (first : Run step start past s)
    (second : Run step start later s') (length : past.length = later.length) : s = s' := by
  induction first generalizing later s' with
  | start =>
    cases second with
    | start => rfl
    | move => cases length
  | move before taken ih =>
    cases second with
    | start => cases length
    | move before' taken' =>
      have same := ih before' (Nat.succ.inj length)
      rw [← same] at taken'
      exact forced _ _ _ _ _ _ before taken taken'

/-- A run leads to where a longer one comes to. -/
theorem leads (forced : Forced step start) (first : Run step start past s)
    (second : Run step start later s') (shorter : past.length ≤ later.length) :
    ∃ rest, Run step s rest s' ∧ past.length + rest.length = later.length := by
  have cut := List.take_append_drop (later.length - past.length) later
  rw [← cut] at second
  obtain ⟨middle, early, rest⟩ := second.split
  have length : past.length = (later.drop (later.length - past.length)).length := by
    rw [List.length_drop]
    omega
  obtain rfl := forced.unique first early length
  refine ⟨_, rest, ?_⟩
  rw [List.length_take]
  omega

/-- No run is longer than one that comes to an end. -/
theorem longest (forced : Forced step start) (first : Run step start past s)
    (ends : ∀ i s', step s i ≠ .ok s') (second : Run step start later s') :
    later.length ≤ past.length := by
  apply Classical.byContradiction
  intro longer
  obtain ⟨rest, onward, length⟩ := forced.leads first second (by omega)
  cases rest with
  | nil =>
    rw [List.length_nil] at length
    omega
  | cons move rest =>
    obtain ⟨i, s', taken⟩ := onward.first
    exact ends i s' taken

end Forced

end Transition
