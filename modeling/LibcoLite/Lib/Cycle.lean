import Mathlib.Logic.Basic

/-!
# Positions on a cycle

A walk that starts behind a position `origin` of a cycle of `size` positions meets every
position once and the origin last. `ahead` counts its steps to a position. Comparing these
counts tells which of two positions the walk meets first, and a walk that is interrupted
at a position it meets before `target` resumes with the rest of the way to `target`.
-/

namespace Cycle

/-- Steps from a position forward to a position, the whole cycle for the position itself. -/
def ahead (size origin position : Nat) : Nat :=
  if origin < position then position - origin else position + size - origin

variable {size origin position target : Nat}

/-- No position is reached in zero steps. -/
theorem ahead_pos (inside : origin < size) : 0 < ahead size origin position := by
  unfold ahead; split <;> omega

/-- Every position is reached within one round. -/
theorem ahead_le (bound : position < size) : ahead size origin position ≤ size := by
  unfold ahead; split <;> omega

/-- A whole round leads back to the origin. -/
theorem ahead_self : ahead size origin origin = size := by
  simp [ahead]

/-- Only the origin itself takes a whole round. -/
theorem ahead_lt (inside : origin < size) (bound : position < size) (other : position ≠ origin) :
    ahead size origin position < size := by
  unfold ahead; split <;> omega

/-- The position met after a number of steps. -/
def reached (size origin steps : Nat) : Nat :=
  if origin + steps < size then origin + steps else origin + steps - size

/-- Positions are met on the cycle. -/
theorem reached_lt (inside : origin < size) {steps : Nat} (bound : steps ≤ size) :
    reached size origin steps < size := by
  unfold reached; split <;> omega

/-- Counting the steps to the position met after some steps gives these steps. -/
theorem ahead_reached (inside : origin < size) {steps : Nat} (some : 0 < steps)
    (bound : steps ≤ size) : ahead size origin (reached size origin steps) = steps := by
  unfold reached ahead
  split <;> split <;> omega

/-- The position met after the counted steps is the position. -/
theorem reached_ahead (inside : origin < size) (bound : position < size) :
    reached size origin (ahead size origin position) = position := by
  unfold reached ahead
  repeat' split
  all_goals omega

/-- One step of the walk is an increment modulo the size. -/
theorem reached_succ (inside : origin < size) {steps : Nat} (bound : steps < size) :
    (reached size origin steps + 1) % size = reached size origin (steps + 1) := by
  by_cases wraps : origin + (steps + 1) = size
  · have last : reached size origin steps + 1 = size := by
      unfold reached; split <;> omega
    rw [last, Nat.mod_self]
    simp [reached, wraps]
  · have small : reached size origin steps + 1 < size := by
      unfold reached; split <;> omega
    rw [Nat.mod_eq_of_lt small]
    unfold reached
    split <;> split <;> omega

/-- Before any step the walk is at its origin. -/
theorem reached_zero (inside : origin < size) : reached size origin 0 = origin := by
  simp [reached, inside]

/-- Two positions met after the same number of steps are the same. -/
theorem ahead_inj (inside : origin < size) (bound : position < size) (bound' : target < size)
    (same : ahead size origin position = ahead size origin target) : position = target := by
  rw [← reached_ahead inside bound, same, reached_ahead inside bound']

/-- Within one round, the steps of two successive ways add up. -/
theorem ahead_add (inside : origin < size) (bound : position < size)
    (within : ahead size origin position + ahead size position target ≤ size) :
    ahead size origin target = ahead size origin position + ahead size position target := by
  unfold ahead at *
  repeat' split
  all_goals repeat' split at within
  all_goals omega

/-- From a position met before the target, the rest of the way remains. -/
theorem ahead_sub (inside : origin < size) (bound : position < size) (bound' : target < size)
    (earlier : ahead size origin position < ahead size origin target) :
    ahead size position target = ahead size origin target - ahead size origin position := by
  unfold ahead at *
  repeat' split
  all_goals repeat' split at earlier
  all_goals omega

/-- Two positions ahead stay in their order when the origin moves on to a nearer one. -/
theorem ahead_turn {goal : Nat} (inside : origin < size) (bound : position < size)
    (bound' : target < size) (bound'' : goal < size)
    (nearer : ahead size origin position < ahead size origin target)
    (before : ahead size origin target < ahead size origin goal) :
    ahead size position target < ahead size position goal := by
  rw [ahead_sub inside bound bound' nearer,
    ahead_sub inside bound bound'' (Nat.lt_trans nearer before)]
  omega

end Cycle
