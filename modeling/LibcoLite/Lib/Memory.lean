import Mathlib.Data.BitVec
import Mathlib.Logic.Function.Basic

/-!
# Byte-addressed memory

A memory maps every address to a byte. Addresses and words have the same width, a number of
bytes, and words are stored with their lowest byte first. Ranges of addresses wrap around at
the end of the address space.
-/

namespace ByteMemory

/-- A word of a number of bytes, and an address. -/
abbrev Word (n : Nat) := BitVec (8 * n)

/-- A memory of bytes. -/
abbrev Memory (n : Nat) := Word n → BitVec 8

variable {n : Nat} {mem mem' : Memory n} {a b x : Word n}

/-! ## Ranges -/

/-- An address lies in the range of a length from a start address on. -/
def Within (a : Word n) (len : Nat) (x : Word n) : Prop := (x - a).toNat < len

instance (a : Word n) (len : Nat) (x : Word n) : Decidable (Within a len x) :=
  inferInstanceAs (Decidable ((x - a).toNat < len))

/-- Two ranges have no address in common. -/
def Apart (a : Word n) (len : Nat) (b : Word n) (len' : Nat) : Prop :=
  ∀ x, Within a len x → ¬Within b len' x

/-- Separation is symmetric. -/
theorem Apart.symm {len len' : Nat} (apart : Apart a len b len') : Apart b len' a len :=
  fun x there here => apart x here there

/-- Longer ranges contain shorter ones. -/
theorem Within.mono {len len' : Nat} (within : Within a len x) (le : len ≤ len') :
    Within a len' x := Nat.lt_of_lt_of_le within le

/-- The distance of an address from a number of bytes behind a start address. -/
theorem toNat_sub_ofNat {y : Word n} {d : Nat} (bound : d < 2 ^ (8 * n)) :
    (y - BitVec.ofNat _ d).toNat =
      if d ≤ y.toNat then y.toNat - d else y.toNat + 2 ^ (8 * n) - d := by
  have small := y.isLt
  rw [BitVec.toNat_sub, BitVec.toNat_ofNat, Nat.mod_eq_of_lt bound]
  split
  · rename_i le
    rw [show 2 ^ (8 * n) - d + y.toNat = y.toNat - d + 2 ^ (8 * n) by omega, Nat.add_mod_right,
      Nat.mod_eq_of_lt (by omega)]
  · rw [Nat.mod_eq_of_lt (by omega)]
    omega

/-- A range consists of its first part and the range behind that part. -/
theorem within_add {len len' : Nat} (fits : len + len' ≤ 2 ^ (8 * n)) :
    Within a (len + len') x ↔ Within a len x ∨ Within (a + BitVec.ofNat _ len) len' x := by
  unfold Within
  by_cases none : len' = 0
  · simp [none]
  have small := (x - a).isLt
  rw [sub_add_eq_sub_sub, toNat_sub_ofNat (by omega)]
  split <;> omega

/-- The two parts of a range are apart. -/
theorem apart_add {len len' : Nat} (fits : len + len' ≤ 2 ^ (8 * n)) :
    Apart a len (a + BitVec.ofNat _ len) len' := by
  intro x here there
  unfold Within at *
  rw [sub_add_eq_sub_sub, toNat_sub_ofNat (by omega)] at there
  split at there <;> omega

/-- Two ranges are apart when each begins behind the other one. -/
theorem apart_of_le {len len' : Nat} (behind : len ≤ (b - a).toNat)
    (before : len' ≤ (a - b).toNat) : Apart a len b len' := by
  intro x here there
  unfold Within at *
  have apart : (b - a).toNat < 2 ^ (8 * n) := (b - a).isLt
  rw [← neg_sub b a, BitVec.toNat_neg, Nat.mod_eq_of_lt (by omega)] at before
  rw [← sub_sub_sub_cancel_right x b a, BitVec.toNat_sub, Nat.mod_eq_of_lt (by omega)] at there
  omega

/-- The range of an offset lies in a longer range. -/
theorem Within.of_offset {d len len' : Nat} (inside : d + len ≤ len') (fits : len' ≤ 2 ^ (8 * n))
    (within : Within (a + BitVec.ofNat _ d) len x) : Within a len' x := by
  have front : Within a (d + len) x := (within_add (by omega)).mpr (.inr within)
  exact front.mono inside

/-- Ranges of two offsets are apart when the first one ends before the second one. -/
theorem apart_offsets {d e len len' : Nat} (behind : d + len ≤ e)
    (fits : e + len' ≤ 2 ^ (8 * n)) :
    Apart (a + BitVec.ofNat _ d) len (a + BitVec.ofNat _ e) len' := by
  intro x here there
  exact apart_add fits x (here.of_offset behind (by omega)) there

/-- The addresses of a range. -/
theorem within_offset {i len : Nat} (inside : i < len) : Within a len (a + BitVec.ofNat _ i) := by
  unfold Within
  rw [add_sub_cancel_left, BitVec.toNat_ofNat]
  exact Nat.lt_of_le_of_lt (Nat.mod_le _ _) inside

/-! ## Words in memory -/

/-- The number that the bytes from an address on spell, lowest byte first. -/
def readBytes (mem : Memory n) : (k : Nat) → Word n → BitVec (8 * k)
  | 0, _ => 0
  | k + 1, a => (readBytes mem k (a + 1) ++ mem a : BitVec (8 * k + 8))

/-- Read a word. -/
def read (mem : Memory n) (a : Word n) : Word n := readBytes mem n a

/-- Write a word. -/
def write (mem : Memory n) (a v : Word n) : Memory n :=
  fun x => if Within a n x then v.extractLsb' (8 * (x - a).toNat) 8 else mem x

/-- Write a number of bytes that need not be a word. -/
def writeBytes (mem : Memory n) (k : Nat) (a : Word n) (v : BitVec (8 * k)) : Memory n :=
  fun x => if Within a k x then v.extractLsb' (8 * (x - a).toNat) 8 else mem x

/-- Zero a range. -/
def zero (mem : Memory n) (a : Word n) (len : Nat) : Memory n :=
  fun x => if Within a len x then 0 else mem x

/-- Every bit read is a bit of one of the bytes. -/
theorem getLsbD_readBytes {k i : Nat} (inside : i < 8 * k) :
    (readBytes mem k a).getLsbD i = (mem (a + BitVec.ofNat _ (i / 8))).getLsbD (i % 8) := by
  induction k generalizing a i with
  | zero => omega
  | succ k ih =>
    rw [readBytes]
    refine BitVec.getLsbD_append.trans ?_
    split
    · rename_i low
      rw [Nat.div_eq_of_lt low, Nat.mod_eq_of_lt low]
      simp
    · rename_i high
      rw [ih (by omega), show i / 8 = 1 + (i - 8) / 8 by omega, show (i - 8) % 8 = i % 8 by omega,
        BitVec.ofNat_add, add_assoc]
      rfl

/-- Reading depends on the range of the word only. -/
theorem read_congr (same : ∀ x, Within a n x → mem x = mem' x) : read mem a = read mem' a := by
  refine BitVec.eq_of_getLsbD_eq fun i inside => ?_
  rw [read, read, getLsbD_readBytes inside, getLsbD_readBytes inside,
    same _ (within_offset (by omega))]

/-- A written word is read back. -/
@[simp]
theorem read_write_self (v : Word n) : read (write mem a v) a = v := by
  refine BitVec.eq_of_getLsbD_eq fun i inside => ?_
  have small : i / 8 < 2 ^ (8 * n) :=
    Nat.lt_of_lt_of_le (by omega : i / 8 < 8 * n) Nat.lt_two_pow_self.le
  rw [read, getLsbD_readBytes inside, write, if_pos (within_offset (by omega)),
    add_sub_cancel_left, BitVec.toNat_ofNat, Nat.mod_eq_of_lt small, BitVec.getLsbD_extractLsb']
  simp [Nat.mod_lt, Nat.div_add_mod]

/-- Writing changes the range of the word only. -/
theorem write_other {v : Word n} (outside : ¬Within a n x) : write mem a v x = mem x :=
  if_neg outside

/-! ## Words in a row -/

/-- The words in a row from an address on. -/
def Stacked (mem : Memory n) : Word n → List (Word n) → Prop
  | _, [] => True
  | a, v :: rest => read mem a = v ∧ Stacked mem (a + BitVec.ofNat _ n) rest

/-- Rows follow one another. -/
theorem stacked_append {front rest : List (Word n)} :
    Stacked mem a (front ++ rest) ↔
      Stacked mem a front ∧ Stacked mem (a + BitVec.ofNat _ (n * front.length)) rest := by
  induction front generalizing a with
  | nil => simp [Stacked]
  | cons v front ih =>
    rw [List.cons_append, Stacked, Stacked, ih, List.length_cons, Nat.mul_succ,
      Nat.add_comm (n * front.length), BitVec.ofNat_add, add_assoc, and_assoc]

/-- A row depends on its range only. -/
theorem Stacked.congr {values : List (Word n)} (fits : n * values.length ≤ 2 ^ (8 * n))
    (stacked : Stacked mem a values)
    (same : ∀ x, Within a (n * values.length) x → mem' x = mem x) : Stacked mem' a values := by
  induction values generalizing a with
  | nil => trivial
  | cons v rest ih =>
    obtain ⟨first, stacked⟩ := stacked
    rw [List.length_cons, Nat.mul_succ, Nat.add_comm] at fits same
    refine ⟨(read_congr fun x within => ?_).trans first, ih (by omega) stacked fun x within => ?_⟩
    · exact same x ((within_add fits).mpr (.inl within))
    · exact same x ((within_add fits).mpr (.inr within))

/-- The addresses of a number of words in a row. -/
def row : Word n → Nat → List (Word n)
  | _, 0 => []
  | a, k + 1 => a :: row (a + BitVec.ofNat _ n) k

/-- The addresses of a row consist of those of its parts. -/
theorem row_add (a : Word n) (k l : Nat) :
    row a (k + l) = row a k ++ row (a + BitVec.ofNat _ (n * k)) l := by
  induction k generalizing a with
  | zero => simp [row]
  | succ k ih =>
    rw [Nat.add_right_comm, row, row, ih, List.cons_append, add_assoc, ← BitVec.ofNat_add,
      Nat.mul_succ, Nat.add_comm n]

/-- Write words in a row. -/
def writeRow (mem : Memory n) : Word n → List (Word n) → Memory n
  | _, [] => mem
  | a, v :: rest => writeRow (write mem a v) (a + BitVec.ofNat _ n) rest

/-- Writing a row changes its range only. -/
theorem writeRow_other {values : List (Word n)} (fits : n * values.length ≤ 2 ^ (8 * n))
    (outside : ¬Within a (n * values.length) x) : writeRow mem a values x = mem x := by
  induction values generalizing mem a with
  | nil => rfl
  | cons v rest ih =>
    rw [List.length_cons, Nat.mul_succ, Nat.add_comm] at fits outside
    rw [within_add fits, not_or] at outside
    rw [writeRow, ih (by omega) outside.2]
    exact write_other outside.1

/-- A written row is found again. -/
theorem stacked_writeRow {values : List (Word n)} (fits : n * values.length ≤ 2 ^ (8 * n)) :
    Stacked (writeRow mem a values) a values := by
  induction values generalizing mem a with
  | nil => trivial
  | cons v rest ih =>
    rw [List.length_cons, Nat.mul_succ, Nat.add_comm] at fits
    constructor
    · have kept : read (writeRow (write mem a v) (a + BitVec.ofNat _ n) rest) a =
          read (write mem a v) a := by
        apply read_congr
        intro x within
        exact writeRow_other (by omega) (apart_add fits x within)
      exact kept.trans (read_write_self v)
    · exact ih (by omega)

end ByteMemory
