import LibcoLite.Lib.Memory

/-!
# Straight-line code on a stack

The instructions of x86 that move words between registers, the flags and memory, for words
of any number of bytes. Pushing registers stores their values in a row below the stack
pointer, and popping them in the opposite order restores them.
-/

namespace X86

open ByteMemory

/-- The general registers. -/
inductive Reg where
  | ax | bx | cx | dx | si | di | bp | sp | r8 | r9 | r10 | r11 | r12 | r13 | r14 | r15
deriving DecidableEq, Repr

/-- What is pushed and popped. -/
inductive Slot where
  /-- A register. -/
  | reg (r : Reg)
  /-- The flags. -/
  | flags
deriving DecidableEq, Repr

/-- The instructions, operands in the order of AT&T syntax. -/
inductive Instr where
  /-- Push a register or the flags. -/
  | push (slot : Slot)
  /-- Pop a register or the flags. -/
  | pop (slot : Slot)
  /-- Copy a register to another one. -/
  | mov (src dst : Reg)
  /-- Store a register at a distance from a base register. -/
  | store (src : Reg) (disp : Nat) (base : Reg)
  /-- Load a register from a distance from a base register. -/
  | load (disp : Nat) (base dst : Reg)
  /-- Return to the address on top of the stack. -/
  | ret
deriving DecidableEq, Repr

/-- Registers and memory. -/
structure Cpu (n : Nat) where
  /-- The general registers. -/
  regs : Reg → Word n
  /-- The flags a program can change. -/
  flags : Word n
  /-- Where execution continues. -/
  ip : Word n
  /-- The memory. -/
  mem : Memory n

variable {n : Nat}

/-- The value of a register or of the flags. -/
def Slot.get (c : Cpu n) : Slot → Word n
  | .reg r => c.regs r
  | .flags => c.flags

/-- Set a register or the flags. -/
def Slot.set (v : Word n) (c : Cpu n) : Slot → Cpu n
  | .reg r => { c with regs := Function.update c.regs r v }
  | .flags => { c with flags := v }

/-- A set slot has the new value. -/
@[simp]
theorem Slot.get_set_self (slot : Slot) (v : Word n) (c : Cpu n) :
    slot.get (slot.set v c) = v := by
  cases slot with
  | reg r => exact Function.update_self ..
  | flags => rfl

/-- Setting a slot leaves the others. -/
theorem Slot.get_set_of_ne {slot other : Slot} (different : other ≠ slot) (v : Word n)
    (c : Cpu n) : other.get (slot.set v c) = other.get c := by
  cases slot with
  | flags =>
    cases other with
    | flags => exact absurd rfl different
    | reg r' => rfl
  | reg r =>
    cases other with
    | flags => rfl
    | reg r' => exact Function.update_of_ne (fun same => different (congrArg Slot.reg same)) _ _

/-- Execute one instruction. -/
def exec (c : Cpu n) : Instr → Cpu n
  | .push slot =>
    let sp := c.regs .sp - BitVec.ofNat _ n
    { c with regs := Function.update c.regs .sp sp, mem := write c.mem sp (slot.get c) }
  | .pop slot =>
    slot.set (read c.mem (c.regs .sp))
      { c with regs := Function.update c.regs .sp (c.regs .sp + BitVec.ofNat _ n) }
  | .mov src dst => { c with regs := Function.update c.regs dst (c.regs src) }
  | .store src disp base =>
    { c with mem := write c.mem (c.regs base + BitVec.ofNat _ disp) (c.regs src) }
  | .load disp base dst =>
    { c with
      regs := Function.update c.regs dst (read c.mem (c.regs base + BitVec.ofNat _ disp)) }
  | .ret =>
    { c with
      ip := read c.mem (c.regs .sp)
      regs := Function.update c.regs .sp (c.regs .sp + BitVec.ofNat _ n) }

/-- A return leaves the other registers. -/
theorem exec_ret_regs (c : Cpu n) {r : Reg} (other : r ≠ .sp) :
    (exec c .ret).regs r = c.regs r :=
  Function.update_of_ne other _ _

/-- A return takes its address from the stack. -/
theorem exec_ret_sp (c : Cpu n) : (exec c .ret).regs .sp = c.regs .sp + BitVec.ofNat _ n := by
  simp [exec]

/-- Execute a list of instructions. -/
def run (c : Cpu n) : List Instr → Cpu n
  | [] => c
  | i :: rest => run (exec c i) rest

/-- Lists of instructions are executed one after the other. -/
theorem run_append (c : Cpu n) (first rest : List Instr) :
    run c (first ++ rest) = run (run c first) rest := by
  induction first generalizing c with
  | nil => rfl
  | cons i first ih => exact ih (exec c i)

/-- The addresses of the words an instruction reads. -/
def Instr.reads (c : Cpu n) : Instr → List (Word n)
  | .pop _ => [c.regs .sp]
  | .load disp base _ => [c.regs base + BitVec.ofNat _ disp]
  | .ret => [c.regs .sp]
  | _ => []

/-- The addresses of the words a list of instructions reads, in order. -/
def readsOf (c : Cpu n) : List Instr → List (Word n)
  | [] => []
  | i :: rest => i.reads c ++ readsOf (exec c i) rest

/-- Lists of instructions read one after the other. -/
theorem readsOf_append (c : Cpu n) (first rest : List Instr) :
    readsOf c (first ++ rest) = readsOf c first ++ readsOf (run c first) rest := by
  induction first generalizing c with
  | nil => rfl
  | cons i first ih => rw [List.cons_append, readsOf, readsOf, ih, List.append_assoc, run]

/-- Pushing reads no memory. -/
theorem readsOf_pushes (c : Cpu n) (slots : List Slot) : readsOf c (slots.map .push) = [] := by
  induction slots generalizing c with
  | nil => rfl
  | cons slot rest ih => exact ih _

/-! ## Pushing and popping -/

/-- Values were pushed, the last one in front. -/
structure Stored (values : List (Word n)) (c c' : Cpu n) : Prop where
  /-- The stack pointer has moved down. -/
  sp : c'.regs .sp = c.regs .sp - BitVec.ofNat _ (n * values.length)
  /-- The values are on the stack. -/
  stacked : Stacked c'.mem (c'.regs .sp) values
  /-- The rest of the memory is as before. -/
  frame : ∀ x, ¬Within (c'.regs .sp) (n * values.length) x → c'.mem x = c.mem x

/-- A push moves the stack pointer down. -/
theorem exec_push_sp (c : Cpu n) (slot : Slot) :
    (exec c (.push slot)).regs .sp = c.regs .sp - BitVec.ofNat _ n :=
  Slot.get_set_self (.reg .sp) _ { c with mem := _ }

/-- A push leaves everything but the stack pointer. -/
theorem exec_push_get (c : Cpu n) (slot : Slot) {other : Slot} (notSp : other ≠ .reg .sp) :
    other.get (exec c (.push slot)) = other.get c :=
  Slot.get_set_of_ne notSp _ { c with mem := _ }

/-- A push leaves the values of slots other than the stack pointer. -/
theorem map_get_push (c : Cpu n) (slot : Slot) {slots : List Slot} (noSp : Slot.reg .sp ∉ slots) :
    slots.map (Slot.get (exec c (.push slot))) = slots.map (Slot.get c) := by
  apply List.map_congr_left
  intro other member
  apply exec_push_get
  rintro rfl
  exact noSp member

/-- A push stores a value. -/
theorem Stored.push (c : Cpu n) (slot : Slot) : Stored [slot.get c] c (exec c (.push slot)) := by
  have top := exec_push_sp c slot
  have size : n * [slot.get c].length = n := Nat.mul_one n
  refine ⟨by rw [size]; exact top, ⟨?_, trivial⟩, fun x outside => ?_⟩
  · rw [top]
    exact read_write_self _
  · rw [size, top] at outside
    exact write_other outside

/-- Values pushed later stand in front of the earlier ones. -/
theorem Stored.trans {values later : List (Word n)} {c c₁ c₂ c' : Cpu n}
    (stored : Stored values c c₁) (mem : c₂.mem = c₁.mem) (sp : c₂.regs .sp = c₁.regs .sp)
    (more : Stored later c₂ c') (fits : n * later.length + n * values.length ≤ 2 ^ (8 * n)) :
    Stored (later ++ values) c c' := by
  -- the earlier values begin behind the later ones
  have behind : c₁.regs .sp = c'.regs .sp + BitVec.ofNat _ (n * later.length) := by
    rw [more.sp, sp, sub_add_cancel]
  have size : n * (later ++ values).length = n * later.length + n * values.length := by
    rw [List.length_append, Nat.mul_add]
  refine ⟨?_, stacked_append.mpr ⟨more.stacked, ?_⟩, fun x outside => ?_⟩
  · rw [size, Nat.add_comm, BitVec.ofNat_add, sub_add_eq_sub_sub, ← stored.sp, behind,
      add_sub_cancel_right]
  · rw [← behind]
    refine stored.stacked.congr (by omega) fun x within => ?_
    rw [more.frame x fun inside => apart_add fits x inside (behind ▸ within), mem]
  · rw [size, within_add fits, not_or, ← behind] at outside
    rw [more.frame x outside.1, mem, stored.frame x outside.2]

/-- Slots were pushed one after the other. -/
structure Pushed (slots : List Slot) (c c' : Cpu n) : Prop where
  /-- Nothing but the stack pointer has changed in the registers. -/
  kept : ∀ slot : Slot, slot ≠ .reg .sp → slot.get c' = slot.get c
  /-- The values of the slots are on the stack. -/
  stored : Stored (slots.map (Slot.get c)).reverse c c'

/-- Pushing slots other than the stack pointer stores their values. -/
theorem run_pushes (c : Cpu n) (slots : List Slot) (fits : n * slots.length ≤ 2 ^ (8 * n))
    (noSp : Slot.reg .sp ∉ slots) : Pushed slots c (run c (slots.map .push)) := by
  induction slots generalizing c with
  | nil => exact ⟨fun _ _ => rfl, by simp [run], trivial, fun _ _ => rfl⟩
  | cons slot rest ih =>
    rw [List.length_cons, Nat.mul_succ] at fits
    obtain ⟨here, noSp⟩ := not_or.mp (mt List.mem_cons.mpr noSp)
    obtain ⟨kept, stored⟩ := ih (exec c (.push slot)) (by omega) noSp
    refine ⟨fun slot' other => (kept slot' other).trans (exec_push_get c slot other), ?_⟩
    rw [List.map_cons, List.reverse_cons, ← map_get_push c slot noSp]
    exact (Stored.push c slot).trans rfl rfl stored (by simpa using fits)

/-- The memory after pushing values from a stack pointer on, the first one first. -/
def pushed (mem : Memory n) : Word n → List (Word n) → Memory n
  | _, [] => mem
  | sp, v :: rest => pushed (write mem (sp - BitVec.ofNat _ n) v) (sp - BitVec.ofNat _ n) rest

/-- Pushing slots other than the stack pointer pushes their values. -/
theorem run_pushes_mem (c : Cpu n) (slots : List Slot) (noSp : Slot.reg .sp ∉ slots) :
    (run c (slots.map .push)).mem = pushed c.mem (c.regs .sp) (slots.map (Slot.get c)) := by
  induction slots generalizing c with
  | nil => rfl
  | cons slot rest ih =>
    obtain ⟨here, noSp⟩ := not_or.mp (mt List.mem_cons.mpr noSp)
    rw [List.map_cons, run, ih _ noSp, map_get_push c slot noSp, exec_push_sp]
    rfl

/-- A function was entered: it has saved the frame pointer and further slots. -/
structure Entered (slots : List Slot) (c c' : Cpu n) : Prop where
  /-- Nothing but the stack pointer and the frame pointer has changed in the registers. -/
  kept : ∀ slot : Slot, slot ≠ .reg .sp → slot ≠ .reg .bp → slot.get c' = slot.get c
  /-- The frame pointer is the address of its saved value. -/
  bp : c'.regs .bp = c.regs .sp - BitVec.ofNat _ n
  /-- The values of the slots are on the stack, in front of the frame pointer. -/
  stored : Stored ((slots.reverse ++ [Slot.reg .bp]).map (Slot.get c)) c c'

/-- Setting up a frame leaves everything but the stack pointer and the frame pointer. -/
theorem run_frame_get (c : Cpu n) {slot : Slot} (notSp : slot ≠ .reg .sp)
    (notBp : slot ≠ .reg .bp) :
    slot.get (exec (exec c (.push (.reg .bp))) (.mov .sp .bp)) = slot.get c :=
  (Slot.get_set_of_ne notBp _ (exec c (.push (.reg .bp)))).trans (exec_push_get c _ notSp)

/-- Setting up a frame leaves the values of slots other than the stack pointer and the frame
pointer. -/
theorem map_get_frame (c : Cpu n) {slots : List Slot} (noSp : Slot.reg .sp ∉ slots)
    (noBp : Slot.reg .bp ∉ slots) :
    slots.map (Slot.get (exec (exec c (.push (.reg .bp))) (.mov .sp .bp))) =
      slots.map (Slot.get c) := by
  apply List.map_congr_left
  intro slot member
  apply run_frame_get
  · rintro rfl
    exact noSp member
  · rintro rfl
    exact noBp member

/-- Setting up a frame and pushing slots pushes the frame pointer and their values. -/
theorem run_entry_mem (c : Cpu n) (slots : List Slot) (noSp : Slot.reg .sp ∉ slots)
    (noBp : Slot.reg .bp ∉ slots) :
    (run c (.push (.reg .bp) :: .mov .sp .bp :: slots.map .push)).mem =
      pushed c.mem (c.regs .sp) (c.regs .bp :: slots.map (Slot.get c)) := by
  rw [run, run, run_pushes_mem _ _ noSp, map_get_frame c noSp noBp]
  rfl

/-- Setting up a frame and pushing slots enters a function. -/
theorem run_entry (c : Cpu n) (slots : List Slot) (fits : n * slots.length + n ≤ 2 ^ (8 * n))
    (noSp : Slot.reg .sp ∉ slots) (noBp : Slot.reg .bp ∉ slots) :
    Entered slots c (run c (.push (.reg .bp) :: .mov .sp .bp :: slots.map .push)) := by
  obtain ⟨kept, stored⟩ := run_pushes (exec (exec c (.push (.reg .bp))) (.mov .sp .bp)) slots
    (by omega) noSp
  refine ⟨fun slot other notBp => (kept slot other).trans (run_frame_get c other notBp), ?_, ?_⟩
  · exact kept (.reg .bp) (by decide)
  · rw [List.map_append, List.map_reverse, ← map_get_frame c noSp noBp]
    exact (Stored.push c (.reg .bp)).trans (by rfl) (by rfl) stored (by simpa using fits)

/-- Popping a slot other than the stack pointer moves the stack pointer up. -/
theorem exec_pop_sp (c : Cpu n) {slot : Slot} (notSp : Slot.reg .sp ≠ slot) :
    (exec c (.pop slot)).regs .sp = c.regs .sp + BitVec.ofNat _ n :=
  (Slot.get_set_of_ne notSp _ _).trans (Slot.get_set_self (.reg .sp) _ c)

/-- Popping slots other than the stack pointer moves the stack pointer up. -/
theorem run_pops_sp (c : Cpu n) (slots : List Slot) (noSp : Slot.reg .sp ∉ slots) :
    (run c (slots.map .pop)).regs .sp = c.regs .sp + BitVec.ofNat _ (n * slots.length) := by
  induction slots generalizing c with
  | nil => simp [run]
  | cons slot rest ih =>
    obtain ⟨here, noSp⟩ := not_or.mp (mt List.mem_cons.mpr noSp)
    rw [List.map_cons, run, ih _ noSp, exec_pop_sp c here, List.length_cons, Nat.mul_succ,
      Nat.add_comm, BitVec.ofNat_add, add_assoc]

/-- Popping slots other than the stack pointer reads a row of words. -/
theorem readsOf_pops (c : Cpu n) (slots : List Slot) (noSp : Slot.reg .sp ∉ slots) :
    readsOf c (slots.map .pop) = row (c.regs .sp) slots.length := by
  induction slots generalizing c with
  | nil => rfl
  | cons slot rest ih =>
    obtain ⟨here, noSp⟩ := not_or.mp (mt List.mem_cons.mpr noSp)
    rw [List.map_cons, readsOf, ih _ noSp, exec_pop_sp c here]
    rfl

/-- Slots were popped from a row of values. -/
structure Popped (slots : List Slot) (value : Slot → Word n) (c c' : Cpu n) : Prop where
  /-- The popped slots have their values. -/
  restored : ∀ slot ∈ slots, slot.get c' = value slot
  /-- Other slots are as before. -/
  kept : ∀ slot : Slot, slot ∉ slots → slot ≠ .reg .sp → slot.get c' = slot.get c
  /-- Execution continues behind. -/
  ip : c'.ip = c.ip
  /-- The stack pointer has moved up. -/
  sp : c'.regs .sp = c.regs .sp + BitVec.ofNat _ (n * slots.length)
  /-- The memory is as before. -/
  mem : c'.mem = c.mem

/-- Popping slots other than the stack pointer from a row sets them to its values. -/
theorem run_pops (c : Cpu n) (slots : List Slot) (value : Slot → Word n)
    (noSp : Slot.reg .sp ∉ slots) (stacked : Stacked c.mem (c.regs .sp) (slots.map value)) :
    Popped slots value c (run c (slots.map .pop)) := by
  induction slots generalizing c with
  | nil => exact ⟨by simp, fun _ _ _ => rfl, rfl, by simp [run], rfl⟩
  | cons slot rest ih =>
    obtain ⟨here, noSp⟩ := not_or.mp (mt List.mem_cons.mpr noSp)
    obtain ⟨head, stacked⟩ := stacked
    have own : slot.get (exec c (.pop slot)) = value slot :=
      (Slot.get_set_self slot _ _).trans head
    have others (slot' : Slot) (different : slot' ≠ slot) (notSp : slot' ≠ .reg .sp) :
        slot'.get (exec c (.pop slot)) = slot'.get c :=
      (Slot.get_set_of_ne different _ _).trans (Slot.get_set_of_ne notSp _ c)
    have top := exec_pop_sp c here
    have mem : (exec c (.pop slot)).mem = c.mem := by cases slot <;> rfl
    have ip' : (exec c (.pop slot)).ip = c.ip := by cases slot <;> rfl
    obtain ⟨restored, kept, ip, sp, same⟩ := ih (exec c (.pop slot)) noSp (by rwa [mem, top])
    change Popped (slot :: rest) value c (run (exec c (.pop slot)) (rest.map .pop))
    generalize run (exec c (.pop slot)) (rest.map .pop) = c' at *
    refine ⟨fun slot' member => ?_, fun slot' outside notSp => ?_, ip.trans ip', ?_,
      same.trans mem⟩
    · by_cases again : slot' ∈ rest
      · exact restored slot' again
      · obtain rfl := (List.mem_cons.mp member).resolve_right again
        rw [kept slot' again (Ne.symm here), own]
    · obtain ⟨different, outside⟩ := not_or.mp (mt List.mem_cons.mpr outside)
      rw [kept slot' outside notSp, others slot' different notSp]
    · rw [sp, top, List.length_cons, Nat.mul_succ, Nat.add_comm, BitVec.ofNat_add, add_assoc]

end X86
