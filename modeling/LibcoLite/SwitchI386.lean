import LibcoLite.Lib.X86
import LibcoLite.TaskLayout

/-!
# The context switch on i386

`switch_to` of `switch.S` for i386. Its arguments are on the stack of the caller, and the
current task is taken from the first one; but the next task is taken from the word behind the
second one. It pops the registers it pushed in the opposite order, except that `ecx` and `edx`
change places.
-/

namespace LibcoLite

open ByteMemory X86

/-- `switch_to`. -/
def switchToI386 : List Instr := [
  .push (.reg .bp),
  .mov .sp .bp,
  .push (.reg .di),
  .push (.reg .si),
  .push (.reg .bx),
  .push (.reg .dx),
  .push (.reg .cx),
  .push (.reg .ax),
  .push .flags,
  .load 8 .bp .ax,
  .store .sp 8 .ax,
  .load 16 .bp .ax,
  .load 8 .ax .sp,
  .pop .flags,
  .pop (.reg .ax),
  .pop (.reg .dx),
  .pop (.reg .cx),
  .pop (.reg .bx),
  .pop (.reg .si),
  .pop (.reg .di),
  .pop (.reg .bp),
  .ret]

/-- What `switch_to` pushes behind the frame pointer, in this order. -/
def savedSlotsI386 : List Slot :=
  [.reg .di, .reg .si, .reg .bx, .reg .dx, .reg .cx, .reg .ax, .flags]

/-- The slots of a frame, from the stack pointer on. -/
def frameSlotsI386 : List Slot := savedSlotsI386.reverse ++ [.reg .bp]

/-- What `switch_to` pops, in this order. -/
def poppedSlotsI386 : List Slot :=
  [.flags, .reg .ax, .reg .dx, .reg .cx, .reg .bx, .reg .si, .reg .di, .reg .bp]

/-- Bytes of the frame `switch_to` pushes. -/
def frameSizeI386 : Nat := 32

/-- The first part of `switch_to` pushes the frame. -/
def savingI386 : List Instr := .push (.reg .bp) :: .mov .sp .bp :: savedSlotsI386.map .push

/-- Its middle exchanges the stacks. -/
def exchangingI386 : List Instr :=
  [.load 8 .bp .ax, .store .sp 8 .ax, .load 16 .bp .ax, .load 8 .ax .sp]

/-- Its last part pops a frame and returns. -/
def restoringI386 : List Instr := poppedSlotsI386.map .pop ++ [.ret]

/-- `switch_to` consists of the three parts. -/
theorem switchToI386_eq : switchToI386 = savingI386 ++ (exchangingI386 ++ restoringI386) := rfl

/-- The stack pointer behind the frame of a caller. -/
def callerEsp (c : Cpu 4) : Word 4 := c.regs .sp - BitVec.ofNat _ frameSizeI386

/-- An argument of a call, at the entry of the called function: the arguments follow the return
address. -/
def argument (c : Cpu 4) (i : Nat) : Word 4 :=
  read c.mem (c.regs .sp + BitVec.ofNat _ (4 * i + 4))

/-- The memory in which a caller is saved: its frame is on its stack, and its stack pointer is in
the `esp` field of the first argument. -/
def callerSaved (c : Cpu 4) : Memory 4 :=
  write (pushed c.mem (c.regs .sp) (c.regs .bp :: savedSlotsI386.map (Slot.get c)))
    (fieldOf (argument c 0) .esp) (callerEsp c)

/-- The stack pointer in the `esp` field of the task that the word behind the two arguments of
`switch_to` is the address of, once the caller is saved. -/
def foundEsp (c : Cpu 4) : Word 4 :=
  read (callerSaved c)
    (fieldOf (read (callerSaved c) (c.regs .sp + BitVec.ofNat _ 12)) .esp)

/-- How a task came to have a saved frame. -/
inductive Origin where
  /-- An earlier `switch_to` was called with these registers and this memory. -/
  | switched (saved : Cpu 4)
  /-- `co_create` has made it, for this address of `start`. -/
  | created (start : Word 4)

/-- The stack pointer of the frame. -/
def Origin.esp (tsk : Word 4) : Origin → Word 4
  | .switched saved => callerEsp saved
  | .created start => frameSlot tsk (frameI386 tsk start)

/-- The words of the frame and behind it: the return address, and for a new task the frame of
`start`. -/
def Origin.frame (tsk : Word 4) : Origin → List (Word 4)
  | .switched saved => frameSlotsI386.map (Slot.get saved) ++ [read saved.mem (saved.regs .sp)]
  | .created start => frameI386 tsk start

/-- The task's `esp` field and its frame are in memory. -/
structure Origin.Left (origin : Origin) (tsk : Word 4) (mem : Memory 4) : Prop where
  /-- The `esp` field. -/
  esp : read mem (fieldOf tsk .esp) = origin.esp tsk
  /-- The frame. -/
  stacked : Stacked mem (origin.esp tsk) (origin.frame tsk)

/-- A task continues where it was suspended with the registers it had saved, or in `start` with
itself as the first argument. -/
def Origin.Continues (tsk : Word 4) (after : Cpu 4) : Origin → Prop
  | .switched saved => after.ip = read saved.mem (saved.regs .sp) ∧
      ∀ slot ∈ frameSlotsI386, slot.get after = slot.get saved
  | .created start => after.ip = start ∧ argument after 0 = tsk

/-- A call of `switch_to` has done what the one for x86_64 does: the caller's stack pointer is
stored, and the next task continues on the stack it had saved. -/
structure Exchanged (c after : Cpu 4) (origin : Origin) : Prop where
  /-- The stack pointer of the caller is in the `esp` field of the first argument. -/
  stores : read after.mem (fieldOf (argument c 0) .esp) = callerEsp c
  /-- The stack pointer is behind the frame and the return address that the `esp` field of the
  second argument is the address of. -/
  stack : after.regs .sp =
    read c.mem (fieldOf (argument c 1) .esp) + BitVec.ofNat _ (frameSizeI386 + 4)
  /-- The second argument continues. -/
  continues : origin.Continues (argument c 1) after

/-- A stack pointer is the one of the next task, and that task had equal values in `ecx` and `edx`
if it was suspended by an earlier `switch_to`. -/
structure LeadsOn (esp : Word 4) (c : Cpu 4) (origin : Origin) : Prop where
  /-- The stack pointer. -/
  found : esp = read c.mem (fieldOf (argument c 1) .esp)
  /-- The registers. -/
  same : ∀ saved, origin = .switched saved → saved.regs .cx = saved.regs .dx

/-- What `switch_to` changes is apart from the word behind the arguments and from the `esp` field
of the task that it is the address of. -/
structure WordApart (c : Cpu 4) : Prop where
  /-- The word. -/
  word : Apart (c.regs .sp + BitVec.ofNat _ 12) 4 (fieldOf (argument c 0) .esp) 4
  /-- The field, from the frame `switch_to` pushes. -/
  frame : Apart (fieldOf (argument c 2) .esp) 4 (callerEsp c) frameSizeI386
  /-- The field, from the one it stores the stack pointer in. -/
  field : Apart (fieldOf (argument c 2) .esp) 4 (fieldOf (argument c 0) .esp) 4

/-- The caller's frame and the `esp` field of the current task are outside of the saved frame of
the next task. -/
structure ClearOf (c : Cpu 4) (origin : Origin) : Prop where
  /-- The frame `switch_to` pushes. -/
  frame : Apart (origin.esp (argument c 1)) (4 * (origin.frame (argument c 1)).length)
    (callerEsp c) frameSizeI386
  /-- The field it stores the stack pointer in. -/
  field : Apart (origin.esp (argument c 1)) (4 * (origin.frame (argument c 1)).length)
    (fieldOf (argument c 0) .esp) 4

variable {c : Cpu 4} {origin : Origin} {tsk : Word 4}

/-! ## The parts of the switch -/

/-- The `esp` field is at the distance `switch_to` uses. -/
theorem fieldOf_espI386 (tsk : Word 4) : fieldOf tsk .esp = tsk + BitVec.ofNat _ 8 := by
  have offset : taskOffset 4 .esp = 8 := by decide
  rw [fieldOf, offset]

/-- Behind the frame is the stack pointer of the caller. -/
theorem callerEsp_add (c : Cpu 4) (d : Nat) :
    callerEsp c + BitVec.ofNat _ (frameSizeI386 + d) = c.regs .sp + BitVec.ofNat _ d := by
  rw [callerEsp, BitVec.ofNat_add, ← add_assoc, sub_add_cancel]

/-- The first part sets up a frame pointer and pushes the frame. -/
theorem run_savingI386 (c : Cpu 4) :
    (run c savingI386).regs .bp = c.regs .sp - BitVec.ofNat _ 4 ∧
      Stored (frameSlotsI386.map (Slot.get c)) c (run c savingI386) := by
  have entered : Entered savedSlotsI386 c (run c savingI386) :=
    run_entry c savedSlotsI386 (by decide) (by decide) (by decide)
  exact ⟨entered.bp, entered.stored⟩

/-- The memory behind the first part. -/
theorem run_savingI386_mem (c : Cpu 4) : (run c savingI386).mem =
    pushed c.mem (c.regs .sp) (c.regs .bp :: savedSlotsI386.map (Slot.get c)) :=
  run_entry_mem c savedSlotsI386 (by decide) (by decide)

/-- The stack pointer behind the first part. -/
theorem run_savingI386_sp (c : Cpu 4) : (run c savingI386).regs .sp = callerEsp c :=
  (run_savingI386 c).2.sp

/-- The first part changes the frame only. -/
theorem run_savingI386_other (c : Cpu 4) {x : Word 4}
    (outside : ¬Within (callerEsp c) frameSizeI386 x) : (run c savingI386).mem x = c.mem x := by
  apply (run_savingI386 c).2.frame
  rw [run_savingI386_sp]
  exact outside

/-- Pushing the frame leaves the words at and behind the stack pointer. -/
theorem read_saving (c : Cpu 4) {d : Nat} (near : d ≤ 12) :
    read (run c savingI386).mem (c.regs .sp + BitVec.ofNat _ d) =
      read c.mem (c.regs .sp + BitVec.ofNat _ d) := by
  apply read_congr
  intro x within
  apply run_savingI386_other
  rw [← callerEsp_add] at within
  intro inside
  have zero : callerEsp c = callerEsp c + BitVec.ofNat _ 0 := by simp
  rw [zero] at inside
  exact apart_offsets (by omega) (by unfold frameSizeI386; omega) x inside within

/-- The middle stores the stack pointer of the current task and loads another one. -/
theorem run_exchangingI386 (c : Cpu 4) :
    (run c exchangingI386).mem = write c.mem
        (fieldOf (read c.mem (c.regs .bp + BitVec.ofNat _ 8)) .esp) (c.regs .sp) ∧
      (run c exchangingI386).regs .sp = read (run c exchangingI386).mem
        (fieldOf (read (run c exchangingI386).mem (c.regs .bp + BitVec.ofNat _ 16)) .esp) := by
  rw [fieldOf_espI386, fieldOf_espI386]
  constructor
  · simp [exchangingI386, run, exec]
  · simp [exchangingI386, run, exec]

/-- Behind the middle the caller is saved, and the stack pointer is the one that was found. -/
theorem run_exchanged (c : Cpu 4) :
    (run (run c savingI386) exchangingI386).mem = callerSaved c ∧
      (run (run c savingI386) exchangingI386).regs .sp = foundEsp c := by
  have bp := (run_savingI386 c).1
  have distance (d : Nat) : (run c savingI386).regs .bp + BitVec.ofNat _ (4 + d) =
      c.regs .sp + BitVec.ofNat _ d := by
    rw [bp, BitVec.ofNat_add, ← add_assoc, sub_add_cancel]
  have current : read (run c savingI386).mem ((run c savingI386).regs .bp + BitVec.ofNat _ 8) =
      argument c 0 := by
    rw [distance 4]
    exact read_saving c (by decide)
  obtain ⟨stored, loaded⟩ := run_exchangingI386 (run c savingI386)
  rw [current, run_savingI386_sp, run_savingI386_mem] at stored
  constructor
  · exact stored
  · rw [loaded, stored, distance 12]
    rfl

/-- The slot whose value in a frame is popped into a slot. -/
def exchanged : Slot → Slot
  | .reg .cx => .reg .dx
  | .reg .dx => .reg .cx
  | slot => slot

/-- Slots have their own values if `ecx` and `edx` are equal. -/
theorem get_exchanged {saved : Cpu 4} (same : saved.regs .cx = saved.regs .dx) (slot : Slot) :
    (exchanged slot).get saved = slot.get saved := by
  cases slot with
  | flags => rfl
  | reg r =>
    cases r with
    | cx => exact same.symm
    | dx => exact same
    | _ => rfl

/-- The last part moves the stack pointer behind a frame and a return address. -/
theorem run_restoringI386_sp (c : Cpu 4) :
    (run c restoringI386).regs .sp = c.regs .sp + BitVec.ofNat _ (frameSizeI386 + 4) := by
  rw [restoringI386, run_append]
  show (exec (run c (poppedSlotsI386.map .pop)) .ret).regs .sp = _
  rw [exec_ret_sp, run_pops_sp c poppedSlotsI386 (by decide), add_assoc, ← BitVec.ofNat_add]
  rfl

/-- The last part changes no memory. -/
theorem run_restoringI386_mem (c : Cpu 4) : (run c restoringI386).mem = c.mem := rfl

/-- The last part pops the frame that is on the stack, with `ecx` and `edx` exchanged, and
returns to the address behind it. -/
theorem run_restoringI386 {value : Slot → Word 4} {there : Word 4} {rest : List (Word 4)}
    (stacked : Stacked c.mem (c.regs .sp) (frameSlotsI386.map value ++ there :: rest)) :
    (run c restoringI386).ip = there ∧
      ∀ slot ∈ frameSlotsI386, slot.get (run c restoringI386) = value (exchanged slot) := by
  have order : frameSlotsI386 = poppedSlotsI386.map exchanged := by decide
  have members : ∀ slot ∈ frameSlotsI386, slot ∈ poppedSlotsI386 ∧ slot ≠ .reg .sp := by decide
  rw [order, List.map_map, stacked_append, List.length_map] at stacked
  have popped := run_pops c poppedSlotsI386 (value ∘ exchanged) (by decide) stacked.1
  rw [restoringI386, run_append]
  generalize run c (poppedSlotsI386.map .pop) = middle at *
  constructor
  · show read middle.mem (middle.regs .sp) = there
    rw [popped.mem, popped.sp]
    exact stacked.2.1
  · intro slot member
    obtain ⟨member, notSp⟩ := members slot member
    exact (Slot.get_set_of_ne notSp _ { middle with ip := _ }).trans
      (popped.restored slot member)

/-! ## The frames of suspended tasks -/

/-- What `co_create` writes for the slots of a frame. -/
def createdValue : Slot → Word 4
  | .flags => 7
  | .reg .ax => 6
  | .reg .cx => 5
  | .reg .dx => 4
  | .reg .bx => 3
  | .reg .si => 2
  | .reg .di => 1
  | .reg _ => 0

/-- The frame of a new task holds values for the slots, the return address into `start`, and the
frame of `start`. -/
theorem frameI386_eq (tsk start : Word 4) :
    frameI386 tsk start = frameSlotsI386.map createdValue ++ [start, 100, tsk] := rfl

/-- The frame fits the stack. -/
theorem frameI386_short (tsk start : Word 4) : (frameI386 tsk start).length ≤ stackSize := by
  show 11 ≤ stackSize
  decide

/-- `co_create` makes a task, which stays while the memory of its block does. -/
theorem left_created {mem' : Memory 4} (id : BitVec 32)
    (startRoutine arg threadEnv start : Word 4) (mem : Memory 4)
    (same : ∀ x, Within tsk (taskSize 4) x →
      mem' x = coCreateI386 id startRoutine arg threadEnv start tsk mem x) :
    (Origin.created start).Left tsk mem' := by
  have short := frameI386_short tsk start
  have made : Fresh (frameI386 tsk start) tsk
      (coCreateI386 id startRoutine arg threadEnv start tsk mem) :=
    coCreateBlock_fresh placedI386 short id startRoutine arg threadEnv
  have fresh : Fresh (frameI386 tsk start) tsk mem' :=
    made.congr placedI386 short fun x prepared => same x (prepared.within placedI386 short)
  exact ⟨fresh.esp, fresh.stacked⟩

/-- The words of a frame fit the address space. -/
theorem Origin.fits (tsk : Word 4) (origin : Origin) :
    4 * (origin.frame tsk).length ≤ 2 ^ (8 * 4) := by
  cases origin with
  | switched saved =>
    show 4 * 9 ≤ 2 ^ (8 * 4)
    decide
  | created start =>
    show 4 * 11 ≤ 2 ^ (8 * 4)
    decide

/-- Saving a caller changes its frame and the `esp` field of the current task. -/
theorem callerSaved_other {x : Word 4} (frame : ¬Within (callerEsp c) frameSizeI386 x)
    (field : ¬Within (fieldOf (argument c 0) .esp) 4 x) : callerSaved c x = c.mem x := by
  rw [callerSaved, write_other field, ← run_savingI386_mem]
  exact run_savingI386_other c frame

/-- Apart from what the call changes, the stack pointer that is found is the one in the `esp`
field of the task behind the arguments. -/
theorem foundEsp_eq (apart : WordApart c) :
    foundEsp c = read c.mem (fieldOf (argument c 2) .esp) := by
  have behind : read (callerSaved c) (c.regs .sp + BitVec.ofNat _ 12) = argument c 2 := by
    rw [← show read (run c savingI386).mem (c.regs .sp + BitVec.ofNat _ 12) = argument c 2 from
      read_saving c (Nat.le_refl 12)]
    apply read_congr
    intro x within
    rw [run_savingI386_mem]
    exact write_other (apart.word x within)
  rw [foundEsp, behind]
  apply read_congr
  intro x within
  exact callerSaved_other (apart.frame x within) (apart.field x within)

/-- The frame of the next task stays when the caller is saved. -/
theorem Origin.Left.saved (left : origin.Left (argument c 1) c.mem) (clear : ClearOf c origin) :
    Stacked (callerSaved c) (origin.esp (argument c 1)) (origin.frame (argument c 1)) := by
  apply left.stacked.congr (origin.fits _)
  intro x within
  exact callerSaved_other (clear.frame x within) (clear.field x within)

/-- The memory behind `switch_to` is the one in which its caller is saved. -/
theorem run_switchToI386_mem (c : Cpu 4) : (run c switchToI386).mem = callerSaved c := by
  rw [switchToI386_eq, run_append, run_append, run_restoringI386_mem]
  exact (run_exchanged c).1

/-- The stack pointer behind `switch_to`. -/
theorem run_switchToI386_sp (c : Cpu 4) :
    (run c switchToI386).regs .sp = foundEsp c + BitVec.ofNat _ (frameSizeI386 + 4) := by
  rw [switchToI386_eq, run_append, run_append, run_restoringI386_sp, (run_exchanged c).2]

/-! ## The switch -/

/-- When the stack pointer of a task that was suspended by an earlier switch was found, it
continues, with `ecx` and `edx` exchanged. -/
theorem continues_switched {saved : Cpu 4}
    (left : (Origin.switched saved).Left (argument c 1) c.mem)
    (clear : ClearOf c (.switched saved)) (found : foundEsp c = callerEsp saved) :
    (run c switchToI386).ip = read saved.mem (saved.regs .sp) ∧
      ∀ slot ∈ frameSlotsI386, slot.get (run c switchToI386) = (exchanged slot).get saved := by
  obtain ⟨mem, sp⟩ := run_exchanged c
  have stacked := left.saved clear
  rw [Origin.esp, ← found, ← mem, ← sp] at stacked
  rw [switchToI386_eq, run_append, run_append]
  exact run_restoringI386 stacked

/-- When the stack pointer of a new task was found, it enters `start` with its argument. -/
theorem continues_created {start : Word 4}
    (left : (Origin.created start).Left (argument c 1) c.mem) (clear : ClearOf c (.created start))
    (found : foundEsp c = frameSlot (argument c 1) (frameI386 (argument c 1) start)) :
    (Origin.created start).Continues (argument c 1) (run c switchToI386) := by
  obtain ⟨mem, sp⟩ := run_exchanged c
  have stacked := left.saved clear
  rw [Origin.esp, ← found, Origin.frame, frameI386_eq] at stacked
  constructor
  · rw [← mem, ← sp] at stacked
    rw [switchToI386_eq, run_append, run_append]
    exact (run_restoringI386 stacked).1
  · -- the argument is behind the frame, the address of `start` and its return address
    rw [stacked_append, List.length_map] at stacked
    obtain ⟨_, _, _, argument, _⟩ := stacked
    rw [← argument]
    unfold LibcoLite.argument
    rw [run_switchToI386_mem, run_switchToI386_sp, add_assoc, add_assoc, add_assoc]
    rfl

/-- `switch_to` on i386 does its work exactly if the stack pointer it loads is the one of the second
argument, and the task had equal values in `ecx` and `edx`. -/
theorem exchanged_iff (left : origin.Left (argument c 1) c.mem) (clear : ClearOf c origin) :
    Exchanged c (run c switchToI386) origin ↔ LeadsOn (foundEsp c) c origin := by
  constructor
  · intro done
    have found := done.stack
    rw [run_switchToI386_sp] at found
    have found := add_right_cancel found
    refine ⟨found, ?_⟩
    rintro saved rfl
    rw [left.esp] at found
    have popped := (continues_switched left clear found).2 (.reg .dx) (by decide)
    rw [done.continues.2 (.reg .dx) (by decide)] at popped
    exact popped.symm
  · intro leads
    have found := leads.found
    refine ⟨?_, ?_, ?_⟩
    · rw [run_switchToI386_mem]
      exact read_write_self _
    · rw [run_switchToI386_sp, found]
    · rw [left.esp] at found
      cases origin with
      | created start => exact continues_created left clear found
      | switched saved =>
        obtain ⟨ip, slots⟩ := continues_switched left clear found
        refine ⟨ip, ?_⟩
        intro slot member
        rw [slots slot member]
        exact get_exchanged (leads.same saved rfl) slot

/-- `switch_to` on i386 stores the stack pointer of its caller and continues the second argument
on the stack that it had saved exactly if the word behind the arguments leads to that stack, and
the task had equal values in `ecx` and `edx`. Where what the call changes is apart from this word
and from the task it leads to, the word and the `esp` field of that task are those before the
call. -/
theorem switch_i386_exchanges (left : origin.Left (argument c 1) c.mem)
    (clear : ClearOf c origin) :
    (Exchanged c (run c switchToI386) origin ↔ LeadsOn (foundEsp c) c origin) ∧
      (WordApart c → (Exchanged c (run c switchToI386) origin ↔
        LeadsOn (read c.mem (fieldOf (argument c 2) .esp)) c origin)) := by
  refine ⟨exchanged_iff left clear, ?_⟩
  intro apart
  rw [← foundEsp_eq apart]
  exact exchanged_iff left clear

/-- The initial task at `0x1000`, with its stack at `0x8000`, calls `switch_to` for itself and
the coroutine at `0x200000` that it has just created, with a word behind the arguments. -/
def callerWith (behind : Word 4) : Cpu 4 where
  regs := fun
    | .sp => 0x8000
    | _ => 0
  flags := 0
  ip := 0
  mem := writeRow (coCreateI386 1 0x400000 0 0x3000 0x401000 0x200000 fun _ => 0) 0x8000
    [0x402000, 0x1000, 0x200000, behind]

/-- Behind the return address are the arguments, and the word behind them. -/
theorem stacked_callerWith (behind : Word 4) :
    Stacked (callerWith behind).mem 0x8000 [0x402000, 0x1000, 0x200000, behind] := by
  apply stacked_writeRow
  show 4 * 4 ≤ 2 ^ (8 * 4)
  decide

/-- The first argument is the initial task. -/
theorem argument_callerWith_zero (behind : Word 4) : argument (callerWith behind) 0 = 0x1000 :=
  (stacked_callerWith behind).2.1

/-- The second argument is the coroutine. -/
theorem argument_callerWith_one (behind : Word 4) : argument (callerWith behind) 1 = 0x200000 :=
  (stacked_callerWith behind).2.2.1

/-- The word behind the arguments. -/
theorem argument_callerWith_two (behind : Word 4) : argument (callerWith behind) 2 = behind :=
  (stacked_callerWith behind).2.2.2.1

/-- The coroutine has not run yet. -/
theorem left_callerWith (behind : Word 4) :
    (Origin.created 0x401000).Left (argument (callerWith behind) 1) (callerWith behind).mem := by
  rw [argument_callerWith_one]
  apply left_created 1 0x400000 0 0x3000
  have apart : Apart (0x200000 : Word 4) (taskSize 4) 0x8000 (4 * 4) :=
    apart_of_le (by decide) (by decide)
  intro x within
  apply writeRow_other
  · show 4 * 4 ≤ 2 ^ (8 * 4)
    decide
  · exact apart x within

/-- What the caller changes is apart from the frame of the coroutine. -/
theorem clear_callerWith (behind : Word 4) :
    ClearOf (callerWith behind) (.created 0x401000) := by
  have frame : Apart (frameSlot 0x200000 (frameI386 0x200000 0x401000)) (4 * 11)
      (0x8000 - BitVec.ofNat _ frameSizeI386) frameSizeI386 :=
    apart_of_le (by decide) (by decide)
  have field : Apart (frameSlot 0x200000 (frameI386 0x200000 0x401000)) (4 * 11)
      (fieldOf 0x1000 .esp) 4 :=
    apart_of_le (by decide) (by decide)
  constructor
  · rw [argument_callerWith_one]
    exact frame
  · rw [argument_callerWith_one, argument_callerWith_zero]
    exact field

/-- With the coroutine behind the arguments, too, it enters `start`. -/
theorem switch_i386_exchanges_repeated : Exchanged (callerWith 0x200000)
    (run (callerWith 0x200000) switchToI386) (.created 0x401000) := by
  have apart : WordApart (callerWith 0x200000) := by
    constructor
    · rw [argument_callerWith_zero]
      exact apart_of_le (by decide) (by decide)
    · rw [argument_callerWith_two]
      exact apart_of_le (by decide) (by decide)
    · rw [argument_callerWith_zero, argument_callerWith_two]
      exact apart_of_le (by decide) (by decide)
  refine ((switch_i386_exchanges (left_callerWith 0x200000) (clear_callerWith 0x200000)).2
    apart).mpr ⟨?_, ?_⟩
  · rw [argument_callerWith_one, argument_callerWith_two]
  · rintro saved ⟨⟩

/-- With zero behind the arguments, the coroutine does not enter `start`. -/
theorem switch_i386_exchanges_fails : ¬∀ (c : Cpu 4) (origin : Origin),
    origin.Left (argument c 1) c.mem → ClearOf c origin →
    Exchanged c (run c switchToI386) origin := by
  intro allExchange
  have done := allExchange (callerWith 0) _ (left_callerWith 0) (clear_callerWith 0)
  have continued := done.continues.1
  have elsewhere : (run (callerWith 0) switchToI386).ip ≠ 0x401000 := by decide +kernel
  exact elsewhere continued

end LibcoLite
