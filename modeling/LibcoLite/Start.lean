import LibcoLite.Switch
import LibcoLite.TaskLayout

/-!
# The first switch to a coroutine

The frame `co_create` writes on x86_64 has the shape of one `switch_to` pushes, so the first
switch to a coroutine pops it and returns into `start`. The stack pointer is then the address
of the last slot of the coroutine's stack, where a call would have left a return address; but
for an aligned task it is off the alignment that a call guarantees.
-/

namespace LibcoLite

open ByteMemory X86

/-- What is popped from the frame of a coroutine that has not run yet. -/
def freshValue (tsk : Word 8) : Slot → Word 8
  | .reg .r15 => 15
  | .reg .r14 => 14
  | .reg .r13 => 13
  | .reg .r12 => 12
  | .reg .r11 => 11
  | .reg .r10 => 10
  | .reg .r9 => 9
  | .reg .r8 => 8
  | .flags => 7
  | .reg .ax => 6
  | .reg .cx => 5
  | .reg .dx => 4
  | .reg .bx => 3
  | .reg .si => 2
  | .reg .di => tsk
  | .reg .bp => 0
  | .reg .sp => 0

/-- The words of a task that `switch_to` finds written by `co_create`. -/
def createdWords (tsk start : Word 8) : List (Word 8) :=
  fieldOf tsk .esp :: row (frameSlot tsk (frameX8664 tsk start)) (frameX8664 tsk start).length

/-- A switch begins to execute `start` for a task, with the stack pointer at the last word of
the task's stack, having read only words `co_create` wrote. -/
structure BeginsStart (tsk start : Word 8) (c after : Cpu 8) : Prop where
  /-- Execution continues in `start`. -/
  ip : after.ip = start
  /-- Its first argument is the task. -/
  di : after.regs .di = tsk
  /-- The stack pointer is at the last word of the stack. -/
  sp : after.regs .sp = stackSlot tsk (stackSize - 1)
  /-- The words that were read. -/
  reads : ∀ a ∈ readsOf c switchTo, a ∈ createdWords tsk start

/-- The stack alignment of the System V ABI at the entry of a function. -/
def EntryAligned (c : Cpu 8) : Prop := (c.regs .sp + 8).toNat % 16 = 0

/-- The frame of the caller and its `esp` field are outside of a block that `calloc` returned. -/
structure Outside (tsk : Word 8) (c : Cpu 8) : Prop where
  /-- The frame `switch_to` pushes. -/
  frame : Apart tsk (taskSize 8) (c.regs .sp - BitVec.ofNat _ frameSize) frameSize
  /-- The field it stores the stack pointer in. -/
  field : Apart tsk (taskSize 8) (espField (c.regs .di)) 8

variable {c : Cpu 8} {tsk start : Word 8}

/-- The frame fits the stack. -/
theorem frameX8664_short (tsk start : Word 8) : (frameX8664 tsk start).length ≤ stackSize := by
  show 18 ≤ stackSize
  decide

/-- The `esp` field is at the distance `switch_to` uses. -/
theorem fieldOf_esp (tsk : Word 8) : fieldOf tsk .esp = espField tsk := rfl

/-- The frame holds the values to be popped, the return address into `start` and a
placeholder. -/
theorem frameX8664_eq (tsk start : Word 8) :
    frameX8664 tsk start = frameSlots.map (freshValue tsk) ++ [start, 100] := rfl

/-- At the beginning of its second half, `switch_to` has the stack pointer of the next task. -/
theorem run_switchTo_target (c : Cpu 8) :
    (run (run c saving) exchanging).regs .sp =
      read (run c switchTo).mem (espField (c.regs .si)) := by
  have target : (run c saving).regs .si = c.regs .si :=
    (run_saving c).1.kept (.reg .si) (by decide) (by decide)
  rw [switchTo_eq, run_append, run_append, run_restoring_mem, (run_exchanging _).2, target]

/-- The first half reads no memory. -/
theorem readsOf_saving (c : Cpu 8) : readsOf c saving = [] := by
  rw [saving, readsOf, readsOf, readsOf_pushes]
  rfl

/-- The middle reads the `esp` field of the next task. -/
theorem readsOf_exchanging (c : Cpu 8) : readsOf c exchanging = [espField (c.regs .si)] := rfl

/-- The second half reads the words it pops. -/
theorem readsOf_restoring (c : Cpu 8) : readsOf c restoring = row (c.regs .sp) 17 := by
  have noSp : Slot.reg .sp ∉ frameSlots := by decide
  rw [restoring, readsOf_append, readsOf_pops _ _ noSp, row_add _ 16 1]
  show _ ++ [(run c (frameSlots.map .pop)).regs .sp] = _
  rw [run_pops_sp _ _ noSp]
  rfl

/-- `switch_to` reads the `esp` field of the next task, and the words it pops. -/
theorem readsOf_switchTo (c : Cpu 8) :
    readsOf c switchTo = espField (c.regs .si) ::
      row (read (run c switchTo).mem (espField (c.regs .si))) 17 := by
  have target : (run c saving).regs .si = c.regs .si :=
    (run_saving c).1.kept (.reg .si) (by decide) (by decide)
  rw [← run_switchTo_target, switchTo_eq, readsOf_append, readsOf_append, readsOf_saving,
    readsOf_exchanging, readsOf_restoring, target]
  rfl

/-- What `co_create` prepared is still there when the caller is saved. -/
theorem fresh_kept (fresh : Fresh (frameX8664 tsk start) tsk c.mem) (outside : Outside tsk c) :
    Fresh (frameX8664 tsk start) tsk (run c switchTo).mem := by
  apply fresh.congr placedX8664 (frameX8664_short tsk start)
  intro x prepared
  have within := prepared.within placedX8664 (frameX8664_short tsk start)
  apply run_switchTo_mem
  · exact outside.field x within
  · exact outside.frame x within

/-- Behind the frame of a coroutine that has not run yet the stack ends. -/
theorem frame_end (tsk start : Word 8) :
    frameSlot tsk (frameX8664 tsk start) + BitVec.ofNat _ (8 * 17) =
      stackSlot tsk (stackSize - 1) := by
  have distance : taskOffset 8 .stack + 8 * (stackSize - 18) + 8 * 17 =
      taskOffset 8 .stack + 8 * (stackSize - 1) := by decide
  unfold frameSlot stackSlot
  rw [add_assoc, ← BitVec.ofNat_add, ← distance]
  rfl

/-- The second half begins to execute `start` when its stack pointer is at the frame of a
coroutine that has not run yet. -/
theorem run_restoring_fresh (fresh : Fresh (frameX8664 tsk start) tsk c.mem)
    (sp : c.regs .sp = frameSlot tsk (frameX8664 tsk start)) :
    (run c restoring).ip = start ∧ (run c restoring).regs .di = tsk ∧
      (run c restoring).regs .sp = stackSlot tsk (stackSize - 1) := by
  have stacked := fresh.stacked
  rw [← sp, frameX8664_eq, stacked_append, List.length_map] at stacked
  have popped := run_pops c frameSlots (freshValue tsk) (by decide) stacked.1
  rw [restoring, run_append]
  generalize run c (frameSlots.map .pop) = middle at *
  refine ⟨?_, ?_, ?_⟩
  · show read middle.mem (middle.regs .sp) = start
    rw [popped.mem, popped.sp]
    exact stacked.2.1
  · show (exec middle .ret).regs .di = tsk
    rw [exec_ret_regs middle (by decide)]
    exact popped.restored (.reg .di) (by decide)
  · show (exec middle .ret).regs .sp = _
    rw [exec_ret_sp, popped.sp, sp, add_assoc, ← BitVec.ofNat_add]
    exact frame_end tsk start

/-- The first switch to a coroutine begins to execute `start`. -/
theorem begins_start (next : c.regs .si = tsk)
    (fresh : Fresh (frameX8664 tsk start) tsk c.mem) (outside : Outside tsk c) :
    BeginsStart tsk start c (run c switchTo) := by
  have kept := fresh_kept fresh outside
  have target : read (run c switchTo).mem (espField (c.regs .si)) =
      frameSlot tsk (frameX8664 tsk start) := by
    rw [next, ← fieldOf_esp]
    exact kept.esp
  have sp := run_switchTo_target c
  rw [target] at sp
  have mem : (run (run c saving) exchanging).mem = (run c switchTo).mem := by
    rw [switchTo_eq, run_append, run_append, run_restoring_mem]
  rw [← mem] at kept
  have begins := run_restoring_fresh kept sp
  rw [← run_append, ← run_append, ← switchTo_eq] at begins
  constructor
  · exact begins.1
  · exact begins.2.1
  · exact begins.2.2
  · intro a read
    rw [readsOf_switchTo, target, next] at read
    rcases List.mem_cons.mp read with rfl | popped
    · exact List.mem_cons_self
    · apply List.mem_cons_of_mem
      show a ∈ row _ (17 + 1)
      rw [row_add]
      exact List.mem_append_left _ popped

/-- At the last word of the stack of an aligned task, the stack is not aligned. -/
theorem stack_misaligned (aligned : tsk.toNat % 16 = 0)
    (sp : c.regs .sp = stackSlot tsk (stackSize - 1)) : ¬EntryAligned c := by
  have distance : taskOffset 8 .stack + 8 * (stackSize - 1) = 1069120 := by decide
  have here : (c.regs .sp + 8).toNat = (tsk.toNat + 1069128) % 2 ^ 64 := by
    rw [sp, stackSlot, distance, add_assoc]
    exact BitVec.toNat_add _ _
  unfold EntryAligned
  omega

/-- The first switch to a coroutine for whose task `calloc` returned an aligned address begins to
execute `start` as it should, except that the stack is never aligned. -/
theorem fresh_stack_is_misaligned (aligned : tsk.toNat % 16 = 0) (next : c.regs .si = tsk)
    (outside : Outside tsk c) (id : BitVec 32) (startRoutine arg threadEnv : Word 8)
    (mem : Memory 8) (prepared : ∀ x, Prepared (frameX8664 tsk start) tsk x →
      c.mem x = coCreateX8664 id startRoutine arg threadEnv start tsk mem x) :
    BeginsStart tsk start c (run c switchTo) ∧ ¬EntryAligned (run c switchTo) := by
  have short := frameX8664_short tsk start
  have fresh : Fresh (frameX8664 tsk start) tsk c.mem :=
    (coCreateBlock_fresh placedX8664 short id startRoutine arg threadEnv).congr placedX8664 short
      prepared
  have begins := begins_start next fresh outside
  exact ⟨begins, stack_misaligned aligned begins.sp⟩

/-- The initial task at `0x1000`, with its stack at `0x8000`, calls `switch_to` for a coroutine at
`0x200000` that it has just created. -/
def firstCaller : Cpu 8 where
  regs := fun
    | .di => 0x1000
    | .si => 0x200000
    | .sp => 0x8000
    | _ => 0
  flags := 0
  ip := 0
  mem := coCreateX8664 1 0x400000 0 0x3000 0x401000 0x200000 fun _ => 0

/-- The block of the coroutine is apart from what the caller changes. -/
theorem outside_firstCaller : Outside 0x200000 firstCaller := by
  constructor
  · exact apart_of_le (by decide) (by decide)
  · exact apart_of_le (by decide) (by decide)

/-- The coroutine begins to execute `start`. -/
theorem fresh_stack_is_misaligned_firstCaller :
    BeginsStart 0x200000 0x401000 firstCaller (run firstCaller switchTo) ∧
      ¬EntryAligned (run firstCaller switchTo) :=
  fresh_stack_is_misaligned (by decide) rfl outside_firstCaller 1 0x400000 0 0x3000 (fun _ => 0)
    fun _ _ => rfl

/-- A new coroutine does not always start with an aligned stack. -/
theorem fresh_stack_is_misaligned_fails : ¬∀ (tsk start : Word 8) (c : Cpu 8) (id : BitVec 32)
    (startRoutine arg threadEnv : Word 8) (mem : Memory 8), tsk.toNat % 16 = 0 →
      c.regs .si = tsk → Outside tsk c → (∀ x, Prepared (frameX8664 tsk start) tsk x →
        c.mem x = coCreateX8664 id startRoutine arg threadEnv start tsk mem x) →
      BeginsStart tsk start c (run c switchTo) ∧ EntryAligned (run c switchTo) := by
  intro startsAligned
  obtain ⟨begins, entry⟩ := startsAligned 0x200000 0x401000 firstCaller 1 0x400000 0 0x3000
    (fun _ => 0) (by decide) rfl outside_firstCaller fun _ _ => rfl
  exact stack_misaligned (by decide) begins.sp entry

end LibcoLite
