import LibcoLite.Lib.Run
import LibcoLite.Lib.X86

/-!
# The context switch

`switch_to` of `switch.S` for x86_64. It pushes the registers and the flags of the caller,
keeps its stack pointer in the `esp` field of the current task, takes over the stack pointer
of the next task and pops what that task pushed when it was the caller. Between switches,
arbitrary code may change all registers and all memory, except what suspended tasks have
saved.
-/

namespace LibcoLite

open ByteMemory X86
open Transition (Along Move Run along_cons)

/-- Address of the `esp` field of a task. -/
def espField (tsk : Word 8) : Word 8 := tsk + 8

/-- `switch_to`. -/
def switchTo : List Instr := [
  .push (.reg .bp),
  .mov .sp .bp,
  .push (.reg .di),
  .push (.reg .si),
  .push (.reg .bx),
  .push (.reg .dx),
  .push (.reg .cx),
  .push (.reg .ax),
  .push .flags,
  .push (.reg .r8),
  .push (.reg .r9),
  .push (.reg .r10),
  .push (.reg .r11),
  .push (.reg .r12),
  .push (.reg .r13),
  .push (.reg .r14),
  .push (.reg .r15),
  .mov .di .ax,
  .store .sp 8 .ax,
  .mov .si .ax,
  .load 8 .ax .sp,
  .pop (.reg .r15),
  .pop (.reg .r14),
  .pop (.reg .r13),
  .pop (.reg .r12),
  .pop (.reg .r11),
  .pop (.reg .r10),
  .pop (.reg .r9),
  .pop (.reg .r8),
  .pop .flags,
  .pop (.reg .ax),
  .pop (.reg .cx),
  .pop (.reg .dx),
  .pop (.reg .bx),
  .pop (.reg .si),
  .pop (.reg .di),
  .pop (.reg .bp),
  .ret]

/-- What `switch_to` pushes behind the frame pointer, in this order. -/
def savedSlots : List Slot :=
  [.reg .di, .reg .si, .reg .bx, .reg .dx, .reg .cx, .reg .ax, .flags, .reg .r8, .reg .r9,
    .reg .r10, .reg .r11, .reg .r12, .reg .r13, .reg .r14, .reg .r15]

/-- What `switch_to` pops, in this order. -/
def frameSlots : List Slot := savedSlots.reverse ++ [.reg .bp]

/-- Bytes of the frame `switch_to` pushes. -/
def frameSize : Nat := 128

/-- The first half of `switch_to` pushes the frame. -/
def saving : List Instr := .push (.reg .bp) :: .mov .sp .bp :: savedSlots.map .push

/-- Its middle exchanges the stacks. -/
def exchanging : List Instr := [.mov .di .ax, .store .sp 8 .ax, .mov .si .ax, .load 8 .ax .sp]

/-- Its second half pops a frame and returns. -/
def restoring : List Instr := frameSlots.map .pop ++ [.ret]

/-- `switch_to` consists of the three parts. -/
theorem switchTo_eq : switchTo = saving ++ (exchanging ++ restoring) := rfl

/-- Every register but the stack pointer is in the frame, and so are the flags. -/
theorem mem_frameSlots {slot : Slot} (other : slot ≠ .reg .sp) : slot ∈ frameSlots := by
  cases slot with
  | flags => decide
  | reg r => cases r <;> first | exact absurd rfl other | decide

variable {c : Cpu 8}

/-- The frame of a caller is below its stack pointer, and the return address behind it. -/
def Framed (mem : Memory 8) (saved : Cpu 8) : Prop :=
  Stacked mem (saved.regs .sp - BitVec.ofNat _ frameSize)
    (frameSlots.map (Slot.get saved) ++ [read saved.mem (saved.regs .sp)])

/-- A task continues behind its call of `switch_to`, as it was when it made the call. -/
structure Resumes (saved after : Cpu 8) : Prop where
  /-- Execution continues at the return address. -/
  ip : after.ip = read saved.mem (saved.regs .sp)
  /-- The return address is taken from the stack. -/
  sp : after.regs .sp = saved.regs .sp + 8
  /-- The other registers and the flags have their values. -/
  slots : ∀ slot : Slot, slot ≠ .reg .sp → slot.get after = slot.get saved

/-! ## The parts of the switch -/

/-- The size of the frame. -/
theorem length_frame (c : Cpu 8) : 8 * (frameSlots.map (Slot.get c)).length = frameSize := by
  rw [List.length_map]
  rfl

/-- The first half leaves the frame in front of the return address. -/
theorem run_saving (c : Cpu 8) :
    Entered savedSlots c (run c saving) ∧ Framed (run c saving).mem c := by
  have entered : Entered savedSlots c (run c saving) :=
    run_entry c savedSlots (by decide) (by decide) (by decide)
  refine ⟨entered, ?_⟩
  obtain ⟨sp, stacked, frame⟩ := entered.stored
  rw [← frameSlots, length_frame] at sp frame
  have behind : (run c saving).regs .sp + BitVec.ofNat _ frameSize = c.regs .sp := by
    rw [sp, sub_add_cancel]
  rw [Framed, stacked_append, length_frame, ← sp]
  refine ⟨stacked, ?_, trivial⟩
  rw [behind]
  refine read_congr fun x within => frame x fun inside => ?_
  rw [← behind] at within
  exact apart_add (by decide : frameSize + 8 ≤ 2 ^ (8 * 8)) x inside within

/-- The middle stores the stack pointer of the caller and loads the one of the next task. -/
theorem run_exchanging (c : Cpu 8) :
    (run c exchanging).mem = write c.mem (espField (c.regs .di)) (c.regs .sp) ∧
      (run c exchanging).regs .sp =
        read (run c exchanging).mem (espField (c.regs .si)) :=
  ⟨rfl, rfl⟩

/-- The second half resumes the task whose frame is on the stack. -/
theorem run_restoring {saved c : Cpu 8} (framed : Framed c.mem saved)
    (sp : c.regs .sp = saved.regs .sp - BitVec.ofNat _ frameSize) :
    Resumes saved (run c restoring) ∧ (run c restoring).mem = c.mem := by
  rw [Framed, stacked_append, ← sp, List.length_map] at framed
  obtain ⟨restored, _, _, top, mem⟩ :=
    run_pops c frameSlots (Slot.get saved) (by decide) framed.1
  rw [restoring, run_append]
  generalize run c (frameSlots.map .pop) = middle at *
  have back : middle.regs .sp = saved.regs .sp := by
    rw [top, sp]
    exact sub_add_cancel _ _
  refine ⟨⟨?_, ?_, fun slot other => ?_⟩, mem⟩
  · refine Eq.trans ?_ framed.2.1
    rw [← top, ← mem]
    rfl
  · rw [← back]
    exact Slot.get_set_self (.reg .sp) _ { middle with ip := _ }
  · rw [← restored slot (mem_frameSlots other)]
    exact Slot.get_set_of_ne other _ { middle with ip := _ }

/-- The second half changes no memory. -/
theorem run_restoring_mem (c : Cpu 8) : (run c restoring).mem = c.mem := rfl

/-- `switch_to` changes the frame below the stack pointer of its caller and the `esp` field of
the current task. -/
theorem run_switchTo_mem (c : Cpu 8) {x : Word 8}
    (field : ¬Within (espField (c.regs .di)) 8 x)
    (frame : ¬Within (c.regs .sp - BitVec.ofNat _ frameSize) frameSize x) :
    (run c switchTo).mem x = c.mem x := by
  obtain ⟨entered, _⟩ := run_saving c
  rw [switchTo_eq, run_append, run_append, run_restoring_mem, (run_exchanging _).1]
  have own : (run c saving).regs .di = c.regs .di :=
    entered.kept (.reg .di) (by decide) (by decide)
  rw [own, write_other field]
  obtain ⟨sp, _, kept⟩ := entered.stored
  rw [← frameSlots, length_frame] at sp kept
  rw [← sp] at frame
  exact kept x frame

/-! ## Runs of several tasks -/

/-- The processor, and for every suspended task its registers and memory at its call of
`switch_to`. -/
structure Switching where
  /-- The processor. -/
  cpu : Cpu 8
  /-- The calls of the suspended tasks. -/
  suspended : Word 8 → Option (Cpu 8)

/-- What the running task does. -/
inductive SwitchInput where
  /-- Its own code leads to any registers and memory. -/
  | compute (after : Cpu 8)
  /-- It calls `switch_to` for the tasks in the registers of the first two arguments. -/
  | switch

/-- One step of the running task. A switch suspends its first argument and resumes its
second one. -/
def Switching.step (s : Switching) : SwitchInput → Except Empty Switching
  | .compute after => .ok { s with cpu := after }
  | .switch => .ok {
      cpu := X86.run s.cpu switchTo
      suspended := Function.update
        (Function.update s.suspended (s.cpu.regs .di) (some s.cpu)) (s.cpu.regs .si) none }

/-- An address belongs to the `esp` field, the frame or the return address of a suspended
task. -/
def Saved (s : Switching) (x : Word 8) : Prop :=
  ∃ tsk saved, s.suspended tsk = some saved ∧ (Within (espField tsk) 8 x ∨
    Within (saved.regs .sp - BitVec.ofNat _ frameSize) (frameSize + 8) x)

/-- A move of own code changes nothing that suspended tasks have saved. -/
def Respects (move : Move Switching SwitchInput) : Prop :=
  ∀ after, move.input = .compute after →
    ∀ x, Saved move.before x → after.mem x = move.before.cpu.mem x

/-- The stack of the caller has room for the frame. -/
structure HasRoom (s : Switching) : Prop where
  /-- Frame and return address are outside the `esp` field of the current task. -/
  own : Apart (espField (s.cpu.regs .di)) 8
    (s.cpu.regs .sp - BitVec.ofNat _ frameSize) (frameSize + 8)
  /-- The field and the frame are outside of what suspended tasks have saved. -/
  others : ∀ x, Within (espField (s.cpu.regs .di)) 8 x ∨
    Within (s.cpu.regs .sp - BitVec.ofNat _ frameSize) frameSize x → ¬Saved s x

/-- A move switches with room for the frame only. -/
def LeavesRoom (move : Move Switching SwitchInput) : Prop :=
  move.input = .switch → HasRoom move.before

/-- The memory holds what suspended tasks have saved. -/
def Kept (suspended : Word 8 → Option (Cpu 8)) (mem : Memory 8) : Prop :=
  ∀ tsk saved, suspended tsk = some saved →
    ByteMemory.read mem (espField tsk) = saved.regs .sp - BitVec.ofNat _ frameSize ∧
      Framed mem saved

/-- A frame stays while its memory stays. -/
theorem Framed.congr {mem mem' : Memory 8} {saved : Cpu 8} (framed : Framed mem saved)
    (same : ∀ x, Within (saved.regs .sp - BitVec.ofNat _ frameSize) (frameSize + 8) x →
      mem' x = mem x) : Framed mem' saved := by
  have size : 8 * (frameSlots.map (Slot.get saved) ++
      [ByteMemory.read saved.mem (saved.regs .sp)]).length = frameSize + 8 := by
    rw [List.length_append, Nat.mul_add, length_frame]
    rfl
  exact Stacked.congr (by rw [size]; decide) framed (by rw [size]; exact same)

variable {s s' : Switching}

/-- What suspended tasks have saved depends on its own memory only. -/
theorem Kept.congr {mem mem' : Memory 8} (kept : Kept s.suspended mem)
    (same : ∀ x, Saved s x → mem' x = mem x) : Kept s.suspended mem' := by
  intro tsk saved suspended
  obtain ⟨field, framed⟩ := kept tsk saved suspended
  refine ⟨(read_congr fun x within => same x ?_).trans field,
    framed.congr fun x within => same x ?_⟩
  · exact ⟨tsk, saved, suspended, .inl within⟩
  · exact ⟨tsk, saved, suspended, .inr within⟩

/-- With room for the frame, a switch keeps what suspended tasks have saved. -/
theorem Kept.switch (kept : Kept s.suspended s.cpu.mem) (room : HasRoom s) :
    Kept s.suspended (X86.run s.cpu switchTo).mem :=
  kept.congr fun x saved => run_switchTo_mem s.cpu
    (fun field => room.others x (.inl field) saved)
    (fun frame => room.others x (.inr frame) saved)

/-- With room for the frame, the caller's own frame is kept. -/
theorem run_switchTo_saves (room : HasRoom s) :
    ByteMemory.read (X86.run s.cpu switchTo).mem (espField (s.cpu.regs .di)) =
        s.cpu.regs .sp - BitVec.ofNat _ frameSize ∧
      Framed (X86.run s.cpu switchTo).mem s.cpu := by
  obtain ⟨entered, framed⟩ := run_saving s.cpu
  have own : (X86.run s.cpu saving).regs .di = s.cpu.regs .di :=
    entered.kept (.reg .di) (by decide) (by decide)
  have sp := entered.stored.sp
  rw [← frameSlots, length_frame] at sp
  rw [switchTo_eq, run_append, run_append, run_restoring_mem, (run_exchanging _).1, own, sp]
  refine ⟨read_write_self _, framed.congr fun x within => write_other fun field => ?_⟩
  exact room.own x field within

/-- With room for the frame, a switch resumes its target. -/
theorem run_switchTo_resumes (kept : Kept s.suspended s.cpu.mem) (room : HasRoom s)
    {saved : Cpu 8} (suspended : s.suspended (s.cpu.regs .si) = some saved) :
    Resumes saved (X86.run s.cpu switchTo) := by
  obtain ⟨field, framed⟩ := kept.switch room _ saved suspended
  obtain ⟨entered, _⟩ := run_saving s.cpu
  have target : (X86.run s.cpu saving).regs .si = s.cpu.regs .si :=
    entered.kept (.reg .si) (by decide) (by decide)
  rw [switchTo_eq, run_append, run_append, run_restoring_mem] at field framed
  rw [switchTo_eq, run_append, run_append]
  refine (run_restoring framed ?_).1
  rw [(run_exchanging _).2, target]
  exact field

/-- Steps keep what suspended tasks have saved. -/
theorem Kept.step (kept : Kept s.suspended s.cpu.mem) {i : SwitchInput}
    (respects : Respects ⟨s, i, s'⟩) (room : LeavesRoom ⟨s, i, s'⟩)
    (taken : s.step i = .ok s') : Kept s'.suspended s'.cpu.mem := by
  cases i with
  | compute after =>
    obtain rfl := Except.ok.inj taken
    exact kept.congr (respects after rfl)
  | switch =>
    obtain rfl := Except.ok.inj taken
    intro tsk saved suspended
    dsimp only at suspended
    by_cases next : tsk = s.cpu.regs .si
    · rw [next, Function.update_self] at suspended
      cases suspended
    rw [Function.update_of_ne next] at suspended
    by_cases caller : tsk = s.cpu.regs .di
    · rw [caller, Function.update_self] at suspended
      obtain rfl := Option.some.inj suspended
      rw [caller]
      exact run_switchTo_saves (room rfl)
    · rw [Function.update_of_ne caller] at suspended
      exact kept.switch (room rfl) tsk saved suspended

/-- In every run in which own code respects what suspended tasks have saved, and callers have
room for their frames, a switch resumes a suspended task where and as it was suspended, and
changes no memory but the caller's `esp` field and the frame below its stack pointer. -/
theorem switch_is_transparent {cpu : Cpu 8} {past : List (Move Switching SwitchInput)}
    (run : Run Switching.step ⟨cpu, fun _ => none⟩ past s) (respects : Along Respects past)
    (rooms : Along LeavesRoom past) (room : HasRoom s) :
    (∀ saved, s.suspended (s.cpu.regs .si) = some saved →
      Resumes saved (X86.run s.cpu switchTo)) ∧
    ∀ x, ¬Within (espField (s.cpu.regs .di)) 8 x →
      ¬Within (s.cpu.regs .sp - BitVec.ofNat _ frameSize) frameSize x →
      (X86.run s.cpu switchTo).mem x = s.cpu.mem x := by
  have initial : Kept (fun _ => none) cpu.mem := by simp [Kept]
  have kept : Kept s.suspended s.cpu.mem :=
    run.invariant (fun move => Respects move ∧ LeavesRoom move)
      (fun s => Kept s.suspended s.cpu.mem) initial
      (fun _ _ _ kept condition taken => kept.step condition.1 condition.2 taken)
      fun move member => ⟨respects move member, rooms move member⟩
  exact ⟨fun saved suspended => run_switchTo_resumes kept room suspended,
    fun x => run_switchTo_mem s.cpu⟩

/-- A caller for two tasks, with a stack pointer and otherwise zeroed registers. The second
task's stack pointer is `0x30000`, and the rest of the memory is zeroed. -/
def callerOf (tsk next sp : Word 8) : Cpu 8 where
  regs := fun
    | .di => tsk
    | .si => next
    | .sp => sp
    | _ => 0
  flags := 0
  ip := 0
  mem := write (fun _ => 0) (espField next) 0x30000

/-- A task at `0x1000` with a stack pointer has suspended itself for a task at `0x2000`, which
is about to call `switch_to` to get back to it. -/
def thereAndBack (sp : Word 8) : Switching where
  cpu :=
    let after := X86.run (callerOf 0x1000 0x2000 sp) switchTo
    { after with
      regs := Function.update (Function.update after.regs .di 0x2000) .si 0x1000 }
  suspended := Function.update
    (Function.update (fun _ => none) 0x1000 (some (callerOf 0x1000 0x2000 sp))) 0x2000 none

/-- Going there and back is a run, in which own code respects what is saved. -/
theorem run_thereAndBack (sp : Word 8) : ∃ past,
    Run Switching.step ⟨callerOf 0x1000 0x2000 sp, fun _ => none⟩ past (thereAndBack sp) ∧
      Along Respects past ∧
      ∀ move ∈ past, move.input = .switch →
        move.before = ⟨callerOf 0x1000 0x2000 sp, fun _ => none⟩ := by
  refine ⟨_, .move (i := .compute (thereAndBack sp).cpu) (.move (i := .switch) .start rfl) rfl,
    ?_, ?_⟩
  · refine along_cons.mpr ⟨?_, along_cons.mpr ⟨(by rintro _ ⟨⟩), (by rintro _ ⟨⟩)⟩⟩
    rintro _ ⟨⟩ x _
    rfl
  · intro move member called
    rcases List.mem_cons.mp member with rfl | member
    · cases called
    · rw [List.mem_singleton.mp member]

/-- The way back leads to the suspended task. -/
theorem thereAndBack_suspended (sp : Word 8) :
    (thereAndBack sp).suspended ((thereAndBack sp).cpu.regs .si) =
      some (callerOf 0x1000 0x2000 sp) := rfl

/-- A task with room on its stack resumes. -/
theorem switch_is_transparent_thereAndBack : Resumes (callerOf 0x1000 0x2000 0x20000)
    (X86.run (thereAndBack 0x20000).cpu switchTo) := by
  obtain ⟨past, run, respects, first⟩ := run_thereAndBack 0x20000
  refine (switch_is_transparent run respects (fun move member called => ?_) ⟨?_, ?_⟩).1 _
    (thereAndBack_suspended 0x20000)
  · rw [first move member called]
    refine ⟨apart_of_le (by decide) (by decide), ?_⟩
    rintro x _ ⟨tsk, saved, suspended, _⟩
    cases suspended
  · have sp : (thereAndBack 0x20000).cpu.regs .sp = 0x30088 := by decide +kernel
    rw [sp]
    exact apart_of_le (by decide +kernel) (by decide +kernel)
  · have sp : (thereAndBack 0x20000).cpu.regs .sp = 0x30088 := by decide +kernel
    rw [sp]
    rintro x within ⟨tsk, saved, suspended, inside⟩
    obtain ⟨rfl, rfl⟩ : tsk = 0x1000 ∧ saved = callerOf 0x1000 0x2000 0x20000 := by
      simp only [thereAndBack, Function.update_apply] at suspended
      split at suspended
      · cases suspended
      · split at suspended
        · exact ⟨‹_›, (Option.some.inj suspended).symm⟩
        · cases suspended
    rcases within with field | frame <;> rcases inside with field' | frame'
    · exact apart_of_le (by decide +kernel) (by decide +kernel) x field field'
    · exact apart_of_le (by decide +kernel) (by decide +kernel) x field frame'
    · exact apart_of_le (by decide +kernel) (by decide +kernel) x frame field'
    · exact apart_of_le (by decide +kernel) (by decide +kernel) x frame frame'

/-- A task whose stack has grown down to its `esp` field does not resume as it was: the field
overwrites the frame pointer it has saved. -/
theorem switch_is_transparent_fails : ¬∀ (cpu : Cpu 8) (past : List (Move Switching SwitchInput))
    (s : Switching), Run Switching.step ⟨cpu, fun _ => none⟩ past s → Along Respects past →
    ∀ saved, s.suspended (s.cpu.regs .si) = some saved →
      Resumes saved (X86.run s.cpu switchTo) := by
  intro allResume
  obtain ⟨past, run, respects, _⟩ := run_thereAndBack 0x1010
  have resumes := allResume _ _ _ run respects _ (thereAndBack_suspended 0x1010)
  have changed : (X86.run (thereAndBack 0x1010).cpu switchTo).regs .bp ≠ 0 := by decide +kernel
  exact changed (resumes.slots (.reg .bp) (by decide))

end LibcoLite
