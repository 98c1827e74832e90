import LibcoLite.Thread
import LibcoLite.Lib.Memory

/-!
# The task block in memory

Where a compiler for x86_64 or i386 places the fields of `task_struct_t`, and what
`co_create` writes into the block: the fields, the stack pointer `switch_to` will load, and
at the end of `stack` the frame it will pop.
-/

namespace LibcoLite

open ByteMemory

/-- Size and alignment of a member of a structure, in bytes. -/
structure Member where
  /-- Its size. -/
  size : Nat
  /-- Its alignment. -/
  align : Nat

/-- `STACK_SIZE`, length of `stack`. -/
def stackSize : Nat := 1024 * 128

/-- The members of `task_struct_t`. -/
inductive Field where
  | id
  | wakeuptime
  | esp
  | coFn
  | arg
  | threadEnv
  | status
  | blockEntry
  | fdsIdx
  | fds
  | events
  | revents
  | stack
deriving DecidableEq, Repr

/-- `struct epoll_event`: packed on x86_64, where pointers have eight bytes. -/
def epollEventMember (n : Nat) : Member := ⟨12, if n = 8 then 1 else 4⟩

/-- `struct task_struct_t` with pointers of a number of bytes. -/
def taskMembers (n : Nat) : List (Field × Member) := [
  (.id, ⟨4, 4⟩),
  (.wakeuptime, ⟨4, 4⟩),
  (.esp, ⟨n, n⟩),
  (.coFn, ⟨n, n⟩),
  (.arg, ⟨n, n⟩),
  (.threadEnv, ⟨n, n⟩),
  (.status, ⟨4, 4⟩),
  (.blockEntry, ⟨2 * n, n⟩),
  (.fdsIdx, ⟨4, 4⟩),
  (.fds, ⟨4 * maxFd, 4⟩),
  (.events, ⟨(epollEventMember n).size * maxFd, (epollEventMember n).align⟩),
  (.revents, ⟨4 * maxFd, 4⟩),
  (.stack, ⟨n * stackSize, n⟩)]

/-- The first multiple of an alignment from an offset on. -/
def alignUp (offset align : Nat) : Nat := (offset + (align - 1)) / align * align

/-- The offset of a member, where members follow one another from an offset on, each at a
multiple of its alignment; the end of the members for any other field. -/
def offsetFrom (field : Field) : Nat → List (Field × Member) → Nat
  | start, [] => start
  | start, (other, member) :: rest =>
    if other = field then alignUp start member.align
    else offsetFrom field (alignUp start member.align + member.size) rest

/-- The offset of a member of `task_struct_t`. -/
def taskOffset (n : Nat) (field : Field) : Nat := offsetFrom field 0 (taskMembers n)

example : taskOffset 8 .stack = 20552 := by decide

/-- The bytes from the beginning of a task to the end of its stack. -/
def taskSize (n : Nat) : Nat := taskOffset n .stack + n * stackSize

variable {n : Nat}

/-- The address of a member of a task. -/
def fieldOf (tsk : Word n) (field : Field) : Word n := tsk + BitVec.ofNat _ (taskOffset n field)

/-- The address of a slot of a task's stack. -/
def stackSlot (tsk : Word n) (i : Nat) : Word n :=
  tsk + BitVec.ofNat _ (taskOffset n .stack + n * i)

/-- The slot at which a frame begins that ends with the stack. -/
def frameSlot (tsk : Word n) (frame : List (Word n)) : Word n :=
  stackSlot tsk (stackSize - frame.length)

/-- What `co_create` makes of the memory: the zeroed block, its fields, and the frame at the
end of its stack. -/
def coCreateBlock (frame : List (Word n)) (id : BitVec 32) (startRoutine arg threadEnv tsk : Word n)
    (mem : Memory n) : Memory n :=
  let mem := zero mem tsk (taskSize n)
  let mem := writeBytes mem 4 (fieldOf tsk .id) id
  let mem := write mem (fieldOf tsk .coFn) startRoutine
  let mem := write mem (fieldOf tsk .arg) arg
  let mem := write mem (fieldOf tsk .threadEnv) threadEnv
  let mem := writeBytes mem 4 (fieldOf tsk .wakeuptime) 0
  let mem := writeBytes mem 4 (fieldOf tsk .status) 0
  let mem := writeBytes mem 4 (fieldOf tsk .fdsIdx) 0
  let mem := write mem (fieldOf tsk .esp) (frameSlot tsk frame)
  writeRow mem (frameSlot tsk frame) frame

/-- The frame `co_create` writes on x86_64. -/
def frameX8664 (tsk start : Word 8) : List (Word 8) := [
  15, -- r15
  14, -- r14
  13, -- r13
  12, -- r12
  11, -- r11
  10, -- r10
  9, -- r9
  8, -- r8
  7, -- eflags
  6, -- rax
  5, -- rcx
  4, -- rdx
  3, -- rbx
  2, -- rsi
  tsk, -- rdi
  0, -- old ebp
  start, -- ret to start
  100] -- ret to unknown

/-- The frame `co_create` writes on i386. -/
def frameI386 (tsk start : Word 4) : List (Word 4) := [
  7, -- eflags
  6, -- eax
  5, -- ecx
  4, -- edx
  3, -- ebx
  2, -- esi
  1, -- edi
  0, -- old ebp
  start, -- ret to start
  100, -- ret to unknown
  tsk] -- argument of start

/-- `co_create` on x86_64. -/
def coCreateX8664 (id : BitVec 32) (startRoutine arg threadEnv start tsk : Word 8) :
    Memory 8 → Memory 8 :=
  coCreateBlock (frameX8664 tsk start) id startRoutine arg threadEnv tsk

/-- `co_create` on i386. -/
def coCreateI386 (id : BitVec 32) (startRoutine arg threadEnv start tsk : Word 4) :
    Memory 4 → Memory 4 :=
  coCreateBlock (frameI386 tsk start) id startRoutine arg threadEnv tsk

/-- A task has not run yet: its stack pointer is the address of a frame at the end of its
stack. -/
structure Fresh (frame : List (Word n)) (tsk : Word n) (mem : Memory n) : Prop where
  /-- The `esp` field. -/
  esp : read mem (fieldOf tsk .esp) = frameSlot tsk frame
  /-- The frame. -/
  stacked : Stacked mem (frameSlot tsk frame) frame

/-- The addresses that belong to the `esp` field or to a frame at the end of the stack. -/
def Prepared (frame : List (Word n)) (tsk : Word n) (x : Word n) : Prop :=
  Within (fieldOf tsk .esp) n x ∨ Within (frameSlot tsk frame) (n * frame.length) x

/-- The `esp` field, the stack and the address space of a machine. -/
structure Placed (n : Nat) : Prop where
  /-- The `esp` field is in front of the stack. -/
  esp : taskOffset n .esp + n ≤ taskOffset n .stack
  /-- The block fits the address space. -/
  fits : taskSize n ≤ 2 ^ (8 * n)

/-- On x86_64 the members are at these places. -/
theorem placedX8664 : Placed 8 := ⟨by decide, by decide⟩

/-- On i386, too. -/
theorem placedI386 : Placed 4 := ⟨by decide, by decide⟩

variable {frame : List (Word n)} {tsk : Word n} {mem mem' : Memory n}

/-- The words of a frame at the end of the stack. -/
theorem frame_fits (short : frame.length ≤ stackSize) :
    taskOffset n .stack + n * (stackSize - frame.length) + n * frame.length = taskSize n := by
  rw [Nat.add_assoc, ← Nat.mul_add, Nat.sub_add_cancel short]
  rfl

/-- What is prepared lies in the task's block. -/
theorem Prepared.within (placed : Placed n) (short : frame.length ≤ stackSize) {x : Word n}
    (prepared : Prepared frame tsk x) : Within tsk (taskSize n) x := by
  have size := frame_fits short
  rcases prepared with field | slot
  · apply field.of_offset _ placed.fits
    have front := placed.esp
    unfold taskSize
    omega
  · exact slot.of_offset (by omega) placed.fits

/-- A task that has not run yet stays so while what is prepared stays. -/
theorem Fresh.congr (fresh : Fresh frame tsk mem) (placed : Placed n)
    (short : frame.length ≤ stackSize) (same : ∀ x, Prepared frame tsk x → mem' x = mem x) :
    Fresh frame tsk mem' := by
  have size := frame_fits short
  have fits := placed.fits
  constructor
  · rw [← fresh.esp]
    apply read_congr
    intro x within
    exact same x (.inl within)
  · apply fresh.stacked.congr (by omega)
    intro x within
    exact same x (.inr within)

/-- `co_create` leaves a task that has not run yet. -/
theorem coCreateBlock_fresh (placed : Placed n) (short : frame.length ≤ stackSize)
    (id : BitVec 32) (startRoutine arg threadEnv : Word n) :
    Fresh frame tsk (coCreateBlock frame id startRoutine arg threadEnv tsk mem) := by
  have size := frame_fits short
  have fits := placed.fits
  have front := placed.esp
  constructor
  · rw [← read_write_self (frameSlot tsk frame)]
    apply read_congr
    intro x within
    apply writeRow_other (by omega)
    exact apart_offsets (by omega) (by omega) x within
  · exact stacked_writeRow (by omega)

end LibcoLite
