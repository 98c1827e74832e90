import LibcoLite.Records
import LibcoLite.Replay
import LibcoLite.Status

/-!
# Programs on the library

The code that runs on the library: for every task the place in its own code, with its
variables there. A program says which call comes next at a place, and to which place the
result of the call leads. The results of system calls come from the kernel. A thread with its
tasks' places is a world; what a world does to its thread are steps of the thread, so that
everything that holds of all runs of a thread holds of the worlds of every program.
-/

namespace LibcoLite

open Transition (Move Run bind_eq_ok bind_eq_error execute movesOf outcome run_of_outcome)

/-- What the system call behind a blocking call returns. -/
inductive Answer where
  /-- A negative number. -/
  | failed
  /-- The descriptor of an accepted connection. -/
  | accepted (fd : Nat)
  /-- The bytes that were read, none at the end of the stream. -/
  | data (bytes : List UInt8)
  /-- The number of bytes that were written. -/
  | wrote (count : Nat)
deriving DecidableEq, Repr

/-- The answers a system call can give. -/
def Answer.fits : Answer → Call → Bool
  | .failed, _ => true
  | .accepted _, .accept => true
  | .data _, .read => true
  | .wrote _, .write => true
  | _, _ => false

/-- What a task's own code does next. -/
inductive Action (Place : Type) where
  /-- It calls `co_create` for a routine. -/
  | create (routine : Place)
  /-- It calls `co_join`. -/
  | join (cid : Nat)
  /-- It calls `co_sleep`. -/
  | sleep (seconds : Int)
  /-- It makes a blocking call. -/
  | io (call : Call) (fd : Nat)
  /-- It calls `co_eventloop`. -/
  | eventloop
  /-- Its `start_routine` returns. -/
  | ret
  /-- It calls `exit`. -/
  | exit
  /-- It leaves an array of its own. -/
  | overrun
deriving DecidableEq, Repr

/-- The code of the tasks of a thread. -/
structure Program (Place : Type) where
  /-- The call that comes next. -/
  action : Place → Action Place
  /-- The place behind `co_create`, for the id it has stored, if it has. -/
  created : Place → Option Nat → Place
  /-- The place behind `co_join` and `co_sleep`. -/
  resumed : Place → Place
  /-- The place behind a blocking call. -/
  answered : Place → Answer → Place

/-- A thread with the place of every task in its own code. -/
structure World (Place : Type) where
  /-- The thread. -/
  thread : State
  /-- Where the tasks are. -/
  places : TaskPtr → Place

/-- What the environment decides about a step of a world. -/
inductive Choice where
  /-- The task's own code goes on, and the kernel grants an `epoll_ctl` or not. -/
  | own (granted : Bool)
  /-- The system call behind a blocking call returns. -/
  | answer (answer : Answer)
  /-- The library goes on. -/
  | library (i : Input)
deriving DecidableEq, Repr

/-- The descriptor of a connection that is accepted. -/
def Choice.connection : Choice → Option Nat
  | .answer (.accepted fd) => some fd
  | _ => none

/-- The bytes that are read. -/
def Choice.bytes : Choice → Option (List UInt8)
  | .answer (.data bytes) => some bytes
  | _ => none

variable {Place : Type}

namespace World

/-- The place of the current task. -/
def place (w : World Place) : Place := w.places w.thread.current

/-- Go on with a thread, and with the current task at a place. -/
def become (w : World Place) (thread : State) (place : Place) : World Place :=
  ⟨thread, Function.update w.places w.thread.current place⟩

/-- The current task is at the place. -/
@[simp]
theorem become_places (w : World Place) (thread : State) (place : Place) :
    (w.become thread place).places w.thread.current = place := Function.update_self ..

/-- Go on with a thread in which a task was created, the current task at a place and the new one
in its routine. -/
def spawn (w : World Place) (thread : State) (place routine : Place) : World Place :=
  ⟨thread, Function.update (Function.update w.places w.thread.current place)
    w.thread.fresh routine⟩

/-- The id `co_create` stores for the next task, if it finds a slot. -/
def nextId (w : World Place) : Option Nat :=
  let (_, ret, cid) := coCreate (some 0) w.thread
  if ret < 0 then none else cid.map Int.toNat

/-- The current task's own code makes its next call, where the thread steps as given. -/
def act (next : State → Input → Except Stop State) (program : Program Place) (granted : Bool)
    (w : World Place) : Except Stop (World Place) :=
  match program.action w.place with
  | .create routine => do
    let thread ← next w.thread (.create (some 0))
    match w.nextId with
    | none => .ok (w.become thread (program.created w.place none))
    | some id => .ok (w.spawn thread (program.created w.place (some id)) routine)
  | .join cid => do
    let thread ← next w.thread (.join cid)
    .ok (w.become thread (program.resumed w.place))
  | .sleep seconds => do
    let thread ← next w.thread (.sleep seconds)
    .ok (w.become thread (program.resumed w.place))
  | .io call fd => do
    let thread ← next w.thread (.io call fd granted)
    if thread.pc w.thread.current = .user then
      .ok (w.become thread (program.answered w.place .failed))
    else .ok { w with thread }
  | .eventloop => do
    let thread ← next w.thread .eventloop
    .ok { w with thread }
  | .ret => do
    let thread ← next w.thread .ret
    .ok { w with thread }
  | .exit => .error .exited
  | .overrun => .error .bounds

/-- One step of a world whose thread steps as given. -/
def stepBy (next : State → Input → Except Stop State) (program : Program Place)
    (w : World Place) : Choice → Except Stop (World Place)
  | .own granted =>
    if w.thread.pc w.thread.current = .user then w.act next program granted
    else .error .disabled
  | .answer answer =>
    match w.thread.pc w.thread.current with
    | .syscall call _ =>
      if answer.fits call then do
        let thread ← next w.thread .run
        .ok (w.become thread (program.answered w.place answer))
      else .error .disabled
    | _ => .error .disabled
  | .library i =>
    match w.thread.pc w.thread.current with
    | .user => .error .disabled
    | .syscall _ _ => .error .disabled
    | .wait _ _ => do
      let thread ← next w.thread i
      -- a wait that ends in the task's own code ends in a failing `epoll_ctl`
      if thread.pc w.thread.current = .user then
        .ok (w.become thread (program.answered w.place .failed))
      else .ok { w with thread }
    | _ => do
      let thread ← next w.thread i
      .ok { w with thread }

/-- One step of a world. -/
def step (program : Program Place) : World Place → Choice → Except Stop (World Place) :=
  stepBy LibcoLite.step program

/-- What a step of a world is to its thread. -/
def input (program : Program Place) (w : World Place) : Choice → Input
  | .own granted =>
    match program.action w.place with
    | .create _ => .create (some 0)
    | .join cid => .join cid
    | .sleep seconds => .sleep seconds
    | .io call fd => .io call fd granted
    | .eventloop => .eventloop
    | .ret => .ret
    | .exit => .run
    | .overrun => .run
  | .answer _ => .run
  | .library i => i

/-- The world at the start of a thread, its initial task at a place. -/
def init (self : EnvPtr) (clock : Nat → Nat) (main : Place) : World Place :=
  ⟨State.init self clock, fun _ => main⟩

end World

/-- The steps a world has taken, latest first. -/
abbrev WorldHistory (Place : Type) := List (Move (World Place) Choice)

/-- The world of a program gets from the start of its thread to a world. -/
abbrev WorldRun (program : Program Place) (main : Place) (self : EnvPtr) (clock : Nat → Nat) :
    WorldHistory Place → World Place → Prop :=
  Run (World.step program) (World.init self clock main)

/-- A move of a world as a move of its thread. -/
abbrev threadMove (program : Program Place) :
    Move (World Place) Choice → Move State Input :=
  Move.view World.thread (World.input program)

/-! ## What a step of a world does -/

/-- The kinds of steps of a world, each with its guard and the places it leaves. -/
inductive WorldCases (program : Program Place) (w : World Place) :
    Choice → World Place → Prop where
  /-- `co_create` makes a task. -/
  | creates (granted : Bool) (thread : State) (routine : Place) (id : Nat) :
      w.thread.pc w.thread.current = .user → program.action w.place = .create routine →
      w.nextId = some id →
      WorldCases program w (.own granted)
        (w.spawn thread (program.created w.place (some id)) routine)
  /-- `co_create` finds no slot. -/
  | full (granted : Bool) (thread : State) (routine : Place) :
      w.thread.pc w.thread.current = .user → program.action w.place = .create routine →
      w.nextId = none →
      WorldCases program w (.own granted) (w.become thread (program.created w.place none))
  /-- `co_join` is called. -/
  | joins (granted : Bool) (thread : State) (cid : Nat) :
      w.thread.pc w.thread.current = .user → program.action w.place = .join cid →
      WorldCases program w (.own granted) (w.become thread (program.resumed w.place))
  /-- `co_sleep` is called. -/
  | sleeps (granted : Bool) (thread : State) (seconds : Int) :
      w.thread.pc w.thread.current = .user → program.action w.place = .sleep seconds →
      WorldCases program w (.own granted) (w.become thread (program.resumed w.place))
  /-- A blocking call comes to its wait loop. -/
  | calls (granted : Bool) (thread : State) (call : Call) (fd : Nat) :
      w.thread.pc w.thread.current = .user → program.action w.place = .io call fd →
      thread.pc w.thread.current ≠ .user →
      WorldCases program w (.own granted) { w with thread }
  /-- A blocking call is refused. -/
  | refused (granted : Bool) (thread : State) (call : Call) (fd : Nat) :
      w.thread.pc w.thread.current = .user → program.action w.place = .io call fd →
      thread.pc w.thread.current = .user →
      WorldCases program w (.own granted) (w.become thread (program.answered w.place .failed))
  /-- `co_eventloop` is called. -/
  | loops (granted : Bool) (thread : State) : w.thread.pc w.thread.current = .user →
      program.action w.place = .eventloop →
      WorldCases program w (.own granted) { w with thread }
  /-- The `start_routine` returns. -/
  | returns (granted : Bool) (thread : State) : w.thread.pc w.thread.current = .user →
      program.action w.place = .ret → WorldCases program w (.own granted) { w with thread }
  /-- A system call returns. -/
  | answers (answer : Answer) (thread : State) (call : Call) (fd : Nat) :
      w.thread.pc w.thread.current = .syscall call fd → answer.fits call = true →
      WorldCases program w (.answer answer) (w.become thread (program.answered w.place answer))
  /-- A wait ends in a failing `epoll_ctl`. -/
  | fails (i : Input) (thread : State) (call : Call) (fd : Nat) :
      w.thread.pc w.thread.current = .wait call fd → thread.pc w.thread.current = .user →
      WorldCases program w (.library i) (w.become thread (program.answered w.place .failed))
  /-- The library goes on. -/
  | library (i : Input) (thread : State) : w.thread.pc w.thread.current ≠ .user →
      (∀ call fd, w.thread.pc w.thread.current ≠ .syscall call fd) →
      (∀ call fd, w.thread.pc w.thread.current = .wait call fd →
        thread.pc w.thread.current ≠ .user) →
      WorldCases program w (.library i) { w with thread }

variable {program : Program Place} {w w' : World Place} {choice : Choice}

/-- A step of a world is a step of its thread, of one of the kinds. -/
theorem stepBy_cases {next : State → Input → Except Stop State}
    (taken : w.stepBy next program choice = .ok w') :
    next w.thread (w.input program choice) = .ok w'.thread ∧
      WorldCases program w choice w' := by
  cases choice with
  | own granted =>
    simp only [World.stepBy] at taken
    split at taken
    case isFalse => contradiction
    rename_i user
    unfold World.act at taken
    unfold World.input
    cases does : program.action w.place with
    | create routine =>
      simp only [does] at taken ⊢
      obtain ⟨thread, stepped, taken⟩ := bind_eq_ok.mp taken
      cases id : w.nextId with
      | none =>
        simp only [id] at taken
        obtain rfl := Except.ok.inj taken
        exact ⟨stepped, .full granted thread routine user does id⟩
      | some id' =>
        simp only [id] at taken
        obtain rfl := Except.ok.inj taken
        exact ⟨stepped, .creates granted thread routine id' user does id⟩
    | join cid =>
      simp only [does] at taken ⊢
      obtain ⟨thread, stepped, taken⟩ := bind_eq_ok.mp taken
      obtain rfl := Except.ok.inj taken
      exact ⟨stepped, .joins granted thread cid user does⟩
    | sleep seconds =>
      simp only [does] at taken ⊢
      obtain ⟨thread, stepped, taken⟩ := bind_eq_ok.mp taken
      obtain rfl := Except.ok.inj taken
      exact ⟨stepped, .sleeps granted thread seconds user does⟩
    | io call fd =>
      simp only [does] at taken ⊢
      obtain ⟨thread, stepped, taken⟩ := bind_eq_ok.mp taken
      split at taken
      · rename_i returned
        obtain rfl := Except.ok.inj taken
        exact ⟨stepped, .refused granted thread call fd user does returned⟩
      · rename_i inside
        obtain rfl := Except.ok.inj taken
        exact ⟨stepped, .calls granted thread call fd user does inside⟩
    | eventloop =>
      simp only [does] at taken ⊢
      obtain ⟨thread, stepped, taken⟩ := bind_eq_ok.mp taken
      obtain rfl := Except.ok.inj taken
      exact ⟨stepped, .loops granted thread user does⟩
    | ret =>
      simp only [does] at taken ⊢
      obtain ⟨thread, stepped, taken⟩ := bind_eq_ok.mp taken
      obtain rfl := Except.ok.inj taken
      exact ⟨stepped, .returns granted thread user does⟩
    | exit =>
      simp only [does] at taken
      contradiction
    | overrun =>
      simp only [does] at taken
      contradiction
  | answer given =>
    simp only [World.stepBy] at taken
    split at taken
    · rename_i call fd pc
      split at taken
      case isFalse => contradiction
      rename_i fits
      obtain ⟨thread, stepped, taken⟩ := bind_eq_ok.mp taken
      obtain rfl := Except.ok.inj taken
      exact ⟨stepped, .answers given thread call fd pc fits⟩
    · contradiction
  | library i =>
    simp only [World.stepBy] at taken
    split at taken
    · contradiction
    · contradiction
    · rename_i call fd pc
      obtain ⟨thread, stepped, taken⟩ := bind_eq_ok.mp taken
      split at taken
      · rename_i returned
        obtain rfl := Except.ok.inj taken
        exact ⟨stepped, .fails i thread call fd pc returned⟩
      · rename_i inside
        obtain rfl := Except.ok.inj taken
        exact ⟨stepped, .library i thread (by simp [pc]) (by simp [pc]) fun _ _ _ => inside⟩
    · rename_i notUser notSyscall notWait
      obtain ⟨thread, stepped, taken⟩ := bind_eq_ok.mp taken
      obtain rfl := Except.ok.inj taken
      refine ⟨stepped, .library i thread notUser notSyscall ?_⟩
      intro call fd pc
      exact absurd pc (notWait call fd)

/-- A step of the thread of one of the kinds is a step of the world. -/
theorem stepBy_of_cases {next : State → Input → Except Stop State}
    (stepped : next w.thread (w.input program choice) = .ok w'.thread)
    (kind : WorldCases program w choice w') : w.stepBy next program choice = .ok w' := by
  cases kind with
  | creates granted thread routine id user does slot =>
    simp only [World.input, does] at stepped
    simp only [World.stepBy, user, ↓reduceIte, World.act, does, stepped, slot, bind, Except.bind]
    rfl
  | full granted thread routine user does slot =>
    simp only [World.input, does] at stepped
    simp only [World.stepBy, user, ↓reduceIte, World.act, does, stepped, slot, bind, Except.bind]
    rfl
  | joins granted thread cid user does =>
    simp only [World.input, does] at stepped
    simp only [World.stepBy, user, ↓reduceIte, World.act, does, stepped, bind, Except.bind]
    rfl
  | sleeps granted thread seconds user does =>
    simp only [World.input, does] at stepped
    simp only [World.stepBy, user, ↓reduceIte, World.act, does, stepped, bind, Except.bind]
    rfl
  | calls granted thread call fd user does inside =>
    simp only [World.input, does] at stepped
    simp only [World.stepBy, user, ↓reduceIte, World.act, does, stepped, inside, bind, Except.bind]
  | refused granted thread call fd user does returned =>
    simp only [World.input, does] at stepped
    have returned : thread.pc w.thread.current = .user := returned
    simp only [World.stepBy, user, ↓reduceIte, World.act, does, bind, Except.bind]
    rw [stepped]
    simp [World.become, returned]
  | loops granted thread user does =>
    simp only [World.input, does] at stepped
    simp only [World.stepBy, user, ↓reduceIte, World.act, does, stepped, bind, Except.bind]
  | returns granted thread user does =>
    simp only [World.input, does] at stepped
    simp only [World.stepBy, user, ↓reduceIte, World.act, does, stepped, bind, Except.bind]
  | answers answer thread call fd pc fits =>
    simp only [World.input] at stepped
    simp only [World.stepBy, pc, fits, ↓reduceIte, bind, Except.bind]
    rw [stepped]
    rfl
  | fails i thread call fd pc returned =>
    simp only [World.input] at stepped
    simp only [World.stepBy, pc, bind, Except.bind]
    rw [stepped]
    simp [World.become, returned]
  | library i thread notUser notSyscall stays =>
    simp only [World.input] at stepped
    cases pc : w.thread.pc w.thread.current with
    | user => exact absurd pc notUser
    | syscall call fd => exact absurd pc (notSyscall call fd)
    | wait call fd => simp [World.stepBy, pc, stepped, stays call fd pc, bind, Except.bind]
    | _ => simp [World.stepBy, pc, stepped, bind, Except.bind]

/-- A world stops where its thread does, where the choice does not fit, or where its own code
ends the process or leaves an array. -/
theorem stepBy_stops {next : State → Input → Except Stop State} {stop : Stop}
    (stopped : w.stepBy next program choice = .error stop) :
    next w.thread (w.input program choice) = .error stop ∨ stop = .disabled ∨
      w.thread.pc w.thread.current = .user ∧
        (stop = .exited ∧ program.action w.place = .exit ∨
          stop = .bounds ∧ program.action w.place = .overrun) := by
  -- a branch that goes on behind the step of the thread does not stop there
  have behind {thread : Except Stop State} {rest : State → Except Stop (World Place)}
      (stops : thread >>= rest = .error stop) (goes : ∀ after, rest after ≠ .error stop) :
      thread = .error stop := by
    rcases bind_eq_error.mp stops with failed | ⟨after, _, failed⟩
    · exact failed
    · exact absurd failed (goes after)
  cases choice with
  | own granted =>
    simp only [World.stepBy] at stopped
    split at stopped
    case isFalse =>
      cases stopped
      exact .inr (.inl rfl)
    rename_i user
    unfold World.act at stopped
    unfold World.input
    cases does : program.action w.place with
    | create routine =>
      simp only [does] at stopped ⊢
      exact .inl (behind stopped (by intro after; split <;> simp))
    | join cid =>
      simp only [does] at stopped ⊢
      exact .inl (behind stopped (by simp))
    | sleep seconds =>
      simp only [does] at stopped ⊢
      exact .inl (behind stopped (by simp))
    | io call fd =>
      simp only [does] at stopped ⊢
      exact .inl (behind stopped (by intro after; split <;> simp))
    | eventloop =>
      simp only [does] at stopped ⊢
      exact .inl (behind stopped (by simp))
    | ret =>
      simp only [does] at stopped ⊢
      exact .inl (behind stopped (by simp))
    | exit =>
      simp only [does] at stopped
      cases stopped
      exact .inr (.inr ⟨user, .inl ⟨rfl, rfl⟩⟩)
    | overrun =>
      simp only [does] at stopped
      cases stopped
      exact .inr (.inr ⟨user, .inr ⟨rfl, rfl⟩⟩)
  | answer given =>
    simp only [World.stepBy] at stopped
    split at stopped
    · split at stopped
      · exact .inl (behind stopped (by simp))
      · cases stopped
        exact .inr (.inl rfl)
    · cases stopped
      exact .inr (.inl rfl)
  | library i =>
    simp only [World.stepBy] at stopped
    split at stopped
    · cases stopped
      exact .inr (.inl rfl)
    · cases stopped
      exact .inr (.inl rfl)
    · exact .inl (behind stopped (by intro after; split <;> simp))
    · exact .inl (behind stopped (by simp))

/-- A step of a world is a step of its thread. -/
theorem world_thread (taken : w.step program choice = .ok w') :
    step w.thread (w.input program choice) = .ok w'.thread :=
  (stepBy_cases taken).1

/-- A step of a world is of one of the kinds. -/
theorem world_cases (taken : w.step program choice = .ok w') : WorldCases program w choice w' :=
  (stepBy_cases taken).2

variable {main : Place} {self : EnvPtr} {clock : Nat → Nat} {past : WorldHistory Place}

/-- A run of a program is a run of its thread. -/
theorem thread_of_run (run : WorldRun program main self clock past w) :
    ThreadRun self clock (past.map (threadMove program)) w.thread :=
  run.project World.thread (World.input program) fun _ _ _ => world_thread

/-- In a run of a program the task table is in order. -/
theorem world_integrity (run : WorldRun program main self clock past w) : Integrity w.thread :=
  integrity_of_run (thread_of_run run)

/-- A task other than the current and the next one keeps its place. -/
theorem WorldCases.other (kind : WorldCases program w choice w') {p : TaskPtr}
    (away : p ≠ w.thread.current) (old : p ≠ w.thread.fresh) : w'.places p = w.places p := by
  cases kind with
  | creates granted thread routine id =>
    simp [World.spawn, Function.update_of_ne old, Function.update_of_ne away]
  | full | joins | sleeps | refused | answers | fails => exact Function.update_of_ne away _ _
  | calls | loops | returns | library => rfl

/-- A task of the world keeps its place, or it is the current one and a call of its has
returned. -/
theorem WorldCases.place (kind : WorldCases program w choice w') (inv : Integrity w.thread)
    {p : TaskPtr} (alive : w.thread.live p = true) :
    w'.places p = w.places p ∨ p = w.thread.current ∧
      ((∃ routine id, program.action w.place = .create routine ∧
          w'.places p = program.created w.place id) ∨
        w'.places p = program.resumed w.place ∨
        ∃ answer, w'.places p = program.answered w.place answer ∧
          (answer = .failed ∨ choice = .answer answer)) := by
  by_cases own : p = w.thread.current
  · subst own
    have away : w.thread.current ≠ w.thread.fresh := inv.notFresh alive
    cases kind with
    | creates granted thread routine id user does =>
      exact .inr ⟨rfl, .inl ⟨routine, some id, does, by
        simp [World.spawn, Function.update_of_ne away]⟩⟩
    | full granted thread routine user does =>
      exact .inr ⟨rfl, .inl ⟨routine, none, does, Function.update_self ..⟩⟩
    | joins => exact .inr ⟨rfl, .inr (.inl (Function.update_self ..))⟩
    | sleeps => exact .inr ⟨rfl, .inr (.inl (Function.update_self ..))⟩
    | refused =>
      exact .inr ⟨rfl, .inr (.inr ⟨.failed, Function.update_self .., .inl rfl⟩)⟩
    | fails =>
      exact .inr ⟨rfl, .inr (.inr ⟨.failed, Function.update_self .., .inl rfl⟩)⟩
    | answers answer =>
      exact .inr ⟨rfl, .inr (.inr ⟨answer, Function.update_self .., .inr rfl⟩)⟩
    | calls | loops | returns | library => exact .inl rfl
  · exact .inl (kind.other own (inv.notFresh alive))

/-- `co_create` finds a slot for a new task, or leaves the thread as it is. -/
theorem World.nextId_cases (w : World Place) :
    (∃ id, w.nextId = some id) ∨
      w.nextId = none ∧ (coCreate (some 0) w.thread).1 = w.thread := by
  unfold World.nextId
  rcases coCreate_cases (some 0) w.thread with ⟨id, _, _, _, made⟩ | ⟨_, made⟩
  · left
    rw [made]
    exact ⟨id, by simp⟩
  · right
    rw [made]
    exact ⟨by simp, rfl⟩

/-- A task that a step has made live is a new one, in the routine the current task has created it
for. -/
theorem WorldCases.spawned (kind : WorldCases program w choice w') (inv : Integrity w.thread)
    (taken : LibcoLite.step w.thread (w.input program choice) = .ok w'.thread) {p : TaskPtr}
    (alive : w'.thread.live p = true) (before : w.thread.live p = false) :
    p = w.thread.fresh ∧ ∃ routine, program.action w.place = .create routine ∧
      w'.places p = routine ∧
      ∃ id, w'.places w.thread.current = program.created w.place id := by
  have table := step_table inv taken
  obtain ⟨new, _⟩ := step_new inv taken alive before
  have away : w.thread.current ≠ w.thread.fresh := inv.notFresh inv.seated.alive
  have creates : w.thread.pc w.thread.current = .user ∧
      ∃ cid, w.input program choice = .create cid := by
    generalize w.input program choice = i at table
    cases table with
    | fills cid id pc => exact ⟨pc, cid, rfl⟩
    | clears cid q pc slot exited table count live =>
      rw [live] at alive
      by_cases gone : p = q
      · rw [gone, Function.update_self] at alive
        cases alive
      · rw [Function.update_of_ne gone] at alive
        cases before.symm.trans alive
    | keeps table count live =>
      rw [live] at alive
      cases before.symm.trans alive
  obtain ⟨user, cid, input⟩ := creates
  refine ⟨new, ?_⟩
  cases kind with
  | creates granted thread routine id _ does slot =>
    refine ⟨routine, does, ?_, some id, ?_⟩
    · rw [new]
      exact Function.update_self ..
    · simp [World.spawn, Function.update_of_ne away]
  | full granted thread routine _ does slot =>
    rcases w.nextId_cases with ⟨id, found⟩ | ⟨_, same⟩
    · cases slot.symm.trans found
    · obtain ⟨_, step⟩ := step_cases taken
      simp only [World.input, does] at step
      have live : thread.live = w.thread.live := by
        cases step with
        | create => exact congrArg State.live same
      change thread.live p = true at alive
      rw [live] at alive
      cases before.symm.trans alive
  | joins granted thread cid' _ does => simp [World.input, does] at input
  | sleeps granted thread seconds _ does => simp [World.input, does] at input
  | calls granted thread call fd _ does => simp [World.input, does] at input
  | refused granted thread call fd _ does => simp [World.input, does] at input
  | loops granted thread _ does => simp [World.input, does] at input
  | returns granted thread _ does => simp [World.input, does] at input
  | answers => cases input
  | fails i thread call fd pc => cases user.symm.trans pc
  | library i thread inside => exact absurd user inside

/-! ## Where a task is, in its own code and in the library -/

/-- The call of its own code that a task is in: a blocking call until it returns,
`co_eventloop`, or the return from its routine. -/
def Pc.origin (Place : Type) : Pc → Option (Action Place)
  | .wait call fd => some (.io call fd)
  | .syscall call fd => some (.io call fd)
  | .epollWait => some .eventloop
  | .handle _ => some .eventloop
  | .cleanup => some .ret
  | .finished => some .ret
  | .schedule behind => behind.origin Place
  | .user => none
  | .join _ => none

/-- Nobody is inside `co_create` or `exit`, or beyond an array. -/
theorem Pc.origin_calls {pc : Pc} {call : Action Place} (inside : pc.origin Place = some call) :
    (∀ routine, call ≠ .create routine) ∧ call ≠ .exit ∧ call ≠ .overrun := by
  induction pc with
  | schedule behind ih => exact ih inside
  | user | join => cases inside
  | _ => cases inside; simp

/-- A task in the wait loop of a call is in this call. -/
theorem Pc.origin_of_waiting {pc : Pc} {call : Call} {fd : Nat}
    (waiting : pc.waiting = some (call, fd)) : pc.origin Place = some (.io call fd) := by
  induction pc with
  | schedule behind ih => exact ih waiting
  | wait => cases waiting; rfl
  | _ => cases waiting

/-- A task at the end of `start` has returned from its routine. -/
theorem Pc.origin_of_exiting {pc : Pc} (exiting : pc.exiting) :
    pc.origin Place = some .ret := by
  induction pc with
  | schedule behind ih => exact ih exiting
  | cleanup => rfl
  | finished => rfl
  | _ => cases exiting

/-- The call that leads into the library for long. -/
def Input.origin (Place : Type) : Input → Option (Action Place)
  | .io call fd _ => some (.io call fd)
  | .eventloop => some .eventloop
  | .ret => some .ret
  | _ => none

/-- A step other than a switch leaves the current task in the call it is in, or takes it out of it,
or into one. -/
theorem step_origin {s s' : State} {i : Input} (inv : Integrity s) (taken : step s i = .ok s')
    (other : ∀ rounds, i ≠ .pick rounds) :
    (s'.pc s.current).origin Place = none ∨
      s.pc s.current ≠ .user ∧ (s'.pc s.current).origin Place =
        (s.pc s.current).origin Place ∨
      s.pc s.current = .user ∧ (s'.pc s.current).origin Place = i.origin Place := by
  have inside {there : Pc} (pc : s'.pc = Function.update s.pc s.current there) :
      s'.pc s.current = there := by
    rw [pc, Function.update_self]
  have stays {here there : Pc} (before : s.pc s.current = here) (call : here ≠ .user)
      (pc : s'.pc s.current = there) (same : there.origin Place = here.origin Place) :
      s.pc s.current ≠ .user ∧
        (s'.pc s.current).origin Place = (s.pc s.current).origin Place := by
    rw [before, pc]
    exact ⟨call, same⟩
  obtain ⟨_, kind⟩ := step_cases taken
  cases kind with
  | create cid pc =>
    left
    obtain ⟨_, same, _⟩ := coCreate_other cid (inv.notFresh inv.seated.alive)
    show ((coCreate cid s).1.pc s.current).origin Place = none
    rw [same, pc]
    rfl
  | close fd pc =>
    left
    show (s.pc s.current).origin Place = none
    rw [pc]
    rfl
  | queued call fd granted tsk ctl links pc => exact .inr (.inr ⟨pc, by rw [inside rfl]; rfl⟩)
  | eventloop pc => exact .inr (.inr ⟨pc, by rw [inside rfl]; rfl⟩)
  | ret pc notInit => exact .inr (.inr ⟨pc, by rw [inside rfl]; rfl⟩)
  | waitAgain call fd granted pc => exact .inr (.inl (stays pc (by simp) (inside rfl) rfl))
  | waitEnd call fd granted pc => exact .inr (.inl (stays pc (by simp) (inside rfl) rfl))
  | writeEnd fd granted pc => exact .inr (.inl (stays pc (by simp) (inside rfl) rfl))
  | timeout reports pc => exact .inr (.inl (stays pc (by simp) (inside rfl) rfl))
  | reported reports ev rest pc => exact .inr (.inl (stays pc (by simp) (inside rfl) rfl))
  | handled ev rest p links pc => exact .inr (.inl (stays pc (by simp) (inside rfl) rfl))
  | drained pc => exact .inr (.inl (stays pc (by simp) (inside rfl) rfl))
  | released links pc => exact .inr (.inl (stays pc (by simp) pc rfl))
  | cleaned pc => exact .inr (.inl (stays pc (by simp) (inside rfl) rfl))
  | scheduled behind rounds => exact absurd rfl (other rounds)
  | _ => exact .inl (by rw [inside rfl]; rfl)

/-- A step of a task that neither joins nor sleeps, and is in its own code or in a call, leaves it
so. -/
theorem step_lasts {s s' : State} {i : Input} (inv : Integrity s) (taken : step s i = .ok s')
    (other : ∀ rounds, i ≠ .pick rounds) (joins : ∀ cid, i ≠ .join cid)
    (sleeps : ∀ seconds, i ≠ .sleep seconds)
    (lasts : s.pc s.current ≠ .user → (s.pc s.current).origin Place ≠ none)
    (inside : s'.pc s.current ≠ .user) : (s'.pc s.current).origin Place ≠ none := by
  -- where the control point is set, it is the one of a call
  have calls {there : Pc} (pc : s'.pc = Function.update s.pc s.current there)
      (call : there.origin Place ≠ none) : (s'.pc s.current).origin Place ≠ none := by
    rw [pc, Function.update_self]
    exact call
  have leaves (pc : s'.pc = Function.update s.pc s.current .user) : False := by
    rw [pc, Function.update_self] at inside
    exact inside rfl
  have joined {cid : Nat} (pc : s.pc s.current = .join cid) : False := by
    apply lasts
    · rw [pc]
      simp
    · rw [pc]
      rfl
  obtain ⟨_, kind⟩ := step_cases taken
  cases kind with
  | create cid pc =>
    obtain ⟨_, same, _⟩ := coCreate_other cid (inv.notFresh inv.seated.alive)
    exact absurd (same.trans pc) inside
  | close fd pc => exact absurd pc inside
  | join cid => exact absurd rfl (joins cid)
  | sleep seconds => exact absurd rfl (sleeps seconds)
  | refused => exact (leaves rfl).elim
  | joinAgain cid p pc => exact (joined pc).elim
  | joinEnd => exact (leaves rfl).elim
  | writeFailed => exact (leaves rfl).elim
  | syscall => exact (leaves rfl).elim
  | released links pc =>
    show (s.pc s.current).origin Place ≠ none
    rw [pc]
    simp [Pc.origin]
  | scheduled behind rounds => exact absurd rfl (other rounds)
  | _ => exact calls rfl (by simp [Pc.origin])

/-- The inputs by which a task goes on in its own code. -/
def Input.own : Input → Bool
  | .create _ => true
  | .join _ => true
  | .sleep _ => true
  | .io _ _ _ => true
  | .eventloop => true
  | .close _ => true
  | .ret => true
  | _ => false

/-- Only a task in its own code goes on in it. -/
theorem step_user {s s' : State} {i : Input} (taken : step s i = .ok s') (own : i.own = true) :
    s.pc s.current = .user := by
  obtain ⟨_, kind⟩ := step_cases taken
  cases kind with
  | create _ pc => exact pc
  | join _ pc => exact pc
  | sleep _ pc => exact pc
  | refused _ _ _ _ _ pc => exact pc
  | queued _ _ _ _ _ _ pc => exact pc
  | eventloop pc => exact pc
  | close _ pc => exact pc
  | ret pc => exact pc
  | _ => cases own

/-- What the own code of a task does not do, the library does. -/
theorem World.chosen_of_input {i : Input} (input : w.input program choice = i)
    (library : i.own = false) (goes : i ≠ .run) : choice = .library i := by
  cases choice with
  | own granted =>
    unfold World.input at input
    cases does : program.action w.place with
    | exit =>
      rw [does] at input
      exact absurd input.symm goes
    | overrun =>
      rw [does] at input
      exact absurd input.symm goes
    | _ =>
      rw [does] at input
      subst input
      cases library
  | answer => exact absurd input.symm goes
  | library i' => rw [show i' = i from input]

/-- The worlds of a program that neither joins nor sleeps do not, either. -/
theorem World.input_lasts (lasts : ∀ place, (∀ cid, program.action place ≠ .join cid) ∧
    ∀ seconds, program.action place ≠ .sleep seconds) (taken : w.step program choice = .ok w') :
    (∀ cid, w.input program choice ≠ .join cid) ∧
      ∀ seconds, w.input program choice ≠ .sleep seconds := by
  have stepped := world_thread taken
  have kind := world_cases taken
  cases choice with
  | own granted =>
    obtain ⟨joins, sleeps⟩ := lasts w.place
    unfold World.input
    cases does : program.action w.place with
    | join cid => exact absurd does (joins cid)
    | sleep seconds => exact absurd does (sleeps seconds)
    | _ => simp
  | answer => simp [World.input]
  | library i =>
    have inside : w.thread.pc w.thread.current ≠ .user := by
      cases kind with
      | fails _ _ call fd pc => simp [pc]
      | library _ _ inside => exact inside
    constructor
    · intro cid input
      exact inside (step_user stepped (by rw [input]; rfl))
    · intro seconds input
      exact inside (step_user stepped (by rw [input]; rfl))

/-- Programs close no descriptors. -/
theorem World.never_closes (taken : w.step program choice = .ok w') (fd : Nat) :
    w.input program choice ≠ .close fd := by
  have stepped := world_thread taken
  have kind := world_cases taken
  cases choice with
  | own granted =>
    unfold World.input
    cases program.action w.place <;> simp
  | answer => simp [World.input]
  | library i =>
    intro input
    have user := step_user stepped (by rw [input]; rfl)
    cases kind with
    | fails _ _ call fd pc => cases user.symm.trans pc
    | library _ _ inside => exact inside user

/-- Every task is in the call that comes next at its place. -/
def Located (program : Program Place) (w : World Place) : Prop :=
  ∀ p, w.thread.live p = true → ∀ call, (w.thread.pc p).origin Place = some call →
    program.action (w.places p) = call

/-- At the start of a thread no call was made. -/
theorem Located.init (self : EnvPtr) (clock : Nat → Nat) (main : Place) :
    Located program (World.init self clock main) := by
  intro p _ call inside
  cases inside

/-- The call the own code of a task makes is the one that comes next. -/
theorem World.input_origin {granted : Bool} {call : Action Place}
    (leads : (w.input program (.own granted)).origin Place = some call) :
    program.action w.place = call := by
  unfold World.input at leads
  cases does : program.action w.place with
  | create => simp [does, Input.origin] at leads
  | join => simp [does, Input.origin] at leads
  | sleep => simp [does, Input.origin] at leads
  | io call' fd => simpa [does, Input.origin] using leads
  | eventloop => simpa [does, Input.origin] using leads
  | ret => simpa [does, Input.origin] using leads
  | exit => simp [does, Input.origin] at leads
  | overrun => simp [does, Input.origin] at leads

/-- A step of the own code leaves the current task in no call if it makes none that lasts. -/
theorem origin_none {s s' : State} {i : Input} (inv : Integrity s) (taken : step s i = .ok s')
    (user : s.pc s.current = .user) (other : ∀ rounds, i ≠ .pick rounds)
    (none : i.origin Place = none) :
    (s'.pc s.current).origin Place = .none := by
  rcases step_origin inv taken other with out | ⟨inside, _⟩ | ⟨_, leads⟩
  · exact out
  · exact absurd user inside
  · exact leads.trans none

/-- Where a step leads the current task to another place, the task is in no call. -/
theorem WorldCases.moved (kind : WorldCases program w choice w') (inv : Integrity w.thread)
    (taken : LibcoLite.step w.thread (w.input program choice) = .ok w'.thread) :
    w'.places w.thread.current = w.place ∨
      (w'.thread.pc w.thread.current).origin Place = none := by
  cases kind with
  | creates granted thread routine id user does =>
    simp only [World.input, does] at taken
    exact .inr (origin_none inv taken user (by simp) rfl)
  | full granted thread routine user does =>
    simp only [World.input, does] at taken
    exact .inr (origin_none inv taken user (by simp) rfl)
  | joins granted thread cid user does =>
    simp only [World.input, does] at taken
    exact .inr (origin_none inv taken user (by simp) rfl)
  | sleeps granted thread seconds user does =>
    simp only [World.input, does] at taken
    exact .inr (origin_none inv taken user (by simp) rfl)
  | refused granted thread call fd user does returned =>
    right
    show (thread.pc w.thread.current).origin Place = none
    rw [returned]
    rfl
  | fails i thread call fd pc returned =>
    right
    show (thread.pc w.thread.current).origin Place = none
    rw [returned]
    rfl
  | answers answer thread call fd pc =>
    right
    obtain ⟨_, kind⟩ := step_cases taken
    simp only [World.input] at kind
    cases kind with
    | syscall call' fd' there =>
      show (Function.update w.thread.pc w.thread.current .user w.thread.current).origin Place = none
      rw [Function.update_self]
      rfl
    | _ => simp_all
  | calls | loops | returns | library => exact .inl rfl

/-- A switch leaves all places. -/
theorem WorldCases.switched (kind : WorldCases program w choice w') {behind : Pc}
    (pc : w.thread.pc w.thread.current = .schedule behind) : w'.places = w.places := by
  cases kind with
  | library => rfl
  | creates _ _ _ _ there => cases there.symm.trans pc
  | full _ _ _ there => cases there.symm.trans pc
  | joins _ _ _ there => cases there.symm.trans pc
  | sleeps _ _ _ there => cases there.symm.trans pc
  | calls _ _ _ _ there => cases there.symm.trans pc
  | refused _ _ _ _ there => cases there.symm.trans pc
  | loops _ _ there => cases there.symm.trans pc
  | returns _ _ there => cases there.symm.trans pc
  | answers _ _ _ _ there => cases there.symm.trans pc
  | fails _ _ _ _ there => cases there.symm.trans pc

/-- The own code makes the call that leads a task from it into the library. -/
theorem World.origin_own (taken : w.step program choice = .ok w')
    (user : w.thread.pc w.thread.current = .user) {call : Action Place}
    (leads : (w.input program choice).origin Place = some call) :
    program.action w.place = call := by
  cases choice with
  | own granted => exact World.input_origin leads
  | answer answer => cases leads
  | library i => simp [World.step, World.stepBy, user] at taken

/-- Every step keeps the tasks in the calls of their places. -/
theorem Located.step (located : Located program w) (inv : Integrity w.thread)
    (taken : w.step program choice = .ok w') : Located program w' := by
  have stepped := world_thread taken
  have kind := world_cases taken
  intro p alive call inside
  rcases (w.input program choice).switches with ⟨rounds, switches⟩ | other
  · rw [switches] at stepped
    obtain ⟨behind, pc, _, live, _⟩ := step_switch_frame inv stepped
    rw [step_switch_pc (Pc.origin Place) (fun _ => rfl) inv stepped] at inside
    rw [kind.switched pc]
    exact located p (live ▸ alive) call inside
  · by_cases own : p = w.thread.current
    · subst own
      rcases kind.moved inv stepped with same | out
      · rw [same]
        rcases step_origin inv stepped other with out | ⟨_, stays⟩ | ⟨user, leads⟩
        · cases out.symm.trans inside
        · exact located _ inv.seated.alive call (stays.symm.trans inside)
        · exact World.origin_own taken user (leads.symm.trans inside)
      · cases out.symm.trans inside
    · rcases step_others inv stepped other own alive with ⟨_, user⟩ | ⟨before, same, _⟩
      · rw [user] at inside
        cases inside
      · rw [same] at inside
        rw [kind.other own (inv.notFresh before)]
        exact located p before call inside

/-- In every run of a program the tasks are in the calls of their places. -/
theorem located_of_run (run : WorldRun program main self clock past w) : Located program w := by
  induction run with
  | start => exact .init self clock main
  | move before taken ih => exact ih.step (world_integrity before) taken

/-! ## Replaying worlds with few tasks -/

/-- The world a scenario leads a program to, its start if it cannot be performed. -/
def replayWorld (size : Nat) (program : Program Place) (main : Place) (choices : List Choice) :
    World Place :=
  outcome (World.stepBy (stepWithin size) program) (World.init 0 ticking main) choices

/-- The moves of a scenario of a program, latest first. -/
def replayWorldMoves (size : Nat) (program : Program Place) (main : Place)
    (choices : List Choice) : WorldHistory Place :=
  movesOf (World.stepBy (stepWithin size) program) (World.init 0 ticking main) choices

/-- What can be performed with few tasks, at any clock, is a run of the program. -/
theorem run_of_within (size : Nat) (program : Program Place) (main : Place) (clock : Nat → Nat)
    (choices : List Choice) (small : size ≤ nrTasks) (some : 0 < size)
    (performed : (execute (World.stepBy (stepWithin size) program)
      (World.init 0 clock main) choices).isOk = true) :
    WorldRun program main 0 clock
      (movesOf (World.stepBy (stepWithin size) program) (World.init 0 clock main) choices)
      (outcome (World.stepBy (stepWithin size) program) (World.init 0 clock main) choices) := by
  refine ((run_of_outcome choices performed).replace
    (fun w => Integrity w.thread ∧ EmptyFrom size w.thread)
    ⟨Integrity.init 0 _, fun i far => ?_⟩ fun w choice w' inv taken => ?_).1
  · have behind : i ≠ 0 := by omega
    simp [World.init, State.init, behind]
  · obtain ⟨stepped, kind⟩ := stepBy_cases taken
    obtain ⟨same, kept⟩ := step_of_within small inv.1 inv.2 stepped
    exact ⟨stepBy_of_cases same kind, kept⟩

/-- A scenario of a program that can be performed is a run of the program. -/
theorem run_of_replayWorld (size : Nat) (program : Program Place) (main : Place)
    (choices : List Choice) (small : size ≤ nrTasks) (some : 0 < size)
    (performed : (execute (World.stepBy (stepWithin size) program)
      (World.init 0 ticking main) choices).isOk = true) :
    WorldRun program main 0 ticking (replayWorldMoves size program main choices)
      (replayWorld size program main choices) :=
  run_of_within size program main ticking choices small some performed

end LibcoLite
