import LibcoLite.Careful
import LibcoLite.Program
import LibcoLite.Status

/-!
# The echo server

`demo03.c` on the library: `main` creates the coroutine that accepts connections and runs the
event loop, and every accepted connection gets a coroutine that writes back what it reads. No
descriptor is closed and no coroutine is joined. Each coroutine uses one descriptor for its
whole life, which no other one uses, since the kernel does not hand out a number that is in use.
It reads one byte less than its buffer has, so that there is room for the zero behind the string.
-/

namespace LibcoLite.Demo03

open Transition (Along Move along_cons)

/-- Where a task of the server is in its own code, with its variables. -/
inductive Place where
  /-- `main`, before `co_create`. -/
  | listening
  /-- `main`, before `co_eventloop`. -/
  | looping
  /-- `my_accept`, before `co_accept`. -/
  | accepting
  /-- `my_accept`, before `co_create`. -/
  | accepted (clifd : Nat)
  /-- `do_client`, before `co_read`. -/
  | reading (clifd : Nat) (buf : List UInt8)
  /-- `do_client`, before `co_write`, with `n` bytes read to `buf`. -/
  | writing (clifd : Nat) (buf : List UInt8) (n : Nat)
  /-- `do_client`, behind its loop. -/
  | closed (clifd : Nat)
  /-- `do_client`, where it stores to `buf` beyond its end. -/
  | outside (clifd : Nat)
  /-- Before `exit(-1)`, with the descriptor of the failed call. -/
  | failed (fd : Nat)
deriving DecidableEq, Repr

/-- `char buf[64] = { 0 }`. -/
def emptyBuf : List UInt8 := List.replicate 64 0

/-- The number of bytes `do_client` asks `co_read` for. -/
def readCount : Nat := 63

/-- `do_client` behind `co_read`, which has stored `n` bytes at the beginning of `buf`: without any
it leaves its loop, and otherwise it stores the zero at `buf[n]`. -/
def Place.behindRead (clifd : Nat) (buf bytes : List UInt8) : Place :=
  let n := bytes.length
  if n = 0 then .closed clifd
  else if n < buf.length then .writing clifd ((bytes ++ buf.drop n).set n 0) n
  else .outside clifd

/-- `main` from its `co_create` on, `my_accept` and `do_client`, for the descriptor `main`
listens on. -/
def server (listenfd : Nat) : Program Place where
  action
    | .listening => .create .accepting
    | .looping => .eventloop
    | .accepting => .io .accept listenfd
    | .accepted clifd => .create (.reading clifd emptyBuf)
    | .reading clifd _ => .io .read clifd
    | .writing clifd _ _ => .io .write clifd
    | .closed _ => .ret
    | .outside _ => .overrun
    | .failed _ => .exit
  created
    | .listening, _ => .looping
    -- the result of `co_create` is not looked at
    | .accepted _, _ => .accepting
    | place, _ => place
  resumed place := place
  answered
    | .accepting, .accepted clifd => .accepted clifd
    | .accepting, _ => .failed listenfd
    | .reading clifd buf, .data bytes => .behindRead clifd buf bytes
    | .reading clifd _, _ => .failed clifd
    | .writing clifd buf _, .wrote _ => .reading clifd buf
    | .writing clifd _ _, _ => .failed clifd
    | place, _ => place

/-- The descriptor a task uses. -/
def Place.fd (listenfd : Nat) : Place → Option Nat
  | .listening => none
  | .looping => none
  | .accepting => some listenfd
  | .accepted _ => some listenfd
  | .reading clifd _ => some clifd
  | .writing clifd _ _ => some clifd
  | .closed clifd => some clifd
  | .outside clifd => some clifd
  | .failed fd => some fd

/-- A connection that has no coroutine yet. -/
def Place.pending : Place → Option Nat
  | .accepted clifd => some clifd
  | _ => none

/-- No task uses a descriptor. -/
def Unused (listenfd : Nat) (w : World Place) (fd : Nat) : Prop :=
  ∀ p, w.thread.live p = true → (w.places p).fd listenfd ≠ some fd

/-- `accept` returns a number in the table of descriptors that is not in use. -/
def Accepts (listenfd : Nat) (move : Move (World Place) Choice) : Prop :=
  ∀ clifd ∈ move.input.connection, 0 < clifd ∧ clifd < maxFd ∧ Unused listenfd move.before clifd

/-- `read` returns at most the number of bytes it was asked for. -/
def Reads (move : Move (World Place) Choice) : Prop :=
  ∀ bytes ∈ move.input.bytes, bytes.length ≤ readCount

/-- A handled event contains the bit its waiter waits for. The kernel does not promise this: it
depends on the clients, since one that sends while its coroutine is in `co_write` causes an event
without it. -/
def Delivers (listenfd : Nat) (move : Move (World Place) Choice) : Prop :=
  delivers (threadMove (server listenfd) move) = true

/-- The runs of the server. -/
abbrev ServerRun (listenfd : Nat) :
    EnvPtr → (Nat → Nat) → WorldHistory Place → World Place → Prop :=
  WorldRun (server listenfd) .listening

variable {listenfd : Nat} {self : EnvPtr} {clock : Nat → Nat} {past : WorldHistory Place}
  {w w' : World Place} {choice : Choice}

/-- What holds of the places `co_read` can lead to holds behind it. -/
theorem Place.behindRead_rec {P : Place → Prop} {clifd : Nat} {buf bytes : List UInt8}
    (closed : bytes = [] → P (.closed clifd))
    (writing : bytes.length < buf.length →
      P (.writing clifd ((bytes ++ buf.drop bytes.length).set bytes.length 0) bytes.length))
    (outside : buf.length ≤ bytes.length → P (.outside clifd)) :
    P (behindRead clifd buf bytes) := by
  unfold behindRead
  dsimp only
  split
  · rename_i none
    exact closed (List.length_eq_zero_iff.mp none)
  · split
    · rename_i inside
      exact writing inside
    · rename_i beyond
      exact outside (Nat.not_lt.mp beyond)

/-- A coroutine keeps its descriptor behind `co_read`. -/
@[simp]
theorem Place.behindRead_fd (listenfd clifd : Nat) (buf bytes : List UInt8) :
    (behindRead clifd buf bytes).fd listenfd = some clifd :=
  behindRead_rec (P := fun place => place.fd listenfd = some clifd) (fun _ => rfl) (fun _ => rfl)
    fun _ => rfl

/-- It has accepted no connection. -/
@[simp]
theorem Place.behindRead_pending (clifd : Nat) (buf bytes : List UInt8) :
    (behindRead clifd buf bytes).pending = none :=
  behindRead_rec (P := fun place => place.pending = none) (fun _ => rfl) (fun _ => rfl)
    fun _ => rfl

/-- A blocking call uses the descriptor of its task. -/
theorem fd_of_action {place : Place} {call : Call} {fd : Nat}
    (does : (server listenfd).action place = .io call fd) : place.fd listenfd = some fd := by
  cases place with
  | accepting => cases does; rfl
  | reading => cases does; rfl
  | writing => cases does; rfl
  | _ => cases does

/-- An answer leaves a task with its descriptor. -/
theorem fd_answered (place : Place) (answer : Answer) :
    ((server listenfd).answered place answer).fd listenfd = place.fd listenfd := by
  cases place with
  | accepting => cases answer <;> rfl
  | reading clifd buf =>
    cases answer with
    | data bytes => exact Place.behindRead_fd listenfd clifd buf bytes
    | _ => rfl
  | writing => cases answer <;> rfl
  | _ => rfl

/-- A creation leaves a task with its descriptor. -/
theorem fd_created (place : Place) (id : Option Nat) :
    ((server listenfd).created place id).fd listenfd = place.fd listenfd := by
  cases place <;> rfl

/-- A connection is pending in a task that accepts. -/
theorem accepted_of_pending {place : Place} {clifd : Nat} (waits : place.pending = some clifd) :
    place = .accepted clifd := by
  cases place with
  | accepted clifd' => cases waits; rfl
  | _ => cases waits

/-- An answer brings a task a pending connection only from `accept`. -/
theorem pending_answered {place : Place} {answer : Answer} {clifd : Nat}
    (waits : ((server listenfd).answered place answer).pending = some clifd) :
    (server listenfd).answered place answer = place ∨ answer = .accepted clifd := by
  cases place with
  | accepting =>
    cases answer with
    | accepted clifd' => cases waits; exact .inr rfl
    | _ => cases waits
  | reading clifd buf =>
    cases answer with
    | data bytes => cases (Place.behindRead_pending clifd buf bytes).symm.trans waits
    | _ => cases waits
  | writing => cases answer <;> cases waits
  | _ => exact .inl rfl

/-- Nothing leads `main` back before `co_create`. -/
theorem not_listening (place : Place) (id : Option Nat) (answer : Answer) :
    (server listenfd).created place id ≠ .listening ∧
      ((server listenfd).answered place answer = .listening → place = .listening) := by
  cases place with
  | accepting => cases answer <;> simp [server]
  | reading clifd buf =>
    refine ⟨by simp [server], fun there => ?_⟩
    -- it has a descriptor, and `main` has none
    have uses := @fd_answered listenfd (.reading clifd buf) answer
    rw [there] at uses
    cases uses
  | writing => cases answer <;> simp [server]
  | _ => simp [server]

/-- The event loop is called at its place. -/
theorem place_of_eventloop {place : Place} (does : (server listenfd).action place = .eventloop) :
    place = .looping := by
  cases place with
  | looping => rfl
  | _ => cases does

/-- What is created is the acceptor, or the coroutine of a pending connection. -/
theorem place_of_create {place routine : Place}
    (does : (server listenfd).action place = .create routine) :
    place = .listening ∧ routine = .accepting ∨
      ∃ clifd, place = .accepted clifd ∧ routine = .reading clifd emptyBuf := by
  cases place with
  | listening => cases does; exact .inl ⟨rfl, rfl⟩
  | accepted clifd => cases does; exact .inr ⟨clifd, rfl, rfl⟩
  | _ => cases does

/-- The server neither joins nor sleeps. -/
theorem action_lasts (place : Place) : (∀ cid, (server listenfd).action place ≠ .join cid) ∧
    ∀ seconds, (server listenfd).action place ≠ .sleep seconds := by
  cases place <;> simp [server]

/-! ## The tasks and their descriptors -/

/-- The tasks of the server have a descriptor each, `main` excepted, and record no other. -/
structure Sound (listenfd : Nat) (w : World Place) : Prop where
  /-- All tasks but `main` have a descriptor. -/
  mains : ∀ p, w.thread.live p = true → ((w.places p).fd listenfd = none ↔ p = initTask)
  /-- Before `co_create`, `main` is alone. -/
  first : ∀ p, w.thread.live p = true → w.places initTask = .listening → p = initTask
  /-- Different tasks have different descriptors. -/
  apart : ∀ p q, w.thread.live p = true → w.thread.live q = true →
    (w.places p).fd listenfd = (w.places q).fd listenfd → p = q
  /-- The descriptors are in the table. -/
  bounded : ∀ p fd, w.thread.live p = true → (w.places p).fd listenfd = some fd →
    0 < fd ∧ fd < maxFd
  /-- The descriptors of pending connections are, too, and are not in use. -/
  pending : ∀ p clifd, w.thread.live p = true → (w.places p).pending = some clifd →
    0 < clifd ∧ clifd < maxFd ∧ Unused listenfd w clifd
  /-- A task records its own descriptor only. -/
  recorded : ∀ p, w.thread.live p = true → ∀ k < (w.thread.tasks p).fdsIdx,
    (w.places p).fd listenfd = some ((w.thread.tasks p).fds k)
  /-- A task is in its own code or in a call. -/
  calm : ∀ p, w.thread.live p = true → w.thread.pc p ≠ .user →
    (w.thread.pc p).origin Place ≠ none

/-- At the start there is `main` alone. -/
theorem Sound.init (listenfd : Nat) (self : EnvPtr) (clock : Nat → Nat) :
    Sound listenfd (World.init self clock .listening) := by
  have alone (p : TaskPtr) (alive : (State.init self clock).live p = true) : p = initTask := by
    apply Classical.byContradiction
    intro other
    simp [State.init, Function.update_of_ne other] at alive
  constructor
  · intro p alive
    exact ⟨fun _ => alone p alive, fun _ => rfl⟩
  · intro p alive _
    exact alone p alive
  · intro p q aliveP aliveQ _
    exact (alone p aliveP).trans (alone q aliveQ).symm
  · intro p fd _ uses
    cases uses
  · intro p clifd _ waits
    cases waits
  · intro p alive k small
    obtain rfl := alone p alive
    exact absurd small (Nat.not_lt_zero k)
  · intro p _ inside
    exact absurd rfl inside

/-- A step leaves a task with its descriptor. -/
theorem fd_step (kind : WorldCases (server listenfd) w choice w') (inv : Integrity w.thread)
    {p : TaskPtr} (alive : w.thread.live p = true) :
    (w'.places p).fd listenfd = (w.places p).fd listenfd := by
  rcases kind.place inv alive with same | ⟨rfl, ⟨_, id, _, leads⟩ | leads | ⟨answer, leads, _⟩⟩
  · rw [same]
  · rw [leads, fd_created]
    rfl
  · rw [leads]
    rfl
  · rw [leads, fd_answered]
    rfl

/-- A task that comes to have a pending connection has accepted it. -/
theorem pending_step (kind : WorldCases (server listenfd) w choice w') (inv : Integrity w.thread)
    {p : TaskPtr} {clifd : Nat} (alive : w.thread.live p = true)
    (waits : (w'.places p).pending = some clifd) :
    w'.places p = w.places p ∨ choice = .answer (.accepted clifd) := by
  rcases kind.place inv alive with
    same | ⟨rfl, ⟨_, id, does, leads⟩ | leads | ⟨answer, leads, given⟩⟩
  · exact .inl same
  · -- behind `co_create` there is none
    rw [leads] at waits
    rcases place_of_create does with ⟨there, _⟩ | ⟨_, there, _⟩
    · rw [there] at waits
      cases waits
    · rw [there] at waits
      cases waits
  · exact .inl leads
  · rw [leads] at waits
    rcases pending_answered waits with same | rfl
    · exact .inl (leads.trans same)
    · rcases given with failed | given
      · cases failed
      · exact .inr given

/-- `main` is before `co_create` from the start on only. -/
theorem listening_step (kind : WorldCases (server listenfd) w choice w')
    (inv : Integrity w.thread) {p : TaskPtr} (alive : w.thread.live p = true)
    (there : w'.places p = .listening) : w.places p = .listening := by
  rcases kind.place inv alive with same | ⟨rfl, ⟨_, id, _, leads⟩ | leads | ⟨answer, leads, _⟩⟩
  · exact same.symm.trans there
  · exact absurd (leads.symm.trans there) (not_listening w.place id .failed).1
  · exact leads.symm.trans there
  · exact (not_listening w.place none answer).2 (leads.symm.trans there)

/-- No step reclaims a task of the server. -/
theorem live_step (sound : Sound listenfd w) (inv : Integrity w.thread) {i : Input}
    {s' : State} (taken : step w.thread i = .ok s') {p : TaskPtr}
    (alive : w.thread.live p = true) : s'.live p = true := by
  cases step_table inv taken with
  | fills cid id pc bound free lowest table count live =>
    rw [live]
    by_cases new : p = w.thread.fresh
    · rw [new, Function.update_self]
    · rwa [Function.update_of_ne new]
  | clears cid q pc =>
    apply absurd (sound.calm w.thread.current inv.seated.alive (by simp [pc]))
    rw [pc]
    exact absurd rfl
  | keeps table count live => rwa [live]

/-- The task a step of the server creates has a new descriptor. -/
theorem Sound.created (sound : Sound listenfd w) (inv : Integrity w.thread)
    (listens : 0 < listenfd ∧ listenfd < maxFd)
    (kind : WorldCases (server listenfd) w choice w')
    (taken : LibcoLite.step w.thread (w.input (server listenfd) choice) = .ok w'.thread)
    {p : TaskPtr} (alive : w'.thread.live p = true) (before : w.thread.live p = false) :
    p = w.thread.fresh ∧ (w'.places p).pending = none ∧
      w'.places initTask ≠ .listening ∧
      ∃ fd, (w'.places p).fd listenfd = some fd ∧ 0 < fd ∧ fd < maxFd ∧
        (∀ q, w.thread.live q = true → (w.places q).fd listenfd ≠ some fd) ∧
        ∀ q, w.thread.live q = true → (w'.places q).pending ≠ some fd := by
  obtain ⟨new, routine, does, there, id, here⟩ := kind.spawned inv taken alive before
  have current := inv.seated.alive
  rw [there]
  rcases place_of_create does with ⟨place, rfl⟩ | ⟨clifd, place, rfl⟩
  · -- `main` creates the acceptor, and is alone
    have main : w.thread.current = initTask := by
      apply (sound.mains _ current).mp
      show w.place.fd listenfd = none
      rw [place]
      rfl
    rw [place, main] at here
    have alone (q : TaskPtr) (live : w.thread.live q = true) : q = initTask :=
      sound.first q live (main ▸ place)
    refine ⟨new, rfl, by rw [here]; simp [server], listenfd, rfl, listens.1, listens.2, ?_, ?_⟩
    · intro q live
      rw [(sound.mains q live).mpr (alone q live)]
      simp
    · intro q live
      rw [alone q live, here]
      simp [server, Place.pending]
  · -- the acceptor creates the coroutine of its pending connection
    obtain ⟨positive, small, unused⟩ :=
      sound.pending w.thread.current clifd current (by show w.place.pending = _; rw [place]; rfl)
    refine ⟨new, rfl, ?_, clifd, rfl, positive, small, unused, ?_⟩
    · intro listening
      have main := sound.first _ current (listening_step kind inv inv.rootLive listening)
      have first := listening_step kind inv inv.rootLive listening
      rw [← main] at first
      cases first.symm.trans place
    · intro q live waits
      by_cases own : q = w.thread.current
      · rw [own, here, place] at waits
        cases waits
      · rw [kind.other own (inv.notFresh live)] at waits
        apply own
        apply sound.apart q _ live current
        rw [accepted_of_pending waits]
        show _ = w.place.fd listenfd
        rw [place]

/-- Every step of the server keeps the tasks with their descriptors. -/
theorem Sound.step (sound : Sound listenfd w) (inv : Integrity w.thread)
    (listens : 0 < listenfd ∧ listenfd < maxFd)
    (accepts : Accepts listenfd ⟨w, choice, w'⟩)
    (taken : w.step (server listenfd) choice = .ok w') : Sound listenfd w' := by
  have stepped := world_thread taken
  have kind := world_cases taken
  have lives {p : TaskPtr} (alive : w.thread.live p = true) : w'.thread.live p = true :=
    live_step sound inv stepped alive
  have fd {p : TaskPtr} (alive : w.thread.live p = true) :
      (w'.places p).fd listenfd = (w.places p).fd listenfd := fd_step kind inv alive
  -- a task is an old one, or the one that is created
  have cases_live {p : TaskPtr} (alive : w'.thread.live p = true) : w.thread.live p = true ∨
      w.thread.live p = false := by
    cases w.thread.live p <;> simp
  constructor
  · intro p alive
    rcases cases_live alive with old | new
    · rw [fd old]
      exact sound.mains p old
    · obtain ⟨fresh, _, _, fd, uses, _⟩ := sound.created inv listens kind stepped alive new
      rw [uses]
      refine iff_of_false (by simp) ?_
      rw [fresh]
      exact (inv.notFresh inv.rootLive).symm
  · intro p alive first
    rcases cases_live alive with old | new
    · exact sound.first p old (listening_step kind inv inv.rootLive first)
    · obtain ⟨_, _, left, _⟩ := sound.created inv listens kind stepped alive new
      exact absurd first left
  · intro p q aliveP aliveQ same
    rcases cases_live aliveP with oldP | newP
    · rcases cases_live aliveQ with oldQ | newQ
      · rw [fd oldP, fd oldQ] at same
        exact sound.apart p q oldP oldQ same
      · obtain ⟨_, _, _, fd', uses, _, _, unused, _⟩ :=
          sound.created inv listens kind stepped aliveQ newQ
        rw [fd oldP, uses] at same
        exact absurd same (unused p oldP)
    · obtain ⟨fresh, _, _, fd', uses, _, _, unused, _⟩ :=
        sound.created inv listens kind stepped aliveP newP
      rcases cases_live aliveQ with oldQ | newQ
      · rw [fd oldQ, uses] at same
        exact absurd same.symm (unused q oldQ)
      · rw [fresh, (sound.created inv listens kind stepped aliveQ newQ).1]
  · intro p fd' alive uses
    rcases cases_live alive with old | new
    · rw [fd old] at uses
      exact sound.bounded p fd' old uses
    · obtain ⟨_, _, _, fd'', uses', positive, small, _⟩ :=
        sound.created inv listens kind stepped alive new
      obtain rfl := Option.some.inj (uses'.symm.trans uses)
      exact ⟨positive, small⟩
  · intro p clifd alive waits
    rcases cases_live alive with old | new
    · have bounds : 0 < clifd ∧ clifd < maxFd ∧ Unused listenfd w clifd := by
        rcases pending_step kind inv old waits with same | rfl
        · exact sound.pending p clifd old (same ▸ waits)
        · exact accepts clifd rfl
      obtain ⟨positive, small, unused⟩ := bounds
      refine ⟨positive, small, ?_⟩
      intro q alive uses
      rcases cases_live alive with old' | new
      · rw [fd old'] at uses
        exact unused q old' uses
      · obtain ⟨_, _, _, fd', uses', _, _, _, free⟩ :=
          sound.created inv listens kind stepped alive new
        obtain rfl := Option.some.inj (uses'.symm.trans uses)
        exact free p old waits
    · rw [(sound.created inv listens kind stepped alive new).2.1] at waits
      cases waits
  · intro p alive k small
    rcases step_recorded inv stepped alive small with ⟨old, below, same⟩ | ⟨rfl, passed⟩
    · rw [same, fd old]
      exact sound.recorded p old k below
    · have user := step_calls stepped passed
      rw [fd inv.seated.alive]
      have does : ∃ call, (server listenfd).action w.place =
          .io call ((w'.thread.tasks w.thread.current).fds k) := by
        generalize (w'.thread.tasks w.thread.current).fds k = fd at passed
        cases given : w.input (server listenfd) choice with
        | io call fd' granted =>
          rw [given] at passed
          cases passed
          exact ⟨call, World.origin_own taken user (by rw [given]; rfl)⟩
        | _ =>
          rw [given] at passed
          cases passed
      obtain ⟨call, does⟩ := does
      exact fd_of_action does
  · intro p alive inside
    rcases (w.input (server listenfd) choice).switches with ⟨rounds, switches⟩ | other
    · rw [switches] at stepped
      obtain ⟨behind, pc, control, live, _⟩ := step_switch_frame inv stepped
      rw [step_switch_pc (Pc.origin Place) (fun _ => rfl) inv stepped]
      apply sound.calm p (live ▸ alive)
      intro user
      apply inside
      have away : p ≠ w.thread.current := by
        rintro rfl
        cases user.symm.trans pc
      rw [control, Function.update_of_ne away]
      exact user
    · by_cases own : p = w.thread.current
      · subst own
        obtain ⟨joins, sleeps⟩ := World.input_lasts action_lasts taken
        exact step_lasts inv stepped other joins sleeps (sound.calm _ inv.seated.alive) inside
      · rcases step_others inv stepped other own alive with ⟨_, user⟩ | ⟨old, same, _⟩
        · exact absurd user inside
        · rw [same] at inside ⊢
          exact sound.calm p old inside

/-- In every run of the server the tasks keep to their descriptors. -/
theorem sound_of_run (listens : 0 < listenfd ∧ listenfd < maxFd)
    (run : ServerRun listenfd self clock past w) (accepts : Along (Accepts listenfd) past) :
    Sound listenfd w := by
  induction run with
  | start => exact .init listenfd self clock
  | move before taken ih =>
    obtain ⟨last, rest⟩ := along_cons.mp accepts
    exact (ih rest).step (world_integrity before) listens last taken

/-! ## The buffers -/

/-- A coroutine has a buffer with a byte more than it asks `co_read` for, and stays in it. -/
def Place.Buffered : Place → Prop
  | .reading _ buf => readCount < buf.length
  | .writing _ buf _ => readCount < buf.length
  | .outside _ => False
  | _ => True

/-- Behind `co_read` it does if it was given what it asked for. -/
theorem Place.behindRead_buffered {clifd : Nat} {buf bytes : List UInt8}
    (room : readCount < buf.length) (reads : bytes.length ≤ readCount) :
    (behindRead clifd buf bytes).Buffered := by
  refine behindRead_rec (fun _ => trivial) (fun inside => ?_) fun beyond => ?_
  · have same : ((bytes ++ buf.drop bytes.length).set bytes.length 0).length = buf.length := by
      simp only [List.length_set, List.length_append, List.length_drop]
      omega
    show readCount < _
    rw [same]
    exact room
  · exact absurd (Nat.lt_of_lt_of_le room beyond) (Nat.not_lt.mpr reads)

/-- An answer of the kernel leaves a coroutine in its buffer. -/
theorem buffered_answered {place : Place} {answer : Answer} (buffered : place.Buffered)
    (reads : ∀ bytes, answer = .data bytes → bytes.length ≤ readCount) :
    ((server listenfd).answered place answer).Buffered := by
  cases place with
  | accepting => cases answer <;> trivial
  | reading clifd buf =>
    cases answer with
    | data bytes => exact Place.behindRead_buffered buffered (reads bytes rfl)
    | _ => trivial
  | writing clifd buf n =>
    cases answer with
    | wrote => exact buffered
    | _ => trivial
  | _ => exact buffered

/-- In every run of the server the coroutines stay in their buffers. -/
theorem buffered_of_run (run : ServerRun listenfd self clock past w) (reads : Along Reads past)
    {p : TaskPtr} (alive : w.thread.live p = true) : (w.places p).Buffered := by
  induction run with
  | start => trivial
  | @move past w w' choice before taken ih =>
    obtain ⟨last, rest⟩ := along_cons.mp reads
    have inv := world_integrity before
    have kind := world_cases taken
    cases old : w.thread.live p with
    | true =>
      have buffered := ih rest old
      rcases kind.place inv old with
        same | ⟨rfl, ⟨_, id, does, leads⟩ | leads | ⟨answer, leads, given⟩⟩
      · rwa [same]
      · rw [leads]
        rcases place_of_create does with ⟨there, _⟩ | ⟨_, there, _⟩
        · rw [there]
          trivial
        · rw [there]
          trivial
      · rw [leads]
        exact buffered
      · rw [leads]
        refine buffered_answered buffered ?_
        rintro bytes rfl
        rcases given with failed | rfl
        · cases failed
        · exact last bytes rfl
    | false =>
      obtain ⟨_, routine, does, there, _⟩ := kind.spawned inv (world_thread taken) alive old
      rw [there]
      rcases place_of_create does with ⟨_, rfl⟩ | ⟨clifd, _, rfl⟩
      · trivial
      · show readCount < emptyBuf.length
        decide

/-! ## Replaying the server -/

/-- A client connects and sends two bytes. -/
def oneClient : List Choice :=
  [.own true, .own true, .library (.ready (some [])), .library (.pick 1),
    .own true, .library (.ctl true), .library (.pick 1),
    .library (.ready (some [(3, epollIn)])), .library .run, .library .run, .library (.pick 1),
    .library (.ctl true), .answer (.accepted 5), .own true, .own true, .library (.ctl true),
    .library (.pick 1), .own true, .library (.ctl true), .library (.pick 1),
    .library (.ready (some [(5, epollIn)]))]

/-- In a replayed scenario `accept` returns numbers that are not in use if they are new among the
tasks that were created. -/
theorem accepts_of_replay (size : Nat) (choices : List Choice) (small : size ≤ nrTasks)
    (some : 0 < size) (performed : (Transition.execute (World.stepBy (stepWithin size)
      (server listenfd)) (World.init 0 ticking .listening) choices).isOk = true)
    (accepted : ∀ move ∈ replayWorldMoves size (server listenfd) .listening choices,
      ∀ clifd ∈ move.input.connection, 0 < clifd ∧ clifd < maxFd ∧
        ∀ p < move.before.thread.fresh, (move.before.places p).fd listenfd ≠ .some clifd) :
    Along (Accepts listenfd) (replayWorldMoves size (server listenfd) .listening choices) := by
  intro move member clifd input
  have run := run_of_replayWorld size (server listenfd) .listening choices small some performed
  obtain ⟨earlier, reached, _⟩ := run.taken member
  obtain ⟨positive, bound, new⟩ := accepted move member clifd input
  exact ⟨positive, bound, fun p alive => new p ((world_integrity reached).used p alive)⟩

end LibcoLite.Demo03
