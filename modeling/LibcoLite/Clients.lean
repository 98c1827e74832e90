import LibcoLite.Lib.Run
import LibcoLite.Replies

/-!
# The main loop of the line servers

`main` of `upper.c` and `reverse.c` behind its set-up: it waits for events, accepts new clients
and has `handle` answer those that have sent something. A call of `handle` reads until the
line is complete, so that the other clients wait for it. The kernel decides which events are
reported, which numbers new clients get, and what each `read` gives.
-/

namespace LibcoLite.Server

open Transition (Move Run bind_eq_ok movesOf outcome run_of_outcome)

/-- A program of `tools/server`. -/
inductive Tool where
  /-- `upper.c`. -/
  | upper
  /-- `reverse.c`. -/
  | reverse
deriving DecidableEq, Repr

/-- The transformation of a program. -/
def Tool.transform : Tool → Transform
  | .upper => Server.upper
  | .reverse => Server.reverse

/-- `handle` of a program. -/
def Tool.handle : Tool → ReadResult → BitVec 32 → Buffer → Except Stop Progress
  | .upper => upperHandle
  | .reverse => reverseHandle

/-- A call of `handle` before a `read`. -/
structure Serving where
  /-- The client. -/
  fd : Nat
  /-- The offset of the `read`. -/
  curr : BitVec 32
  /-- The buffer of the call. -/
  buf : Buffer

/-- `main` in its loop. -/
structure Main where
  /-- The events that are still to be handled. -/
  batch : List EpollEvent
  /-- The call of `handle` that reads again. -/
  again : Option Serving
  /-- The descriptors in the interest list. -/
  registered : Nat → Bool
  /-- The open descriptors. -/
  opened : Nat → Bool
  /-- How many calls of `handle` for a descriptor have returned. -/
  calls : Nat → Nat

/-- What the kernel decides. -/
inductive Arrival where
  /-- `epoll_wait` fails, or reports some events. -/
  | ready (events : Option (List EpollEvent))
  /-- `accept` fails, or returns a descriptor that `epoll_ctl` adds or refuses. -/
  | accepted (clientfd : Option Nat) (granted : Bool)
  /-- A `read` returns. -/
  | read (result : ReadResult)
  /-- Nothing, the program goes on by itself. -/
  | nothing
deriving DecidableEq, Repr

/-- Where `main` is. -/
inductive Turn where
  /-- Before `epoll_wait`. -/
  | polls
  /-- Before `accept`. -/
  | accepts
  /-- In `handle`, before a `read`. -/
  | serves (serving : Serving)
  /-- Before an event that is not looked at. -/
  | skips

namespace Main

/-- `main` before its loop is entered. -/
def init (listenfd : Nat) : Main where
  batch := []
  again := none
  registered fd := fd == listenfd
  opened fd := fd == listenfd
  calls _ := 0

/-- What `main` does next. A call of `handle` finds arbitrary contents in its buffer. -/
def turn (listenfd : Nat) (stack : Nat → Nat → Buffer) (s : Main) : Turn :=
  match s.again, s.batch with
  | some serving, _ => .serves serving
  | none, [] => .polls
  | none, ev :: _ =>
    if listenfd = ev.dataFd ∧ epollIn = epollIn &&& ev.events then .accepts
    else if ev.events &&& epollIn ≠ 0 then
      .serves ⟨ev.dataFd, 0, stack ev.dataFd (s.calls ev.dataFd)⟩
    else .skips

/-- What the kernel may report: at most ten of the registered descriptors, each once. -/
def MayReport (s : Main) (events : List EpollEvent) : Prop :=
  events.length ≤ 10 ∧ (events.map EpollEvent.dataFd).Nodup ∧
    ∀ ev ∈ events, s.registered ev.dataFd = true

instance (s : Main) (events : List EpollEvent) : Decidable (s.MayReport events) :=
  inferInstanceAs (Decidable (_ ∧ _ ∧ _))

/-- The next event, behind one that is done with. -/
def next (s : Main) : Main := { s with batch := s.batch.tail, again := none }

/-- `handle` has returned a value for a client. -/
def handled (s : Main) (fd : Nat) (ret : BitVec 32) : Main :=
  let s := { s.next with calls := Function.update s.calls fd (s.calls fd + 1) }
  if ret.toInt ≤ 0 then
    { s with
      registered := Function.update s.registered fd false
      opened := Function.update s.opened fd false }
  else s

/-- One step of `main`. -/
def step (tool : Tool) (listenfd : Nat) (stack : Nat → Nat → Buffer) (s : Main) :
    Arrival → Except Stop Main
  | .ready events =>
    match s.turn listenfd stack, events with
    | .polls, none => .ok s
    | .polls, some events =>
      if s.MayReport events then .ok { s with batch := events } else .error .disabled
    | _, _ => .error .disabled
  | .accepted clientfd granted =>
    match s.turn listenfd stack, clientfd with
    -- `epoll_ctl` refuses a negative descriptor
    | .accepts, none => .ok s.next
    | .accepts, some clientfd =>
      if s.opened clientfd then .error .disabled
      else .ok { s.next with
        registered := Function.update s.registered clientfd granted
        opened := Function.update s.opened clientfd true }
    | _, _ => .error .disabled
  | .read result =>
    match s.turn listenfd stack with
    | .serves serving => do
      match ← tool.handle result serving.curr serving.buf with
      | .reads curr buf => .ok { s with again := some ⟨serving.fd, curr, buf⟩ }
      | .returns ret _ => .ok (s.handled serving.fd ret)
    | _ => .error .disabled
  | .nothing =>
    match s.turn listenfd stack with
    | .skips => .ok s.next
    | _ => .error .disabled

end Main

/-- The steps of `main`, latest first. -/
abbrev MainHistory := List (Move Main Arrival)

/-- The runs of `main`. -/
abbrev MainRun (tool : Tool) (listenfd : Nat) (stack : Nat → Nat → Buffer) :
    MainHistory → Main → Prop :=
  Run (Main.step tool listenfd stack) (Main.init listenfd)

variable {tool : Tool} {listenfd : Nat} {stack : Nat → Nat → Buffer} {past : MainHistory}
  {s s' : Main} {i : Arrival}

/-- The kinds of steps of `main`, each with what it leaves. -/
inductive MainCases (tool : Tool) (listenfd : Nat) (stack : Nat → Nat → Buffer) (s : Main) :
    Arrival → Main → Prop where
  /-- `epoll_wait` fails. -/
  | interrupted : s.turn listenfd stack = .polls → MainCases tool listenfd stack s (.ready none) s
  /-- `epoll_wait` reports events. -/
  | reported (events : List EpollEvent) : s.turn listenfd stack = .polls → s.MayReport events →
      MainCases tool listenfd stack s (.ready (some events)) { s with batch := events }
  /-- `accept` fails. -/
  | refused (granted : Bool) : s.turn listenfd stack = .accepts →
      MainCases tool listenfd stack s (.accepted none granted) s.next
  /-- A client is accepted. -/
  | accepted (clientfd : Nat) (granted : Bool) : s.turn listenfd stack = .accepts →
      s.opened clientfd = false →
      MainCases tool listenfd stack s (.accepted (some clientfd) granted) { s.next with
        registered := Function.update s.registered clientfd granted
        opened := Function.update s.opened clientfd true }
  /-- `handle` reads again. -/
  | reads (result : ReadResult) (serving : Serving) (curr : BitVec 32) (buf : Buffer) :
      s.turn listenfd stack = .serves serving →
      tool.handle result serving.curr serving.buf = .ok (.reads curr buf) →
      MainCases tool listenfd stack s (.read result)
        { s with again := some ⟨serving.fd, curr, buf⟩ }
  /-- `handle` returns. -/
  | returns (result : ReadResult) (serving : Serving) (ret : BitVec 32)
      (reply : Option (List UInt8)) : s.turn listenfd stack = .serves serving →
      tool.handle result serving.curr serving.buf = .ok (.returns ret reply) →
      MainCases tool listenfd stack s (.read result) (s.handled serving.fd ret)
  /-- An event is skipped. -/
  | skips : s.turn listenfd stack = .skips → MainCases tool listenfd stack s .nothing s.next

/-- Every step of `main` is of one of the kinds. -/
theorem main_cases (taken : s.step tool listenfd stack i = .ok s') :
    MainCases tool listenfd stack s i s' := by
  cases i with
  | ready events =>
    simp only [Main.step] at taken
    split at taken
    · cases taken
      exact .interrupted ‹_›
    · split at taken
      · cases taken
        exact .reported _ ‹_› ‹_›
      · cases taken
    · cases taken
  | accepted clientfd granted =>
    simp only [Main.step] at taken
    split at taken
    · cases taken
      exact .refused _ ‹_›
    · split at taken
      · cases taken
      · cases taken
        exact .accepted _ _ ‹_› (Bool.eq_false_iff.mpr ‹_›)
    · cases taken
  | read result =>
    simp only [Main.step] at taken
    split at taken
    · rename_i serving there
      obtain ⟨progress, handled, taken⟩ := bind_eq_ok.mp taken
      cases progress with
      | reads curr buf =>
        cases taken
        exact .reads result serving curr buf there handled
      | returns ret reply =>
        cases taken
        exact .returns result serving ret reply there handled
    · cases taken
  | nothing =>
    simp only [Main.step] at taken
    split at taken
    · cases taken
      exact .skips ‹_›
    · cases taken

/-! ## Calls that stay inside their buffer -/

/-- The two programs differ in the transformation only. -/
theorem Tool.handle_eq (tool : Tool) : tool.handle = handleRead tool.transform := by
  cases tool with
  | upper => rfl
  | reverse => rfl

/-- A transformation returns the number of bytes it is passed. -/
def ReturnsLength (transform : Transform) : Prop :=
  ∀ buf n buf' ret, transform buf n = .ok (buf', ret) → ret = n.signExtend 64

/-- The transformations of both programs do. -/
theorem Tool.returnsLength (tool : Tool) : ReturnsLength tool.transform := by
  intro buf n buf' ret done
  cases tool with
  | upper =>
    obtain ⟨after, _, returned⟩ := bind_eq_ok.mp done
    cases returned
    rfl
  | reverse =>
    obtain ⟨after, _, returned⟩ := bind_eq_ok.mp done
    cases returned
    rfl

/-- A number survives its way through `size_t`. -/
theorem setWidth_signExtend (n : BitVec 32) : (n.signExtend 64).setWidth 32 = n := by
  apply BitVec.eq_of_getLsbD_eq
  intro i inside
  simp only [BitVec.getLsbD_setWidth, BitVec.getLsbD_signExtend, inside, decide_true,
    Bool.true_and, ↓reduceIte]
  have within : i < 64 := by omega
  simp [within]

/-- A round of `get_line` that ends the line has a positive number of bytes, or the stream is at
its end. -/
theorem getLineRound_ends {result : ReadResult} {curr ret : BitVec 32} {buf buf' : Buffer}
    (round : getLineRound result curr buf = .ok (.line ret buf')) :
    0 < ret.toInt ∧ result ≠ .closed ∨ ret = -1 := by
  obtain ⟨filled, _, rest⟩ := bind_eq_ok.mp round
  dsimp only at rest
  split at rest
  · rename_i some
    obtain ⟨last, loaded, rest⟩ := bind_eq_ok.mp rest
    split at rest
    · cases rest
    · cases rest
      refine .inl ⟨?_, ?_⟩
      · unfold load at loaded
        split at loaded
        · rename_i inside
          omega
        · cases loaded
      · rintro rfl
        exact some rfl
  · cases rest
    exact .inr rfl

/-- A round of `get_line` that goes on has read some bytes. -/
theorem getLineRound_goes {result : ReadResult} {curr curr' : BitVec 32} {buf buf' : Buffer}
    (round : getLineRound result curr buf = .ok (.reads curr' buf')) : result ≠ .closed := by
  rintro rfl
  obtain ⟨filled, _, rest⟩ := bind_eq_ok.mp round
  cases rest

/-- `handle` behind a line that is not empty returns its length. -/
theorem handleLine_progress {transform : Transform} (returns : ReturnsLength transform)
    {line : BitVec 32} {buf : Buffer} {progress : Progress} (nonzero : line ≠ 0)
    (done : handleLine transform line buf = .ok progress) :
    ∃ reply, progress = .returns line reply := by
  obtain ⟨stored, _, rest⟩ := bind_eq_ok.mp done
  split at rest
  · rename_i zero
    refine absurd ?_ nonzero
    rw [← setWidth_signExtend line, ← zero]
    rfl
  · obtain ⟨⟨after, n⟩, transformed, rest⟩ := bind_eq_ok.mp rest
    obtain ⟨bytes, _, rest⟩ := bind_eq_ok.mp rest
    cases rest
    rw [returns _ _ _ _ transformed, setWidth_signExtend, setWidth_signExtend]
    exact ⟨_, rfl⟩

/-- A `read` that leaves a call of `handle` inside its buffer has not found the end of the
stream, and a value that the call returns is positive. -/
theorem Tool.handle_ok {result : ReadResult} {curr : BitVec 32} {buf : Buffer}
    {progress : Progress} (handled : tool.handle result curr buf = .ok progress) :
    result ≠ .closed ∧ ∀ ret reply, progress = .returns ret reply → 0 < ret.toInt := by
  rw [tool.handle_eq] at handled
  obtain ⟨line, round, rest⟩ := bind_eq_ok.mp handled
  cases line with
  | reads curr buf =>
    cases rest
    refine ⟨getLineRound_goes round, ?_⟩
    intro ret reply same
    cases same
  | line length buf' =>
    dsimp only at rest
    rcases getLineRound_ends round with ⟨positive, goes⟩ | rfl
    · refine ⟨goes, ?_⟩
      have nonzero : length ≠ 0 := by
        rintro rfl
        exact absurd positive (by decide)
      obtain ⟨reply, rfl⟩ := handleLine_progress tool.returnsLength nonzero rest
      rintro ret reply ⟨⟩
      exact positive
    · rw [handleLine_closed] at rest
      cases rest

/-! ## What each client sees -/

section

variable (tool listenfd stack)

/-- The result of a `read` that a move serves a client with. -/
def readOf (fd : Nat) (move : Move Main Arrival) : List ReadResult :=
  match move.before.turn listenfd stack, move.input with
  | .serves serving, .read result => if serving.fd = fd then [result] else []
  | _, _ => []

/-- The bytes a move passes to `write` for a client. -/
def writtenOf (fd : Nat) (move : Move Main Arrival) : List UInt8 :=
  match move.before.turn listenfd stack, move.input with
  | .serves serving, .read result =>
    match tool.handle result serving.curr serving.buf with
    | .ok (.returns _ (some reply)) => if serving.fd = fd then reply else []
    | _ => []
  | _, _ => []

/-- What a client has sent, as its `read`s got it. -/
def readsFrom (fd : Nat) : MainHistory → List ReadResult
  | [] => []
  | move :: past => readsFrom fd past ++ readOf listenfd stack fd move

/-- What has been written to a client. -/
def writtenTo (fd : Nat) : MainHistory → List UInt8
  | [] => []
  | move :: past => writtenTo fd past ++ writtenOf tool listenfd stack fd move

end

/-- An event that makes `main` serve a client. -/
def asksFor (fd : Nat) (ev : EpollEvent) : Bool :=
  ev.dataFd = fd ∧ ev.events &&& epollIn ≠ 0

/-- How often `epoll_wait` has reported input from a client. -/
def reported (fd : Nat) : MainHistory → Nat
  | [] => 0
  | ⟨_, .ready (some events), _⟩ :: past => reported fd past + events.countP (asksFor fd)
  | _ :: past => reported fd past

/-- The clients that have been accepted, each with whether it was added to the interest list,
latest first. -/
def clients (past : MainHistory) : List (Nat × Bool) :=
  past.filterMap fun move =>
    match move.input with
    | .accepted (some clientfd) granted => some (clientfd, granted)
    | _ => none

/-- The next `read` for a client: its offset, and the buffer. -/
def Main.position (stack : Nat → Nat → Buffer) (s : Main) (fd : Nat) : BitVec 32 × Buffer :=
  match s.again with
  | some serving =>
    if serving.fd = fd then (serving.curr, serving.buf) else (0, stack fd (s.calls fd))
  | none => (0, stack fd (s.calls fd))

/-- The bytes a client is answered with, if its next `read`s give some results. -/
def Main.answers (tool : Tool) (stack : Nat → Nat → Buffer) (s : Main) (fd : Nat)
    (later : List ReadResult) : Except Stop (List UInt8) :=
  repliesFrom tool.handle (stack fd) (s.calls fd) (s.position stack fd).1
    (s.position stack fd).2 later

/-- Serving a client is going on, or begins at the head of the batch. -/
theorem turn_serves {serving : Serving} (there : s.turn listenfd stack = .serves serving) :
    s.again = some serving ∨ s.again = none ∧ ∃ ev rest, s.batch = ev :: rest ∧
      asksFor serving.fd ev = true ∧ serving.fd ≠ listenfd ∧
      serving = ⟨ev.dataFd, 0, stack ev.dataFd (s.calls ev.dataFd)⟩ := by
  unfold Main.turn at there
  split at there
  · cases there
    exact .inl ‹_›
  · cases there
  · rename_i ev rest none first
    split at there
    · cases there
    · rename_i other
      split at there
      · rename_i input
        cases there
        refine .inr ⟨none, ev, rest, first, by simpa [asksFor] using input, ?_, rfl⟩
        intro same
        have whole : ev.events &&& epollIn = epollIn := Call.event_of_meets .read input
        refine other ⟨same.symm, ?_⟩
        rw [BitVec.and_comm]
        exact whole.symm
      · cases there

/-- A client that is served is at the position of the call. -/
theorem position_of_serves {serving : Serving}
    (there : s.turn listenfd stack = .serves serving) :
    s.position stack serving.fd = (serving.curr, serving.buf) := by
  unfold Main.position
  rcases turn_serves there with again | ⟨again, ev, rest, _, _, _, rfl⟩
  · simp [again]
  · simp [again]

/-- A client that is not served is at the beginning of a call. -/
theorem position_of_away {fd : Nat}
    (away : ∀ serving, s.turn listenfd stack = .serves serving → serving.fd ≠ fd) :
    s.position stack fd = (0, stack fd (s.calls fd)) := by
  unfold Main.position
  cases again : s.again with
  | none => rfl
  | some serving =>
    have other : serving.fd ≠ fd := by
      apply away
      simp [Main.turn, again]
    exact if_neg other

/-- A call that has returned a positive value leaves the connection open. -/
theorem handled_of_pos {ret : BitVec 32} (positive : 0 < ret.toInt) (fd : Nat) :
    s.handled fd ret =
      { s.next with calls := Function.update s.calls fd (s.calls fd + 1) } :=
  if_neg (Int.not_le.mpr positive)

/-- A step that does not serve a client leaves it where it is. -/
theorem place_of_away (taken : s.step tool listenfd stack i = .ok s') {fd : Nat}
    (away : ∀ serving, s.turn listenfd stack = .serves serving → serving.fd ≠ fd) :
    s'.position stack fd = s.position stack fd ∧ s'.calls fd = s.calls fd := by
  have before := position_of_away away
  cases main_cases taken with
  | interrupted there => exact ⟨rfl, rfl⟩
  | reported events there may => exact ⟨rfl, rfl⟩
  | refused granted there => exact ⟨before.symm, rfl⟩
  | accepted clientfd granted there new => exact ⟨before.symm, rfl⟩
  | skips there => exact ⟨before.symm, rfl⟩
  | reads result serving curr buf there handled =>
    refine ⟨?_, rfl⟩
    rw [before]
    exact if_neg (away serving there)
  | returns result serving ret reply there handled =>
    have other := Ne.symm (away serving there)
    rw [before, handled_of_pos ((tool.handle_ok handled).2 ret reply rfl)]
    simp only [Main.position, Main.next, Function.update_of_ne other, and_self]

/-- A step that does not serve a client answers nothing of it. -/
theorem answers_of_away (taken : s.step tool listenfd stack i = .ok s') {fd : Nat}
    (away : ∀ serving, s.turn listenfd stack = .serves serving → serving.fd ≠ fd)
    (later : List ReadResult) :
    s.answers tool stack fd (readOf listenfd stack fd ⟨s, i, s'⟩ ++ later) =
      (s'.answers tool stack fd later).map
        (writtenOf tool listenfd stack fd ⟨s, i, s'⟩ ++ ·) := by
  have unread : readOf listenfd stack fd ⟨s, i, s'⟩ = [] := by
    unfold readOf
    split
    · rename_i serving result there _
      exact if_neg (away serving there)
    · rfl
  have unwritten : writtenOf tool listenfd stack fd ⟨s, i, s'⟩ = [] := by
    unfold writtenOf
    split
    · rename_i serving result there _
      split
      · exact if_neg (away serving there)
      · rfl
    · rfl
  have same : s'.answers tool stack fd later = s.answers tool stack fd later := by
    unfold Main.answers
    rw [(place_of_away taken away).1, (place_of_away taken away).2]
  rw [unread, unwritten, same]
  simp only [List.nil_append]
  cases s.answers tool stack fd later with
  | ok bytes => rfl
  | error stop => rfl

/-- Each step answers what it reads of a client, and goes on with the rest. -/
theorem answers_step (taken : s.step tool listenfd stack i = .ok s') (fd : Nat)
    (later : List ReadResult) :
    s.answers tool stack fd (readOf listenfd stack fd ⟨s, i, s'⟩ ++ later) =
      (s'.answers tool stack fd later).map
        (writtenOf tool listenfd stack fd ⟨s, i, s'⟩ ++ ·) := by
  by_cases away : ∀ serving, s.turn listenfd stack = .serves serving → serving.fd ≠ fd
  · exact answers_of_away taken away later
  · push Not at away
    obtain ⟨serving, served, rfl⟩ := away
    have before := position_of_serves served
    cases main_cases taken with
    | interrupted there => simp [there] at served
    | reported events there may => simp [there] at served
    | refused granted there => simp [there] at served
    | accepted clientfd granted there new => simp [there] at served
    | skips there => simp [there] at served
    | reads result serving' curr buf there handled =>
      obtain rfl : serving' = serving := Turn.serves.inj (there.symm.trans served)
      unfold Main.answers readOf writtenOf
      rw [before]
      simp only [there, handled, ↓reduceIte, List.cons_append, List.nil_append, repliesFrom,
        bind, Except.bind, Main.position]
      cases repliesFrom tool.handle (stack serving'.fd) (s.calls serving'.fd) curr buf later with
      | ok bytes => rfl
      | error stop => rfl
    | returns result serving' ret reply there handled =>
      obtain rfl : serving' = serving := Turn.serves.inj (there.symm.trans served)
      have positive := (tool.handle_ok handled).2 ret reply rfl
      rw [handled_of_pos positive]
      unfold Main.answers readOf writtenOf
      rw [before]
      simp only [there, handled, ↓reduceIte, List.cons_append, List.nil_append, repliesFrom,
        bind, Except.bind, Main.position, Main.next, Function.update_self,
        Int.not_le.mpr positive]
      cases reply with
      | none => rfl
      | some bytes => rfl

/-- What has been written to each client answers what it has sent. -/
theorem answers_of_run (run : MainRun tool listenfd stack past s) (fd : Nat)
    (later : List ReadResult) :
    (Main.init listenfd).answers tool stack fd (readsFrom listenfd stack fd past ++ later) =
      (s.answers tool stack fd later).map (writtenTo tool listenfd stack fd past ++ ·) := by
  induction run generalizing later with
  | start =>
    simp only [readsFrom, writtenTo, List.nil_append]
    cases (Main.init listenfd).answers tool stack fd later with
    | ok bytes => rfl
    | error stop => rfl
  | @move past s s' i before taken ih =>
    simp only [readsFrom, writtenTo, List.append_assoc]
    rw [ih, answers_step taken]
    cases s'.answers tool stack fd later with
    | ok bytes => rfl
    | error stop => rfl

/-! ## Which clients are answered -/

/-- What a run keeps about its clients. -/
structure Attends (listenfd : Nat) (past : MainHistory) (s : Main) : Prop where
  /-- Every report of input is answered, or still to be handled. -/
  answered : ∀ fd, fd ≠ listenfd →
    reported fd past = s.calls fd + s.batch.countP (asksFor fd)
  /-- A call that goes on is for the event at the head of the batch. -/
  serving : ∀ serving, s.again = some serving → ∃ ev rest, s.batch = ev :: rest ∧
    asksFor serving.fd ev = true ∧ serving.fd ≠ listenfd
  /-- No two clients have the same descriptor. -/
  distinct : ((clients past).map Prod.fst).Nodup
  /-- Every client is open, and in the interest list if it was added to it. -/
  kept : ∀ client ∈ clients past,
    s.opened client.1 = true ∧ s.registered client.1 = client.2

/-- An event asks for a single client. -/
theorem asksFor_iff {fd other : Nat} {ev : EpollEvent} (asks : asksFor fd ev = true) :
    asksFor other ev = true ↔ other = fd := by
  simp only [asksFor, decide_eq_true_eq] at asks ⊢
  constructor
  · intro also
    exact also.1.symm.trans asks.1
  · rintro rfl
    exact asks

/-- A client that is served is the one the head of the batch asks for. -/
theorem Attends.head (attends : Attends listenfd past s) {serving : Serving}
    (there : s.turn listenfd stack = .serves serving) : ∃ ev rest, s.batch = ev :: rest ∧
      asksFor serving.fd ev = true ∧ serving.fd ≠ listenfd := by
  rcases turn_serves there with again | ⟨_, ev, rest, first, asks, other, _⟩
  · exact attends.serving serving again
  · exact ⟨ev, rest, first, asks, other⟩

/-- Before an event that no client is served for, the event asks for none. -/
theorem countP_tail_of_turn {turn : Turn} (there : s.turn listenfd stack = turn)
    (unserved : turn = .accepts ∨ turn = .skips) {fd : Nat} (other : fd ≠ listenfd) :
    s.batch.countP (asksFor fd) = s.batch.tail.countP (asksFor fd) := by
  unfold Main.turn at there
  split at there
  · subst there
    simp at unserved
  · subst there
    simp at unserved
  · rename_i ev rest _ first
    have quiet : asksFor fd ev = false := by
      simp only [asksFor, decide_eq_false_iff_not]
      rintro ⟨rfl, input⟩
      split at there
      · rename_i listens
        exact other listens.1.symm
      · subst there
        simp at unserved
    rw [first, List.countP_cons_of_neg (by simp [quiet]), List.tail_cons]

/-- A step that accepts nobody leaves the list of clients. -/
theorem clients_cons_none {move : Move Main Arrival}
    (none : ∀ clientfd granted, move.input ≠ .accepted (some clientfd) granted) :
    clients (move :: past) = clients past := by
  apply List.filterMap_cons_none
  split
  · rename_i clientfd granted accepts
    exact absurd accepts (none clientfd granted)
  · rfl

/-- A step that reports nothing leaves the reports. -/
theorem reported_cons_none {move : Move Main Arrival}
    (none : ∀ events, move.input ≠ .ready (some events)) (fd : Nat) :
    reported fd (move :: past) = reported fd past := by
  obtain ⟨before, input, after⟩ := move
  cases input with
  | ready events =>
    cases events with
    | none => rfl
    | some events => exact absurd rfl (none events)
  | accepted clientfd granted => rfl
  | read result => rfl
  | nothing => rfl

/-- Before `epoll_wait` no call goes on, and all events are handled. -/
theorem idle_of_polls (there : s.turn listenfd stack = .polls) :
    s.again = none ∧ s.batch = [] := by
  unfold Main.turn at there
  split at there
  · cases there
  · exact ⟨‹_›, ‹_›⟩
  · split at there
    · cases there
    · split at there
      · cases there
      · cases there

/-- A step that neither accepts nor serves anybody keeps the clients attended. -/
theorem Attends.next (attends : Attends listenfd past s) {turn : Turn}
    (there : s.turn listenfd stack = turn) (unserved : turn = .accepts ∨ turn = .skips)
    (accepts : ∀ clientfd granted, i ≠ .accepted (some clientfd) granted)
    (reports : ∀ events, i ≠ .ready (some events)) :
    Attends listenfd (⟨s, i, s.next⟩ :: past) s.next := by
  refine ⟨?_, ?_, ?_, ?_⟩
  · intro fd other
    rw [reported_cons_none reports, attends.answered fd other,
      countP_tail_of_turn there unserved other]
    rfl
  · intro call going
    cases going
  · rw [clients_cons_none accepts]
    exact attends.distinct
  · rw [clients_cons_none accepts]
    exact attends.kept

/-- A step that accepts a client keeps the clients attended. -/
theorem Attends.accept (attends : Attends listenfd past s)
    (there : s.turn listenfd stack = .accepts) {clientfd : Nat}
    (new : s.opened clientfd = false) (granted : Bool) {s' : Main}
    (same : s' = { s.next with
      registered := Function.update s.registered clientfd granted
      opened := Function.update s.opened clientfd true }) :
    Attends listenfd (⟨s, .accepted (some clientfd) granted, s'⟩ :: past) s' := by
  have more : clients (⟨s, .accepted (some clientfd) granted, s'⟩ :: past) =
      (clientfd, granted) :: clients past := rfl
  have fresh : ∀ client ∈ clients past, client.1 ≠ clientfd := by
    rintro client member rfl
    rw [(attends.kept client member).1] at new
    cases new
  subst same
  refine ⟨?_, ?_, ?_, ?_⟩
  · intro fd other
    rw [reported_cons_none (by simp), attends.answered fd other,
      countP_tail_of_turn there (.inl rfl) other]
    rfl
  · intro call going
    cases going
  · rw [more, List.map_cons, List.nodup_cons]
    refine ⟨?_, attends.distinct⟩
    intro member
    obtain ⟨client, inside, same⟩ := List.mem_map.mp member
    exact fresh client inside same
  · rw [more]
    intro client member
    rcases List.mem_cons.mp member with rfl | member
    · exact ⟨Function.update_self _ _ _, Function.update_self _ _ _⟩
    · simp only [Function.update_of_ne (fresh client member)]
      exact attends.kept client member

/-- A call of `handle` that returns keeps the clients attended. -/
theorem Attends.return (attends : Attends listenfd past s) {call : Serving}
    (there : s.turn listenfd stack = .serves call) {ret : BitVec 32}
    (positive : 0 < ret.toInt) (result : ReadResult) :
    Attends listenfd (⟨s, .read result, s.handled call.fd ret⟩ :: past)
      (s.handled call.fd ret) := by
  obtain ⟨ev, rest, first, asks, client⟩ := attends.head there
  rw [handled_of_pos positive]
  refine ⟨?_, ?_, ?_, ?_⟩
  · intro fd other
    rw [reported_cons_none (by simp), attends.answered fd other, first]
    simp only [Main.next, first, List.tail_cons, List.countP_cons]
    by_cases this : fd = call.fd
    · subst this
      rw [Function.update_self, if_pos asks]
      omega
    · rw [Function.update_of_ne this, if_neg (fun also => this ((asksFor_iff asks).mp also))]
      omega
  · intro later going
    cases going
  · rw [clients_cons_none (by simp)]
    exact attends.distinct
  · rw [clients_cons_none (by simp)]
    exact attends.kept

/-- Every step keeps the clients attended. -/
theorem Attends.step (attends : Attends listenfd past s)
    (taken : s.step tool listenfd stack i = .ok s') :
    Attends listenfd (⟨s, i, s'⟩ :: past) s' := by
  cases main_cases taken with
  | interrupted there =>
    refine ⟨attends.answered, attends.serving, ?_, ?_⟩
    · rw [clients_cons_none (by simp)]
      exact attends.distinct
    · rw [clients_cons_none (by simp)]
      exact attends.kept
  | reported events there may =>
    obtain ⟨again, empty⟩ := idle_of_polls there
    refine ⟨?_, ?_, ?_, ?_⟩
    · intro fd other
      rw [reported, attends.answered fd other, empty, List.countP_nil, Nat.add_zero]
    · intro call going
      cases again.symm.trans going
    · rw [clients_cons_none (by simp)]
      exact attends.distinct
    · rw [clients_cons_none (by simp)]
      exact attends.kept
  | refused granted there => exact attends.next there (.inl rfl) (by simp) (by simp)
  | accepted clientfd granted there new => exact attends.accept there new granted rfl
  | skips there => exact attends.next there (.inr rfl) (by simp) (by simp)
  | reads result call curr buf there handled =>
    have head := attends.head there
    refine ⟨attends.answered, ?_, ?_, ?_⟩
    · intro later going
      cases going
      exact head
    · rw [clients_cons_none (by simp)]
      exact attends.distinct
    · rw [clients_cons_none (by simp)]
      exact attends.kept
  | returns result call ret reply there handled =>
    exact attends.return there ((tool.handle_ok handled).2 ret reply rfl) result

/-- Every run attends its clients. -/
theorem attends_of_run (run : MainRun tool listenfd stack past s) : Attends listenfd past s := by
  induction run with
  | start => exact ⟨fun _ _ => rfl, by simp [Main.init], List.nodup_nil, by simp [clients]⟩
  | move _ taken ih => exact ih.step taken

/-- In every run of a line server that stays inside its buffer, whatever the kernel reports and
however it cuts what the clients send, each client has been written the answers to its own
stream and nothing else, each report of its input has led to one call of `handle`, or will
before the next `epoll_wait`, and no client is ever dropped: all keep their descriptors, which
differ. -/
theorem clients_are_isolated (run : MainRun tool listenfd stack past s) :
    (∀ fd, repliesFrom tool.handle (stack fd) 0 0 (stack fd 0) (readsFrom listenfd stack fd past) =
      .ok (writtenTo tool listenfd stack fd past)) ∧
    (∀ fd, fd ≠ listenfd → reported fd past = s.calls fd + s.batch.countP (asksFor fd)) ∧
    ((clients past).map Prod.fst).Nodup ∧
    ∀ client ∈ clients past, s.opened client.1 = true ∧ s.registered client.1 = client.2 := by
  have attends := attends_of_run run
  refine ⟨?_, attends.answered, attends.distinct, attends.kept⟩
  intro fd
  have answered := answers_of_run run fd []
  rw [List.append_nil] at answered
  have own : s.answers tool stack fd [] = .ok [] := rfl
  rw [own] at answered
  simpa [Main.answers, Main.position, Main.init, Except.map] using answered

/-- Buffers full of zeros. -/
def zeroed : Nat → Nat → Buffer := fun _ _ _ => 0

/-- Two clients are accepted, and each sends a line, the first one in two chunks. -/
def twoClients : List Arrival :=
  [.ready (some [⟨epollIn, 3⟩]), .accepted (some 4) true,
    .ready (some [⟨epollIn, 4⟩, ⟨epollIn, 3⟩]), .read (.data [97]), .read (.data [10]),
    .accepted (some 5) true, .ready (some [⟨epollIn, 5⟩]), .read (.data [98, 10])]

/-- Each of them is written its own line, and keeps its connection. -/
theorem clients_are_isolated_twoClients :
    repliesFrom upperHandle (zeroed 4) 0 0 (zeroed 4 0) [.data [97], .data [10]] = .ok [65, 10] ∧
      repliesFrom upperHandle (zeroed 5) 0 0 (zeroed 5 0) [.data [98, 10]] = .ok [66, 10] ∧
      (outcome (Main.step .upper 3 zeroed) (Main.init 3) twoClients).opened 4 = true := by
  obtain ⟨answered, _, _, kept⟩ := @clients_are_isolated .upper 3 zeroed
    (movesOf (Main.step .upper 3 zeroed) (Main.init 3) twoClients) _
    (run_of_outcome twoClients (by decide +kernel))
  have first := answered 4
  have second := answered 5
  refine ⟨?_, ?_, (kept (4, true) (by decide +kernel)).1⟩
  · rw [show readsFrom 3 zeroed 4 _ = [.data [97], .data [10]] by decide +kernel] at first
    rw [show writtenTo .upper 3 zeroed 4 _ = [65, 10] by decide +kernel] at first
    exact first
  · rw [show readsFrom 3 zeroed 5 _ = [.data [98, 10]] by decide +kernel] at second
    rw [show writtenTo .upper 3 zeroed 5 _ = [66, 10] by decide +kernel] at second
    exact second

end LibcoLite.Server
