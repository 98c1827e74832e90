import LibcoLite.Clients
import Mathlib.Data.List.TakeWhile

/-!
# The client of the line servers

`str_cli` of `cli.c` sends each line of its standard input, with a newline behind it, and prints
what one `read` gives as the answer. Its messages are lines shorter than the buffer of a server,
whatever is typed, so that servers with such clients stay inside their buffers. The client itself
prints a string that nothing ends, if the message fills what it has cleared of its buffer.
-/

namespace LibcoLite.Server

open Transition (Along Move along_cons movesOf run_of_outcome)

/-- Length of the buffer `char buf[128]` of `str_cli`. -/
def cliSize : Nat := 128

/-- The number of bytes that `memset`, `fgets` and `read` are passed. -/
def cliCount : Nat := 100

/-- `memset` to zero from the beginning of the buffer on. -/
def memset (buf : Buffer) (n : Nat) : Except Stop Buffer :=
  if n ≤ cliSize then .ok fun k => if k < n then 0 else buf k else .error .bounds

/-- Bytes are stored at the beginning of the buffer. -/
def put (buf : Buffer) (bytes : List UInt8) : Except Stop Buffer :=
  if bytes.length ≤ cliSize then .ok fun k => bytes.getD k (buf k) else .error .bounds

/-- The line `fgets` takes from a stream, with its newline, and the rest of the stream. -/
def takeLine : Nat → List UInt8 → List UInt8 × List UInt8
  | 0, stdin => ([], stdin)
  | _ + 1, [] => ([], [])
  | n + 1, ch :: stdin =>
    if ch = newline then ([ch], stdin)
    else
      let (line, rest) := takeLine n stdin
      (ch :: line, rest)

/-- `fgets`. At the end of the stream it leaves the buffer as it is. -/
def fgets (buf : Buffer) (size : Nat) (stdin : List UInt8) :
    Except Stop (Buffer × List UInt8) :=
  match takeLine (size - 1) stdin with
  | ([], rest) => .ok (buf, rest)
  | (line, rest) => do
    let buf ← put buf (line ++ [0])
    .ok (buf, rest)

/-- The string from an element of the buffer on, if a zero ends it within so many elements. -/
def stringAt (buf : Buffer) : Nat → Nat → Except Stop (List UInt8)
  | 0, _ => .error .bounds
  | left + 1, k =>
    if buf k = 0 then .ok []
    else do
      let rest ← stringAt buf left (k + 1)
      .ok (buf k :: rest)

/-- `strlen`. -/
def strlen (buf : Buffer) : Except Stop Nat := do
  let text ← stringAt buf cliSize 0
  .ok text.length

/-- `str_cli` in its loop. -/
structure Session where
  /-- The buffer. -/
  buf : Buffer
  /-- What is still to be read from the standard input. -/
  stdin : List UInt8

/-- A round of the loop of `str_cli` up to its `write`, with the bytes it is passed. -/
def Session.send (c : Session) : Except Stop (Session × List UInt8) := do
  let buf ← memset c.buf cliCount
  let (buf, stdin) ← fgets buf cliCount c.stdin
  let len ← strlen buf
  if len + 1 ≤ cliSize then
    let buf := Function.update buf len newline
    .ok (⟨buf, stdin⟩, (List.range (len + 1)).map buf)
  else .error .bounds

/-- The round from its `read` on, with the text it prints. -/
def Session.receive (c : Session) (result : ReadResult) :
    Except Stop (Session × List UInt8) := do
  let buf ← put c.buf result.bytes
  let text ← stringAt buf cliSize 0
  .ok (⟨buf, c.stdin⟩, text)

/-- A message a client may send. -/
def Message (bytes : List UInt8) : Prop := ∃ c c' : Session, c.send = .ok (c', bytes)

/-! ## What a client sends -/

/-- A line has at most so many bytes as `fgets` takes. -/
theorem takeLine_length (n : Nat) (stdin : List UInt8) : (takeLine n stdin).1.length ≤ n := by
  induction n generalizing stdin with
  | zero => exact Nat.le_refl _
  | succ n ih =>
    cases stdin with
    | nil => exact Nat.zero_le _
    | cons ch stdin =>
      unfold takeLine
      split
      · simp
      · exact Nat.succ_le_succ (ih stdin)

/-- The elements of a terminated string. -/
theorem getD_terminated (line : List UInt8) (k : Nat) (ch : UInt8) :
    (line ++ [0]).getD k ch = if k ≤ line.length then line.getD k 0 else ch := by
  simp only [List.getD_eq_getElem?_getD, List.getElem?_append]
  rcases Nat.lt_trichotomy k line.length with inside | rfl | behind
  · simp [inside, Nat.le_of_lt inside]
  · simp
  · have outside : [(0 : UInt8)][k - line.length]? = none := by
      apply List.getElem?_eq_none
      simp only [List.length_singleton]
      omega
    simp [Nat.not_lt.mpr (Nat.le_of_lt behind), Nat.not_le.mpr behind, outside]

/-- Behind `fgets` the cleared part of the buffer holds the line and zeros. -/
theorem fgets_spec {buf cleared : Buffer} (done : memset buf cliCount = .ok cleared)
    (stdin : List UInt8) : ∃ after,
      fgets cleared cliCount stdin = .ok (after, (takeLine (cliCount - 1) stdin).2) ∧
      ∀ k, after k =
        if k < cliCount then (takeLine (cliCount - 1) stdin).1.getD k 0 else buf k := by
  obtain rfl := Except.ok.inj done
  have short := takeLine_length (cliCount - 1) stdin
  unfold fgets
  split
  · rename_i rest taken
    rw [taken]
    exact ⟨_, rfl, fun k => rfl⟩
  · rename_i line rest _ taken
    rw [taken] at short ⊢
    simp only [cliCount] at short
    have room : (line ++ [0]).length ≤ cliSize := by
      rw [List.length_append, List.length_singleton, cliSize]
      omega
    simp only [put, if_pos room, bind, Except.bind]
    refine ⟨_, rfl, ?_⟩
    intro k
    rw [getD_terminated]
    by_cases stored : k ≤ line.length
    · have low : k < cliCount := by rw [cliCount]; omega
      rw [if_pos stored, if_pos low]
    · have behind : line.length ≤ k := by omega
      rw [if_neg stored, List.getD_eq_getElem?_getD, List.getElem?_eq_none behind]
      rfl

/-- The string of a buffer that begins with some bytes other than zero goes on behind them. -/
theorem stringAt_append {buf : Buffer} {bytes : List UInt8} {k : Nat}
    (holds : ∀ j, (inside : j < bytes.length) → buf (k + j) = bytes[j]) (text : 0 ∉ bytes)
    (left : Nat) : stringAt buf (bytes.length + left) k =
      (stringAt buf left (k + bytes.length)).map (bytes ++ ·) := by
  induction bytes generalizing k with
  | nil =>
    simp only [List.length_nil, Nat.zero_add, Nat.add_zero, List.nil_append]
    cases stringAt buf left k <;> rfl
  | cons ch bytes ih =>
    have first : buf k = ch := holds 0 (by simp)
    have nonzero : buf k ≠ 0 := by
      rintro zero
      exact text (by simp [← first, zero])
    have rest : ∀ j, (inside : j < bytes.length) → buf (k + 1 + j) = bytes[j] := by
      intro j inside
      have later := holds (j + 1) (by simpa using inside)
      rw [Nat.add_assoc, Nat.add_comm 1 j]
      simpa using later
    have tail := ih rest (fun member => text (List.mem_cons_of_mem _ member))
    rw [List.length_cons, Nat.add_right_comm, stringAt, if_neg nonzero, tail, first,
      Nat.add_assoc k 1, Nat.add_comm 1]
    cases stringAt buf left (k + (bytes.length + 1)) <;> rfl

/-- The string at the beginning of a buffer is the one a zero ends. -/
theorem stringAt_iff {buf : Buffer} {bytes : List UInt8} (holds : Holds buf bytes)
    (text : 0 ∉ bytes) (short : bytes.length < cliSize) :
    stringAt buf cliSize 0 = .ok bytes ↔ buf bytes.length = 0 := by
  obtain ⟨left, whole⟩ : ∃ left, cliSize = bytes.length + (left + 1) :=
    ⟨cliSize - bytes.length - 1, by omega⟩
  have begins : ∀ j, (inside : j < bytes.length) → buf (0 + j) = bytes[j] := by
    intro j inside
    rw [Nat.zero_add]
    exact holds j inside
  rw [whole, stringAt_append begins text, Nat.zero_add, stringAt]
  by_cases ends : buf bytes.length = 0
  · simp [ends, Except.map]
  · rw [if_neg ends]
    cases stringAt buf left (bytes.length + 1) with
    | ok rest => simp [ends, Except.map, bind, Except.bind]
    | error stop => simp [ends, Except.map, bind, Except.bind]

/-- Behind the bytes before the first zero there is a zero. -/
theorem getD_takeWhile_length (line : List UInt8) :
    line.getD (line.takeWhile (· ≠ 0)).length 0 = 0 := by
  induction line with
  | nil => rfl
  | cons ch line ih =>
    by_cases zero : ch = 0
    · simp [zero]
    · simpa [zero] using ih

/-- The text of a line that `str_cli` sends: `strlen` stops at the first zero. -/
def typed (stdin : List UInt8) : List UInt8 :=
  (takeLine (cliCount - 1) stdin).1.takeWhile (· ≠ 0)

/-- Without zeros, the text is the whole line. -/
theorem typed_eq {stdin : List UInt8} (text : 0 ∉ (takeLine (cliCount - 1) stdin).1) :
    typed stdin = (takeLine (cliCount - 1) stdin).1 := by
  refine List.takeWhile_eq_self_iff.mpr ?_
  intro ch member
  have nonzero : ch ≠ 0 := by
    rintro rfl
    exact text member
  exact decide_eq_true nonzero

/-- The text is shorter than what `fgets` is allowed. -/
theorem typed_length (stdin : List UInt8) : (typed stdin).length < cliCount := by
  have short := takeLine_length (cliCount - 1) stdin
  have part := (List.takeWhile_sublist (l := (takeLine (cliCount - 1) stdin).1)
    (· ≠ (0 : UInt8))).length_le
  have positive : cliCount - 1 < cliCount := by decide
  unfold typed
  omega

/-- There is no zero in it. -/
theorem zero_notMem_typed (stdin : List UInt8) : 0 ∉ typed stdin := by
  intro member
  have nonzero := List.mem_takeWhile_imp member
  simp at nonzero

/-- A round sends the text of a line with a newline behind it. -/
theorem send_spec (c : Session) : ∃ after,
    c.send = .ok (⟨after, (takeLine (cliCount - 1) c.stdin).2⟩, typed c.stdin ++ [newline]) ∧
      ∀ k, after k =
        if k = (typed c.stdin).length then newline
        else if k < cliCount then (takeLine (cliCount - 1) c.stdin).1.getD k 0
        else c.buf k := by
  have room : cliCount ≤ cliSize := by decide
  obtain ⟨cleared, erased⟩ : ∃ cleared, memset c.buf cliCount = .ok cleared := ⟨_, if_pos room⟩
  obtain ⟨filled, read, holds⟩ := fgets_spec erased c.stdin
  have length := typed_length c.stdin
  have line : Holds filled (typed c.stdin) := by
    intro k inside
    have low : k < cliCount := by omega
    have within : k < (takeLine (cliCount - 1) c.stdin).1.length :=
      Nat.lt_of_lt_of_le inside (List.takeWhile_sublist _).length_le
    rw [holds, if_pos low, List.getD, List.getElem?_eq_getElem within, Option.getD_some]
    exact ((List.takeWhile_prefix _).getElem inside).symm
  have ended : filled (typed c.stdin).length = 0 := by
    rw [holds, if_pos length]
    exact getD_takeWhile_length _
  have string := (stringAt_iff line (zero_notMem_typed c.stdin) (by omega)).mpr ended
  have fits : (typed c.stdin).length + 1 ≤ cliSize := by omega
  refine ⟨Function.update filled (typed c.stdin).length newline, ?_, ?_⟩
  · simp only [Session.send, erased, read, strlen, string, fits, bind, Except.bind, ↓reduceIte]
    have sent : Holds (Function.update filled (typed c.stdin).length newline)
        (typed c.stdin ++ [newline]) := by
      intro k inside
      rw [List.length_append, List.length_singleton] at inside
      by_cases last : k = (typed c.stdin).length
      · subst last
        simp
      · rw [Function.update_of_ne last, List.getElem_append_left (by omega)]
        exact line k (by omega)
    have written := sent.map_range
    rw [List.length_append, List.length_singleton] at written
    rw [written]
  · intro k
    by_cases last : k = (typed c.stdin).length
    · rw [last, Function.update_self, if_pos rfl]
    · rw [Function.update_of_ne last, if_neg last, holds]

/-- A message is a text with a newline behind it, far shorter than the buffer of a server. -/
theorem Message.shape {bytes : List UInt8} (message : Message bytes) :
    bytes.getLast? = some newline ∧ bytes.length ≤ cliCount ∧ 0 ∉ bytes := by
  obtain ⟨c, c', sent⟩ := message
  obtain ⟨after, sends, _⟩ := send_spec c
  rw [sends] at sent
  obtain ⟨_, rfl⟩ := Prod.mk.inj (Except.ok.inj sent)
  have length := typed_length c.stdin
  refine ⟨by simp, ?_, ?_⟩
  · rw [List.length_append, List.length_singleton]
    exact length
  · rw [List.mem_append, List.mem_singleton]
    rintro (inside | zero)
    · exact zero_notMem_typed c.stdin inside
    · exact absurd zero (by decide)

/-! ## What a server does with it -/

/-- What a program makes of a request. -/
def Tool.result : Tool → List UInt8 → List UInt8
  | .upper => upperFirst
  | .reverse => List.reverse

/-- Its transformation makes this of a request. -/
theorem Tool.transforms (tool : Tool) : Transforms tool.transform tool.result := by
  cases tool with
  | upper => exact upper_transforms
  | reverse => exact reverse_transforms

/-- A message that arrives in one piece is answered at once. -/
theorem Tool.handle_message (tool : Tool) {bytes : List UInt8} (message : Message bytes)
    (buf : Buffer) : tool.handle (.data bytes) 0 buf =
      .ok (.returns (BitVec.ofNat 32 bytes.length) (some (tool.result bytes))) := by
  obtain ⟨ended, short, _⟩ := message.shape
  have room : ([] : List UInt8).length + bytes.length < maxSize := by
    rw [cliCount] at short
    rw [List.length_nil, maxSize]
    omega
  rw [tool.handle_eq]
  exact handleRead_line tool.transforms (holds_nil buf) ended room

/-- A `read` gives a whole message of a client. -/
def Arrival.Whole (i : Arrival) : Prop :=
  ∀ result, i = .read result → ∃ bytes, result = .data bytes ∧ Message bytes

/-- All clients send messages, and each arrives in one piece. -/
abbrev WholeMessages : MainHistory → Prop := Along fun move => move.input.Whole

variable {tool : Tool} {listenfd : Nat} {stack : Nat → Nat → Buffer} {past : MainHistory}
  {s : Main}

/-- Where no call goes on, a client is served from the beginning of the buffer. -/
theorem curr_of_serves (again : s.again = none) {serving : Serving}
    (there : s.turn listenfd stack = .serves serving) : serving.curr = 0 := by
  rcases turn_serves there with going | ⟨_, ev, rest, _, _, _, rfl⟩
  · cases again.symm.trans going
  · rfl

/-- With whole messages, every call of `handle` ends with its first `read`. -/
theorem again_of_whole (run : MainRun tool listenfd stack past s)
    (whole : WholeMessages past) : s.again = none := by
  induction run with
  | start => rfl
  | @move past s s' i before taken ih =>
    obtain ⟨last, earlier⟩ := along_cons.mp whole
    have again := ih earlier
    cases main_cases taken with
    | interrupted there => exact again
    | reported events there may => exact again
    | refused granted there => rfl
    | accepted clientfd granted there new => rfl
    | skips there => rfl
    | reads result serving curr buf there handled =>
      obtain ⟨bytes, rfl, message⟩ := last result rfl
      rw [curr_of_serves again there, tool.handle_message message] at handled
      cases handled
    | returns result serving ret reply there handled =>
      rw [handled_of_pos ((tool.handle_ok handled).2 ret reply rfl)]
      rfl

/-- With whole messages, each client is written the results of its own messages. -/
theorem written_of_whole (run : MainRun tool listenfd stack past s)
    (whole : WholeMessages past) (fd : Nat) :
    writtenTo tool listenfd stack fd past =
      (readsFrom listenfd stack fd past).flatMap fun result => tool.result result.bytes := by
  induction run with
  | start => rfl
  | @move past s s' i before taken ih =>
    obtain ⟨last, earlier⟩ := along_cons.mp whole
    rw [writtenTo, readsFrom, List.flatMap_append, ih earlier]
    congr 1
    unfold writtenOf readOf
    split
    · rename_i serving result there input
      obtain ⟨bytes, rfl, message⟩ := last result input
      have first := curr_of_serves (again_of_whole before earlier) there
      rw [first, tool.handle_message message]
      by_cases this : serving.fd = fd
      · simp [this, ReadResult.bytes]
      · simp [this]
    · rfl

/-- A server whose clients send whole messages cannot leave its buffer. -/
theorem stop_of_whole (run : MainRun tool listenfd stack past s)
    (whole : WholeMessages past) {i : Arrival} (next : i.Whole) {stop : Stop}
    (stopped : s.step tool listenfd stack i = .error stop) :
    stop = .disabled := by
  cases i with
  | ready events =>
    simp only [Main.step] at stopped
    split at stopped
    · cases stopped
    · split at stopped
      · cases stopped
      · cases stopped
        rfl
    · cases stopped
      rfl
  | accepted clientfd granted =>
    simp only [Main.step] at stopped
    split at stopped
    · cases stopped
    · split at stopped
      · cases stopped
        rfl
      · cases stopped
    · cases stopped
      rfl
  | read result =>
    obtain ⟨bytes, rfl, message⟩ := next result rfl
    simp only [Main.step] at stopped
    split at stopped
    · rename_i serving there
      rw [curr_of_serves (again_of_whole run whole) there, tool.handle_message message] at stopped
      cases stopped
    · cases stopped
      rfl
  | nothing =>
    simp only [Main.step] at stopped
    split at stopped
    · cases stopped
    · cases stopped
      rfl

/-- In every run of a line server whose clients all run `str_cli`, whatever is typed into them, if
their messages arrive in one piece each, so that no client ends and no `read` fails: the server
cannot leave its buffer, no call of `handle` keeps other clients waiting for the rest of a line,
and each client is written the results of its own messages, in order, and nothing else. -/
theorem cli_clients_are_served (run : MainRun tool listenfd stack past s)
    (whole : WholeMessages past) :
    (∀ i stop, Arrival.Whole i → s.step tool listenfd stack i = .error stop →
      stop = .disabled) ∧
    s.again = none ∧
    ∀ fd, writtenTo tool listenfd stack fd past =
      (readsFrom listenfd stack fd past).flatMap fun result => tool.result result.bytes :=
  ⟨fun _ _ next stopped => stop_of_whole run whole next stopped, again_of_whole run whole,
    written_of_whole run whole⟩

/-- What is typed makes a message. -/
theorem message_typed (c : Session) : Message (typed c.stdin ++ [newline]) := by
  obtain ⟨after, sends, _⟩ := send_spec c
  exact ⟨c, _, sends⟩

/-- Two lines are typed into one client. -/
def twoLines : List Arrival :=
  [.ready (some [⟨epollIn, 3⟩]), .accepted (some 4) true, .ready (some [⟨epollIn, 4⟩]),
    .read (.data [97, 10, 10]), .ready (some [⟨epollIn, 4⟩]), .read (.data [98, 10, 10])]

/-- The server reverses both and goes on. -/
theorem cli_clients_are_served_twoLines :
    writtenTo .reverse 3 zeroed 4
        (movesOf (Main.step .reverse 3 zeroed) (Main.init 3) twoLines) =
      [10, 10, 97, 10, 10, 98] := by
  have first : Message [97, 10, 10] := message_typed ⟨zeroed 0 0, [97, 10]⟩
  have second : Message [98, 10, 10] := message_typed ⟨zeroed 0 0, [98, 10]⟩
  have inputs : (movesOf (Main.step .reverse 3 zeroed) (Main.init 3) twoLines).map Move.input =
      twoLines.reverse := by decide +kernel
  have whole : WholeMessages (movesOf (Main.step .reverse 3 zeroed) (Main.init 3) twoLines) := by
    intro move member result read
    have given := List.mem_map_of_mem (f := Move.input) member
    rw [inputs, read] at given
    simp only [twoLines, List.mem_reverse, List.mem_cons, Arrival.read.injEq, reduceCtorEq,
      List.not_mem_nil, false_or, or_false] at given
    rcases given with rfl | rfl
    · exact ⟨_, rfl, first⟩
    · exact ⟨_, rfl, second⟩
  have run : MainRun .reverse 3 zeroed _ _ := run_of_outcome twoLines (by decide +kernel)
  obtain ⟨_, _, written⟩ := cli_clients_are_served run whole
  rw [written 4]
  decide +kernel

/-! ## What the client prints -/

/-- The answer to a message is as long as the message. -/
theorem Tool.result_length (tool : Tool) {bytes : List UInt8} (message : Message bytes) :
    (tool.result bytes).length = bytes.length := by
  obtain ⟨_, short, _⟩ := message.shape
  have fits : cliCount ≤ maxSize := by decide
  exact tool.transforms.length (Nat.le_trans short fits)

/-- There is no zero in it. -/
theorem Tool.zero_notMem_result (tool : Tool) {bytes : List UInt8} (text : 0 ∉ bytes) :
    0 ∉ tool.result bytes := by
  cases tool with
  | reverse => simpa [Tool.result] using text
  | upper =>
    simp only [Tool.result, upperFirst, List.mem_append, List.mem_map]
    rintro (⟨ch, inside, zero⟩ | behind)
    · have other : ch ≠ 0 := by
        rintro rfl
        exact text ((List.takeWhile_prefix _).mem inside)
      unfold toUpper at zero
      split at zero
      · rename_i lower
        have blank : ch = 0 - lowUpSetoff := by rw [← zero, UInt8.add_sub_cancel]
        rw [blank] at lower
        exact absurd lower (by decide)
      · exact other zero
    · exact text ((List.dropWhile_suffix _).mem behind)

/-- A client prints an answer as it is exactly if there is a zero behind it in the buffer. -/
theorem receive_iff {c : Session} {answer : List UInt8} (text : 0 ∉ answer)
    (short : answer.length < cliSize) :
    (∃ c', c.receive (.data answer) = .ok (c', answer)) ↔ c.buf answer.length = 0 := by
  obtain ⟨buf, filled⟩ : ∃ buf, buf = fun k => answer.getD k (c.buf k) := ⟨_, rfl⟩
  have stored : put c.buf answer = .ok buf := by
    rw [filled]
    exact if_pos (Nat.le_of_lt short)
  have holds : Holds buf answer := by
    intro k inside
    simp [filled, List.getD_eq_getElem?_getD, inside]
  have behind : buf answer.length = c.buf answer.length := by
    simp [filled, List.getD_eq_getElem?_getD]
  rw [← behind, ← stringAt_iff holds text short]
  simp only [Session.receive, ReadResult.bytes, stored, bind, Except.bind]
  cases stringAt buf cliSize 0 with
  | ok printed => simp
  | error stop => simp

/-- When the line that is taken has no zeros and one `read` gives the whole answer of either server,
the client prints exactly this answer if and only if the message is shorter than what the client
clears of its buffer, or a zero happens to stand behind that. Otherwise it prints what its stack
holds there. -/
theorem cli_prints_the_answer_iff {c c' : Session} {bytes : List UInt8}
    (sent : c.send = .ok (c', bytes)) (text : 0 ∉ (takeLine (cliCount - 1) c.stdin).1) :
    (∃ c'', c'.receive (.data (tool.result bytes)) = .ok (c'', tool.result bytes)) ↔
      bytes.length < cliCount ∨ c.buf cliCount = 0 := by
  have message : Message bytes := ⟨c, c', sent⟩
  obtain ⟨_, short, nonzero⟩ := message.shape
  have same := tool.result_length message
  have room : cliCount < cliSize := by decide
  rw [receive_iff (tool.zero_notMem_result nonzero) (by omega), same]
  obtain ⟨after, sends, contents⟩ := send_spec c
  rw [sends] at sent
  obtain ⟨rfl, rfl⟩ := Prod.mk.inj (Except.ok.inj sent)
  rw [List.length_append, List.length_singleton] at short ⊢
  dsimp only
  rw [contents, if_neg (Nat.succ_ne_self _)]
  by_cases cleared : (typed c.stdin).length + 1 < cliCount
  · -- `memset` has cleared the byte behind the newline
    have beyond : (takeLine (cliCount - 1) c.stdin).1.getD ((typed c.stdin).length + 1) 0 = 0 := by
      rw [← typed_eq text, List.getD_eq_getElem?_getD, List.getElem?_eq_none (Nat.le_succ _)]
      rfl
    rw [if_pos cleared, beyond]
    simp [cleared]
  · have full : (typed c.stdin).length + 1 = cliCount := by omega
    rw [if_neg cleared, full]
    simp

/-- A short line comes back in upper case. -/
theorem cli_prints_the_answer_iff_shortLine : ∃ c' c'' : Session,
    (Session.mk (zeroed 0 0) [104, 105, 10]).send = .ok (c', [104, 105, 10, 10]) ∧
      c'.receive (.data [72, 73, 10, 10]) = .ok (c'', [72, 73, 10, 10]) := by
  obtain ⟨after, sends, _⟩ := send_spec ⟨zeroed 0 0, [104, 105, 10]⟩
  obtain ⟨c'', prints⟩ := (@cli_prints_the_answer_iff .upper _ _ _ sends (by decide)).mpr
    (.inl (by decide))
  exact ⟨_, c'', sends, prints⟩

end LibcoLite.Server
