import LibcoLite.Lib.Pieces
import LibcoLite.Request

/-!
# Replies to a stream of lines

A client sends a stream of lines, and the kernel cuts it into chunks as it likes. Each call of
`handle` takes the chunks up to the first one that ends in a newline for one request, which may
be several lines. The replies are those to the single lines exactly if the transformation does
not tell such a request from its lines.
-/

namespace LibcoLite.Server

open Pieces (Piece cut)

/-- The bytes the server writes to a client, from a `read` at an offset on. A call of `handle`
finds arbitrary contents in its buffer; behind a value that is not positive the connection is
closed. -/
def repliesFrom (handle : ReadResult → BitVec 32 → Buffer → Except Stop Progress)
    (stack : Nat → Buffer) : Nat → BitVec 32 → Buffer → List ReadResult →
    Except Stop (List UInt8)
  | _, _, _, [] => .ok []
  | calls, curr, buf, result :: rest => do
    match ← handle result curr buf with
    | .reads curr buf => repliesFrom handle stack calls curr buf rest
    | .returns ret reply =>
      if ret.toInt ≤ 0 then .ok (reply.getD [])
      else
        let later ← repliesFrom handle stack (calls + 1) 0 (stack (calls + 1)) rest
        .ok (reply.getD [] ++ later)

/-- The bytes the server writes to a client whose stream arrives in some chunks. -/
def replies (handle : ReadResult → BitVec 32 → Buffer → Except Stop Progress)
    (stack : Nat → Buffer) (chunks : List (List UInt8)) : Except Stop (List UInt8) :=
  repliesFrom handle stack 0 0 (stack 0) (chunks.map ReadResult.data)

/-- A newline ends a line. -/
def isNewline (ch : UInt8) : Bool := ch == newline

/-- A chunk that ends in a newline ends a request. -/
def endsRequest (chunk : List UInt8) : Bool := chunk.getLast?.any isNewline

/-- The chunks each call of `handle` takes. -/
def requests (chunks : List (List UInt8)) : List (List (List UInt8)) := cut endsRequest chunks

/-- The lines of a request. -/
def linesOf (request : List (List UInt8)) : List (List UInt8) := cut isNewline request.flatten

variable {transform : Transform} {result : List UInt8 → List UInt8}

/-- A chunk that ends a request has a newline at its end. -/
theorem endsRequest_iff {chunk : List UInt8} :
    endsRequest chunk = true ↔ chunk.getLast? = some newline := by
  unfold endsRequest isNewline
  cases chunk.getLast? with
  | none => simp
  | some ch => simp

/-- The call of `handle` that has some bytes answers them with the rest of their request. -/
theorem repliesFrom_request (transforms : Transforms transform result)
    {body : List (List UInt8)} {last : List UInt8} {buf : Buffer} {content : List UInt8}
    (holds : Holds buf content) (nonempty : ∀ chunk ∈ body, chunk ≠ [])
    (goes : ∀ chunk ∈ body, endsRequest chunk = false) (stops : endsRequest last = true)
    (room : content.length + (body ++ [last]).flatten.length < maxSize)
    (stack : Nat → Buffer) (calls : Nat) (rest : List ReadResult) :
    repliesFrom (handleRead transform) stack calls (BitVec.ofNat 32 content.length) buf
        ((body ++ [last]).map ReadResult.data ++ rest) =
      (repliesFrom (handleRead transform) stack (calls + 1) 0 (stack (calls + 1)) rest).map
        fun later => result (content ++ (body ++ [last]).flatten) ++ later := by
  induction body generalizing buf content with
  | nil =>
    have ended := endsRequest_iff.mp stops
    have filled : last ≠ [] := by
      rintro rfl
      cases ended
    simp only [List.nil_append, List.flatten_singleton] at room ⊢
    have returns := handleRead_line transforms holds ended room
    have positive : ¬(BitVec.ofNat 32 (content ++ last).length).toInt ≤ 0 := by
      have length : 0 < last.length := List.length_pos_iff.mpr filled
      rw [toInt_small (by rw [List.length_append]; omega), List.length_append]
      omega
    simp only [List.map_cons, List.map_nil, List.cons_append, List.nil_append, repliesFrom, returns,
      positive, bind, Except.bind, ↓reduceIte, Option.getD_some]
    cases repliesFrom (handleRead transform) stack (calls + 1) 0 (stack (calls + 1)) rest <;> rfl
  | cons chunk body ih =>
    have filled := nonempty chunk List.mem_cons_self
    have more : chunk.getLast? ≠ some newline := by
      intro ended
      have stop := endsRequest_iff.mpr ended
      rw [goes chunk List.mem_cons_self] at stop
      contradiction
    simp only [List.cons_append, List.flatten_cons, List.length_append] at room
    obtain ⟨buf', after, reads⟩ := handleRead_reads transform holds filled more (by omega)
    have later := ih after (fun other member => nonempty other (List.mem_cons_of_mem _ member))
      (fun other member => goes other (List.mem_cons_of_mem _ member))
      (by simp only [List.length_append]; omega)
    simp only [List.cons_append, List.map_cons, repliesFrom, reads, bind, Except.bind]
    rw [later]
    simp only [List.flatten_cons, List.append_assoc]

/-- Each request is answered with its transformation. -/
theorem repliesFrom_requests (transforms : Transforms transform result)
    {groups : List (List (List UInt8))} (ends : ∀ request ∈ groups, Piece endsRequest request)
    (nonempty : ∀ request ∈ groups, ∀ chunk ∈ request, chunk ≠ [])
    (room : ∀ request ∈ groups, request.flatten.length < maxSize)
    (stack : Nat → Buffer) (calls : Nat) (buf : Buffer) :
    repliesFrom (handleRead transform) stack calls 0 buf (groups.flatten.map ReadResult.data) =
      .ok (groups.flatMap fun request => result request.flatten) := by
  induction groups generalizing calls buf with
  | nil => rfl
  | cons request rest ih =>
    obtain ⟨⟨body, last, rfl, goes, stops⟩, later⟩ := List.forall_mem_cons.mp ends
    obtain ⟨filled, filled'⟩ := List.forall_mem_cons.mp nonempty
    obtain ⟨fits, fits'⟩ := List.forall_mem_cons.mp room
    have answered := repliesFrom_request transforms (holds_nil buf)
      (fun chunk member => filled chunk (List.mem_append_left _ member)) goes stops
      (by simpa using fits) stack calls (rest.flatten.map ReadResult.data)
    rw [ih later filled' fits'] at answered
    rw [List.flatten_cons, List.map_append, List.flatMap_cons]
    exact answered

/-- The requests of a stream of lines make up its chunks, each ends with a chunk that ends in a
newline, and the lines of all requests are the lines of the stream. -/
theorem requests_spec {lines chunks : List (List UInt8)}
    (each : ∀ line ∈ lines, Piece isNewline line) (nonempty : ∀ chunk ∈ chunks, chunk ≠ [])
    (stream : chunks.flatten = lines.flatten) :
    (requests chunks).flatten = chunks ∧
      (∀ request ∈ requests chunks, Piece endsRequest request) ∧
      (requests chunks).flatMap linesOf = lines := by
  have ended : Pieces.Ended isNewline chunks.flatten := by
    rw [stream]
    exact Pieces.ended_flatten_of_pieces each
  have last : Pieces.Ended endsRequest chunks := Pieces.ended_flatten nonempty ended
  have whole : (requests chunks).flatten = chunks := Pieces.flatten_cut chunks
  have ends : ∀ request ∈ requests chunks, Piece endsRequest request := by
    intro request member
    exact Pieces.piece_of_mem_cut last member
  refine ⟨whole, ends, ?_⟩
  have endedEach : ∀ request ∈ requests chunks, Pieces.Ended isNewline request.flatten := by
    intro request member
    exact (ends request member).ended_flatten
  unfold linesOf
  rw [← Pieces.cut_flatMap endedEach]
  have joined : (requests chunks).flatMap List.flatten = lines.flatten := by
    rw [← stream, List.flatMap_def, ← List.flatten_flatten, whole]
  rw [joined, Pieces.cut_flatten each]

/-- A transformation keeps the number of bytes. -/
theorem Transforms.length (transforms : Transforms transform result) {content : List UInt8}
    (small : content.length ≤ maxSize) : (result content).length = content.length := by
  have holds : Holds (fun k => content.getD k 0) content := by
    intro k inside
    simp [inside]
  exact (transforms _ content small holds).1

/-- The replies to a stream of lines are those to the single lines exactly if each request is
transformed as its lines are. -/
theorem replies_iff (transforms : Transforms transform result)
    {lines chunks : List (List UInt8)} (each : ∀ line ∈ lines, Piece isNewline line)
    (nonempty : ∀ chunk ∈ chunks, chunk ≠ []) (stream : chunks.flatten = lines.flatten)
    (short : lines.flatten.length < maxSize) (stack : Nat → Buffer) :
    replies (handleRead transform) stack chunks = .ok (lines.flatMap result) ↔
      ∀ request ∈ requests chunks,
        result request.flatten = (linesOf request).flatMap result := by
  obtain ⟨whole, ends, parts⟩ := requests_spec each nonempty stream
  have filled : ∀ request ∈ requests chunks, ∀ chunk ∈ request, chunk ≠ [] := by
    intro request member chunk inside
    apply nonempty chunk
    rw [← whole]
    exact List.mem_flatten_of_mem member inside
  have room : ∀ request ∈ requests chunks, request.flatten.length < maxSize := by
    intro request member
    have part : request.flatten.length ≤ chunks.flatten.length := by
      rw [← whole, List.flatten_flatten]
      exact (List.sublist_flatten_of_mem (List.mem_map_of_mem member)).length_le
    rw [stream] at part
    exact Nat.lt_of_le_of_lt part short
  have answers : replies (handleRead transform) stack chunks =
      .ok ((requests chunks).flatMap fun request => result request.flatten) := by
    unfold replies
    conv_lhs => rw [← whole]
    exact repliesFrom_requests transforms ends filled room stack 0 (stack 0)
  have expected : lines.flatMap result =
      (requests chunks).flatMap fun request => (linesOf request).flatMap result := by
    conv_lhs => rw [← parts, List.flatMap_assoc]
  have lengths : ∀ request ∈ requests chunks, (result request.flatten).length =
      ((linesOf request).flatMap result).length := by
    intro request member
    have small := Nat.le_of_lt (room request member)
    have joined : (linesOf request).flatten = request.flatten := Pieces.flatten_cut _
    rw [transforms.length small, Pieces.length_flatMap_of_length, joined]
    intro line inside
    apply transforms.length
    have part := (List.sublist_flatten_of_mem inside).length_le
    rw [joined] at part
    omega
  rw [answers, expected, Except.ok.injEq, Pieces.flatMap_eq_iff lengths]

/-! ## The two servers -/

/-- Exactly the lower-case letters have another upper-case form. -/
theorem toUpper_eq_self_iff {ch : UInt8} : toUpper ch = ch ↔ isLowercase ch = false := by
  unfold toUpper
  cases lower : isLowercase ch with
  | false => simp
  | true =>
    have moved : lowUpSetoff ≠ 0 := by decide
    simpa using moved

/-- The first line is the whole exactly if there is no lower-case letter behind it. -/
theorem upperFirst_eq_map_iff {bytes : List UInt8} :
    upperFirst bytes = bytes.map toUpper ↔
      ∀ ch ∈ bytes.dropWhile (· ≠ newline), isLowercase ch = false := by
  have split : bytes.map toUpper = (bytes.takeWhile (· ≠ newline)).map toUpper ++
      (bytes.dropWhile (· ≠ newline)).map toUpper := by
    rw [← List.map_append, List.takeWhile_append_dropWhile]
  have same : (bytes.dropWhile (· ≠ newline)).map toUpper = bytes.dropWhile (· ≠ newline) ↔
      ∀ ch ∈ bytes.dropWhile (· ≠ newline), toUpper ch = ch := by
    conv_lhs => rw [← List.map_id (bytes.dropWhile (· ≠ newline)), List.map_map]
    exact List.map_inj_left
  rw [split, upperFirst, List.append_cancel_left_eq, eq_comm, same]
  simp only [toUpper_eq_self_iff]

/-- `upper` turns a line into upper case. -/
theorem upperFirst_line {line : List UInt8} (one : Piece isNewline line) :
    upperFirst line = line.map toUpper := by
  obtain ⟨body, last, rfl, inside, stops⟩ := one
  obtain rfl : last = newline := by simpa [isNewline] using stops
  have tail : (body ++ [newline]).dropWhile (· ≠ newline) = [newline] := by
    rw [List.dropWhile_append_of_pos]
    · simp
    · intro ch member
      simpa [isNewline] using inside ch member
  rw [upperFirst_eq_map_iff, tail]
  simp [isLowercase, newline]

/-- `upper` transforms a request as its lines exactly if it has no lower-case letter behind its
first newline. -/
theorem upperFirst_iff {bytes : List UInt8} (ended : Pieces.Ended isNewline bytes) :
    upperFirst bytes = (cut isNewline bytes).flatMap upperFirst ↔
      ∀ ch ∈ bytes.dropWhile (· ≠ newline), isLowercase ch = false := by
  have lines : (cut isNewline bytes).flatMap upperFirst = bytes.map toUpper := by
    have each : (cut isNewline bytes).map upperFirst =
        (cut isNewline bytes).map (List.map toUpper) := by
      apply List.map_congr_left
      intro line member
      exact upperFirst_line (Pieces.piece_of_mem_cut ended member)
    rw [List.flatMap_def, each, ← List.map_flatten, Pieces.flatten_cut]
  rw [lines, upperFirst_eq_map_iff]

/-- For every stream of lines and every way to cut it into chunks, the replies are the lines in
upper case or reversed exactly if, in `upper`, no request has a lower-case letter behind its
first newline, and in `reverse`, the lines of each request read the same from both ends. -/
theorem replies_independent_of_cuts {lines chunks : List (List UInt8)}
    (each : ∀ line ∈ lines, Piece isNewline line) (nonempty : ∀ chunk ∈ chunks, chunk ≠ [])
    (stream : chunks.flatten = lines.flatten) (short : lines.flatten.length < maxSize)
    (stack : Nat → Buffer) :
    (replies upperHandle stack chunks = .ok (lines.flatMap (List.map toUpper)) ↔
      ∀ request ∈ requests chunks, ∀ ch ∈ request.flatten.dropWhile (· ≠ newline),
        isLowercase ch = false) ∧
    (replies reverseHandle stack chunks = .ok (lines.flatMap List.reverse) ↔
      ∀ request ∈ requests chunks, (linesOf request).reverse = linesOf request) := by
  obtain ⟨_, ends, _⟩ := requests_spec each nonempty stream
  constructor
  · have upperLines : lines.flatMap (List.map toUpper) = lines.flatMap upperFirst := by
      apply List.flatMap_congr
      intro line member
      exact (upperFirst_line (each line member)).symm
    rw [upperLines, upperHandle, replies_iff upper_transforms each nonempty stream short stack]
    apply forall₂_congr
    intro request member
    exact upperFirst_iff (ends request member).ended_flatten
  · rw [reverseHandle, replies_iff reverse_transforms each nonempty stream short stack]
    apply forall₂_congr
    intro request member
    exact Pieces.reverse_eq_flatMap_iff (ends request member).ended_flatten

/-- The text of two lines. -/
theorem piece_twoLines : ∀ line ∈ [[97, 10], [98, 10]], Piece isNewline line := by
  have first : Piece isNewline [97, 10] := ⟨[97], 10, rfl, by simp [isNewline, newline], rfl⟩
  have second : Piece isNewline [98, 10] := ⟨[98], 10, rfl, by simp [isNewline, newline], rfl⟩
  simp [first, second]

/-- Lines that arrive in requests of their own, the first one in two chunks, are answered one by
one. -/
theorem replies_independent_of_cuts_ownRequests :
    replies upperHandle (fun _ _ => 0) [[97], [10], [98, 10]] = .ok [65, 10, 66, 10] ∧
      replies reverseHandle (fun _ _ => 0) [[97], [10], [98, 10]] = .ok [10, 97, 10, 98] := by
  have stream : [[97], [10], [98, 10]].flatten = [[97, 10], [98, (10 : UInt8)]].flatten := rfl
  have answers := replies_independent_of_cuts piece_twoLines (by decide) stream (by decide)
    fun _ _ => 0
  have alone : requests [[97], [10], [98, 10]] = [[[97], [10]], [[98, 10]]] := rfl
  rw [alone] at answers
  exact ⟨answers.1.mpr (by simp [newline, isLowercase]), answers.2.mpr (by decide)⟩

/-- The replies depend on the cuts: of two lines in one chunk, `upper` transforms the first one
only. -/
theorem replies_independent_of_cuts_fails : ¬∀ (lines chunks : List (List UInt8))
    (stack : Nat → Buffer), (∀ line ∈ lines, Piece isNewline line) →
      (∀ chunk ∈ chunks, chunk ≠ []) → chunks.flatten = lines.flatten →
      lines.flatten.length < maxSize →
      replies upperHandle stack chunks = .ok (lines.flatMap (List.map toUpper)) ∧
        replies reverseHandle stack chunks = .ok (lines.flatMap List.reverse) := by
  intro allAnswered
  have answers := allAnswered [[97, 10], [98, 10]] [[97, 10, 98, 10]] (fun _ _ => 0) piece_twoLines
    (by decide) rfl (by decide)
  have kept : replies upperHandle (fun _ _ => 0) [[97, 10, 98, 10]] = .ok [65, 10, 98, 10] := by
    rfl
  rw [kept] at answers
  exact absurd answers.1 (by decide)

end LibcoLite.Server
