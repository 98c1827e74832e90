import LibcoLite.Server

/-!
# Reading a request

`get_line` offers every `read` the whole length of the buffer, at the offset behind the bytes
it has, and stores its results in integers of two widths. A call of `handle` stays inside its
buffer exactly if its first `read` gives a chunk that is shorter than the buffer and ends in a
newline.
-/

namespace LibcoLite.Server

/-! ## Small numbers -/

/-- A small `int` keeps its value as a `size_t`. -/
theorem signExtend_small {n : Nat} (small : n ≤ maxSize) :
    (BitVec.ofNat 32 n).signExtend 64 = BitVec.ofNat 64 n := by
  unfold maxSize at small
  rw [BitVec.signExtend_eq_setWidth_of_msb_false]
  · apply BitVec.eq_of_toNat_eq
    simp only [BitVec.toNat_setWidth, BitVec.toNat_ofNat]
    omega
  · simp only [BitVec.msb_eq_decide, BitVec.toNat_ofNat, decide_eq_false_iff_not]
    omega

/-- A small `int` is not negative. -/
theorem toInt_small {n : Nat} (small : n ≤ maxSize) : (BitVec.ofNat 32 n).toInt = n := by
  unfold maxSize at small
  simp only [BitVec.toInt_eq_toNat_cond, BitVec.toNat_ofNat]
  omega

/-- A small `size_t` is the number of its bits. -/
theorem toNat_small {n : Nat} (small : n ≤ maxSize) : (BitVec.ofNat 64 n).toNat = n := by
  unfold maxSize at small
  simp only [BitVec.toNat_ofNat]
  omega

/-- A `size_t` is truncated to an `int`. -/
theorem setWidth_ofNat (n : Nat) : (BitVec.ofNat 64 n).setWidth 32 = BitVec.ofNat 32 n := by
  apply BitVec.eq_of_toNat_eq
  simp

/-- A small positive `size_t` is not zero. -/
theorem ofNat_ne_zero {n : Nat} (positive : 0 < n) (small : n ≤ maxSize) :
    BitVec.ofNat 64 n ≠ 0 := by
  intro zero
  have same := toNat_small small
  rw [zero] at same
  have none : n = 0 := same.symm
  omega

/-! ## The contents of the buffer -/

/-- The buffer begins with some bytes. -/
def Holds (buf : Buffer) (content : List UInt8) : Prop :=
  ∀ k, (inside : k < content.length) → buf k = content[k]

/-- Every buffer begins with no bytes. -/
theorem holds_nil (buf : Buffer) : Holds buf [] := by
  intro k inside
  contradiction

/-- The bytes at the beginning of the buffer are its first elements. -/
theorem Holds.map_range {buf : Buffer} {content : List UInt8} (holds : Holds buf content) :
    (List.range content.length).map buf = content := by
  apply List.ext_getElem
  · simp
  · intro k first second
    simpa using holds k second

/-- A store behind the bytes leaves them. -/
theorem Holds.store {buf : Buffer} {content : List UInt8} (holds : Holds buf content)
    {i : Nat} (behind : content.length ≤ i) (ch : UInt8) :
    Holds (Function.update buf i ch) content := by
  intro k inside
  rw [Function.update_of_ne (by omega)]
  exact holds k inside

/-- The kernel's store behind the bytes appends to them. -/
theorem Holds.fill {buf : Buffer} {content bytes : List UInt8} (holds : Holds buf content)
    (room : content.length + bytes.length ≤ maxSize) :
    ∃ buf', Server.fill buf content.length bytes = .ok buf' ∧ Holds buf' (content ++ bytes) := by
  have inside : (0 : Int) ≤ content.length ∧
      (content.length : Int) + bytes.length ≤ maxSize := by omega
  refine ⟨_, if_pos inside, ?_⟩
  intro k bound
  rw [List.length_append] at bound
  simp only [Int.toNat_natCast]
  by_cases old : k < content.length
  · rw [if_neg (by omega), List.getElem_append_left old]
    exact holds k old
  · have new : k - content.length < bytes.length := by omega
    rw [if_pos (by omega), List.getElem_append_right (by omega), List.getD,
      List.getElem?_eq_getElem new]
    rfl

/-! ## Rounds of `get_line` -/

/-- A chunk that fits behind the bytes is appended, and ends the line if it ends in a
newline. -/
theorem getLineRound_data {buf : Buffer} {content bytes : List UInt8}
    (holds : Holds buf content) (nonempty : bytes ≠ [])
    (room : content.length + bytes.length ≤ maxSize) :
    ∃ buf', Holds buf' (content ++ bytes) ∧
      getLineRound (.data bytes) (BitVec.ofNat 32 content.length) buf =
        .ok (if bytes.getLast? = some newline
          then .line (BitVec.ofNat 32 (content ++ bytes).length) buf'
          else .reads (BitVec.ofNat 32 (content ++ bytes).length) buf') := by
  obtain ⟨buf', filled, after⟩ := holds.fill room
  refine ⟨buf', after, ?_⟩
  have positive : 0 < bytes.length := List.length_pos_iff.mpr nonempty
  have nonzero := ofNat_ne_zero positive (by omega)
  have offset : ((BitVec.ofNat 32 content.length).signExtend 64 +
      BitVec.ofNat 64 bytes.length).setWidth 32 = BitVec.ofNat 32 (content ++ bytes).length := by
    rw [signExtend_small (by omega), ← BitVec.ofNat_add, setWidth_ofNat, List.length_append]
  have last : load buf' ((BitVec.ofNat 32 (content ++ bytes).length).toInt - 1) =
      .ok (bytes.getLast nonempty) := by
    rw [toInt_small (by rw [List.length_append]; exact room)]
    have inside : (0 : Int) ≤ ((content ++ bytes).length : Int) - 1 ∧
        ((content ++ bytes).length : Int) - 1 < maxSize := by
      rw [List.length_append]
      omega
    rw [load, if_pos inside]
    have index : (((content ++ bytes).length : Int) - 1).toNat =
        (content ++ bytes).length - 1 := by omega
    have filled : content ++ bytes ≠ [] := List.append_ne_nil_of_right_ne_nil _ nonempty
    rw [index, after _ (by rw [List.length_append]; omega), ← List.getLast_eq_getElem filled,
      List.getLast_append_of_ne_nil filled nonempty]
  have start : (BitVec.ofNat 32 content.length).toInt = content.length :=
    toInt_small (by omega)
  simp only [getLineRound, ReadResult.bytes, ReadResult.count, start, filled, offset, last,
    nonzero, bind, Except.bind, ne_eq, not_false_eq_true, ↓reduceIte,
    List.getLast?_eq_some_getLast nonempty, Option.some.injEq]
  by_cases stops : bytes.getLast nonempty = newline
  · simp [stops]
  · simp [stops]

/-! ## Behind `get_line` -/

/-- A transformation rewrites the bytes at the beginning of the buffer and keeps their number. -/
def Transforms (transform : Transform) (result : List UInt8 → List UInt8) : Prop :=
  ∀ buf content, content.length ≤ maxSize → Holds buf content →
    (result content).length = content.length ∧ ∃ buf',
      transform buf (BitVec.ofNat 32 content.length) =
        .ok (buf', BitVec.ofNat 64 content.length) ∧ Holds buf' (result content)

variable {transform : Transform} {result : List UInt8 → List UInt8}

/-- A line shorter than the buffer is transformed and written back. -/
theorem handleLine_returns (transforms : Transforms transform result) {buf : Buffer}
    {content : List UInt8} (holds : Holds buf content) (nonempty : content ≠ [])
    (room : content.length < maxSize) :
    handleLine transform (BitVec.ofNat 32 content.length) buf =
      .ok (.returns (BitVec.ofNat 32 content.length) (some (result content))) := by
  have small : content.length ≤ maxSize := Nat.le_of_lt room
  have nonzero := ofNat_ne_zero (List.length_pos_iff.mpr nonempty) small
  have inside : (0 : Int) ≤ content.length ∧ (content.length : Int) < maxSize := by omega
  have stored : store buf content.length newline =
      .ok (Function.update buf content.length newline) := if_pos inside
  obtain ⟨length, buf', done, after⟩ :=
    transforms _ content small (holds.store (Nat.le_refl _) newline)
  have reply : written buf' (BitVec.ofNat 64 content.length) = .ok (result content) := by
    rw [written, toNat_small small, if_pos small, ← length, after.map_range]
  simp only [handleLine, signExtend_small small, toNat_small small, stored, nonzero.symm,
    setWidth_ofNat, done, reply, bind, Except.bind, ↓reduceIte]

/-- A line as long as the buffer is terminated behind the buffer. -/
theorem handleLine_full (transform : Transform) (buf : Buffer) :
    handleLine transform (BitVec.ofNat 32 maxSize) buf = .error .bounds := by
  simp only [handleLine, signExtend_small (Nat.le_refl _), toNat_small (Nat.le_refl _)]
  rfl

/-- The value for a closed connection is taken for an index. -/
theorem handleLine_closed (transform : Transform) (buf : Buffer) :
    handleLine transform (-1) buf = .error .bounds := by
  have outside : ¬((0 : Int) ≤ ((-1 : BitVec 32).signExtend 64).toNat ∧
      (((-1 : BitVec 32).signExtend 64).toNat : Int) < maxSize) := by decide
  simp only [handleLine, store, if_neg outside, bind, Except.bind]

/-- A chunk that completes a line shorter than the buffer is answered. -/
theorem handleRead_line (transforms : Transforms transform result) {buf : Buffer}
    {content bytes : List UInt8} (holds : Holds buf content)
    (ended : bytes.getLast? = some newline) (room : content.length + bytes.length < maxSize) :
    handleRead transform (.data bytes) (BitVec.ofNat 32 content.length) buf =
      .ok (.returns (BitVec.ofNat 32 (content ++ bytes).length)
        (some (result (content ++ bytes)))) := by
  have nonempty : bytes ≠ [] := by
    rintro rfl
    cases ended
  obtain ⟨buf', after, round⟩ := getLineRound_data holds nonempty (Nat.le_of_lt room)
  rw [if_pos ended] at round
  rw [← List.length_append] at room
  have filled : content ++ bytes ≠ [] := List.append_ne_nil_of_right_ne_nil _ nonempty
  simp only [handleRead, round, bind, Except.bind, handleLine_returns transforms after filled room]

/-- A chunk that does not end in a newline is followed by another `read`. -/
theorem handleRead_reads (transform : Transform) {buf : Buffer} {content bytes : List UInt8}
    (holds : Holds buf content) (nonempty : bytes ≠ [])
    (more : bytes.getLast? ≠ some newline)
    (room : content.length + bytes.length ≤ maxSize) :
    ∃ buf', Holds buf' (content ++ bytes) ∧
      handleRead transform (.data bytes) (BitVec.ofNat 32 content.length) buf =
        .ok (.reads (BitVec.ofNat 32 (content ++ bytes).length) buf') := by
  obtain ⟨buf', after, round⟩ := getLineRound_data holds nonempty room
  rw [if_neg more] at round
  refine ⟨buf', after, ?_⟩
  simp only [handleRead, round, bind, Except.bind]

/-! ## What the transformations do -/

/-- The upper-case form of a character. -/
def toUpper (ch : UInt8) : UInt8 := if isLowercase ch then ch + lowUpSetoff else ch

/-- The characters before the first newline in upper case. -/
def upperFirst (content : List UInt8) : List UInt8 :=
  (content.takeWhile (· ≠ newline)).map toUpper ++ content.dropWhile (· ≠ newline)

/-- The element of the buffer behind some bytes. -/
theorem Holds.at_length {buf : Buffer} {front rest : List UInt8} {ch : UInt8}
    (holds : Holds buf (front ++ ch :: rest)) : buf front.length = ch := by
  have inside : front.length < (front ++ ch :: rest).length := by simp
  rw [holds _ inside]
  simp

/-- A load of that element. -/
theorem Holds.load {buf : Buffer} {front rest : List UInt8} {ch : UInt8}
    (holds : Holds buf (front ++ ch :: rest)) (small : front.length < maxSize) :
    Server.load buf front.length = .ok ch := by
  have inside : (0 : Int) ≤ front.length ∧ (front.length : Int) < maxSize := by omega
  rw [Server.load, if_pos inside, Int.toNat_natCast, holds.at_length]

/-- A store to that element. -/
theorem Holds.set {buf : Buffer} {front rest : List UInt8} {ch : UInt8}
    (holds : Holds buf (front ++ ch :: rest)) (small : front.length < maxSize) (new : UInt8) :
    ∃ buf', Server.store buf front.length new = .ok buf' ∧
      Holds buf' (front ++ new :: rest) := by
  have inside : (0 : Int) ≤ front.length ∧ (front.length : Int) < maxSize := by omega
  refine ⟨_, if_pos inside, ?_⟩
  intro k bound
  rw [Int.toNat_natCast]
  by_cases here : k = front.length
  · subst here
    simp
  · have before : k < (front ++ ch :: rest).length := by
      simp only [List.length_append, List.length_cons] at bound ⊢
      exact bound
    rw [Function.update_of_ne here, holds k before]
    by_cases old : k < front.length
    · rw [List.getElem_append_left old, List.getElem_append_left old]
    · obtain ⟨j, rfl⟩ : ∃ j, k = front.length + (j + 1) := ⟨k - front.length - 1, by omega⟩
      simp

/-- A round of the loop of `upper` that finds no newline transforms one character. -/
theorem upperLoop_step {front rest : List UInt8} {ch : UInt8} {buf : Buffer}
    (holds : Holds buf (front ++ ch :: rest)) (small : front.length < maxSize)
    (goes : newline ≠ ch) (left : Nat) :
    ∃ buf', upperLoop (left + 1) front.length buf = upperLoop left (front.length + 1) buf' ∧
      Holds buf' (front ++ toUpper ch :: rest) := by
  have loaded := holds.load small
  unfold toUpper
  cases lower : isLowercase ch with
  | true =>
    obtain ⟨buf', stored, after⟩ := holds.set small (ch + lowUpSetoff)
    refine ⟨buf', ?_, after⟩
    simp only [upperLoop, loaded, goes, lower, stored, bind, Except.bind, ↓reduceIte]
  | false =>
    refine ⟨buf, ?_, holds⟩
    simp only [upperLoop, loaded, goes, lower, bind, Except.bind, ↓reduceIte, Bool.false_eq_true]

/-- The loop of `upper` stops at the first newline. -/
theorem upperLoop_spec {front rest : List UInt8} {buf : Buffer}
    (holds : Holds buf (front ++ rest)) (small : front.length + rest.length ≤ maxSize) :
    ∃ buf', upperLoop rest.length front.length buf = .ok buf' ∧
      Holds buf' (front ++ upperFirst rest) := by
  induction rest generalizing front buf with
  | nil => exact ⟨buf, rfl, holds⟩
  | cons ch rest ih =>
    rw [List.length_cons] at small
    by_cases stops : newline = ch
    · have loaded := holds.load (by omega)
      refine ⟨buf, ?_, ?_⟩
      · simp only [List.length_cons, upperLoop, loaded, stops, bind, Except.bind, ↓reduceIte]
      · simpa [upperFirst, stops.symm] using holds
    · have goes : upperFirst (ch :: rest) = toUpper ch :: upperFirst rest := by
        simp [upperFirst, Ne.symm stops]
      obtain ⟨middle, round, after⟩ := upperLoop_step holds (by omega) stops rest.length
      rw [List.append_cons] at after
      have room : (front ++ [toUpper ch]).length + rest.length ≤ maxSize := by
        simp only [List.length_append, List.length_singleton]
        omega
      obtain ⟨buf', done, result⟩ := ih after room
      rw [List.length_append, List.length_singleton] at done
      refine ⟨buf', round.trans done, ?_⟩
      rw [goes, List.append_cons]
      exact result

/-- `upper` transforms the first line. -/
theorem upper_transforms : Transforms upper upperFirst := by
  intro buf content small holds
  constructor
  · simp only [upperFirst, List.length_append, List.length_map]
    rw [← List.length_append, List.takeWhile_append_dropWhile]
  · have whole : Holds buf ([] ++ content) := holds
    obtain ⟨buf', done, after⟩ := upperLoop_spec whole (by simpa using small)
    refine ⟨buf', ?_, after⟩
    simp only [upper, toInt_small small, Int.toNat_natCast, signExtend_small small]
    rw [List.length_nil] at done
    simp only [done, bind, Except.bind]

/-- A round of the loop of `reverse` exchanges two characters. -/
theorem reverseLoop_swap {front inner back : List UInt8} {x y : UInt8} {buf : Buffer}
    (holds : Holds buf (front ++ x :: (inner ++ y :: back)))
    (small : front.length + inner.length + 2 ≤ maxSize) (rounds : Nat) :
    ∃ buf', reverseLoop (rounds + 1) front.length (front.length + inner.length + 1) buf =
        reverseLoop rounds (front.length + 1) (front.length + inner.length) buf' ∧
      Holds buf' (front ++ y :: (inner ++ x :: back)) := by
  have place (z : UInt8) : ((front ++ z :: inner).length : Int) =
      front.length + inner.length + 1 := by
    simp only [List.length_append, List.length_cons]
    omega
  have below (z : UInt8) : (front ++ z :: inner).length < maxSize := by
    simp only [List.length_append, List.length_cons]
    omega
  have goes : (front.length : Int) < front.length + inner.length + 1 := by omega
  have next : (front.length : Int) + inner.length + 1 - 1 = front.length + inner.length := by
    omega
  -- the buffer split at its right index
  have atRight : Holds buf ((front ++ x :: inner) ++ y :: back) := by simpa using holds
  have loadLeft := holds.load (by omega)
  have loadRight := atRight.load (below x)
  obtain ⟨first, storeLeft, between⟩ := holds.set (by omega) y
  have behind : Holds first ((front ++ y :: inner) ++ y :: back) := by simpa using between
  obtain ⟨second, storeRight, swapped⟩ := behind.set (below y) x
  rw [place] at loadRight storeRight
  refine ⟨second, ?_, by simpa using swapped⟩
  simp only [reverseLoop, if_pos goes, loadLeft, loadRight, storeLeft, storeRight, next, bind,
    Except.bind]

/-- The loop of `reverse` exchanges the ends of the part between its indices. -/
theorem reverseLoop_spec (rounds : Nat) {front middle back : List UInt8} {buf : Buffer}
    (holds : Holds buf (front ++ middle ++ back)) (enough : middle.length ≤ rounds)
    (small : front.length + middle.length ≤ maxSize) :
    ∃ buf', reverseLoop rounds front.length (front.length + middle.length - 1) buf = .ok buf' ∧
      Holds buf' (front ++ middle.reverse ++ back) := by
  induction rounds generalizing front middle back buf with
  | zero =>
    obtain rfl : middle = [] := List.length_eq_zero_iff.mp (by omega)
    exact ⟨buf, rfl, holds⟩
  | succ rounds ih =>
    cases middle with
    | nil =>
      have ended : ¬(front.length : Int) < front.length + ([] : List UInt8).length - 1 := by simp
      exact ⟨buf, if_neg ended, holds⟩
    | cons x tail =>
      cases tail using List.reverseRecOn with
      | nil =>
        have ended : ¬(front.length : Int) < front.length + [x].length - 1 := by simp
        exact ⟨buf, if_neg ended, holds⟩
      | append_singleton inner y =>
        have length : (x :: (inner ++ [y])).length = inner.length + 2 := by simp
        have right : (front.length : Int) + ((inner.length + 2 : Nat) : Int) - 1 =
            front.length + inner.length + 1 := by omega
        rw [length] at enough small ⊢
        have split : Holds buf (front ++ x :: (inner ++ y :: back)) := by simpa using holds
        obtain ⟨middle, round, swapped⟩ := reverseLoop_swap split (by omega) rounds
        have inside : Holds middle (front ++ [y] ++ inner ++ x :: back) := by simpa using swapped
        obtain ⟨buf', done, after⟩ := ih inside (by omega) (by simp; omega)
        have left : ((front ++ [y]).length : Int) = front.length + 1 := by simp
        have next : (front.length : Int) + 1 + inner.length - 1 =
            front.length + inner.length := by omega
        rw [left, next] at done
        rw [right, round]
        exact ⟨buf', done, by simpa using after⟩

/-- `reverse` reverses all characters. -/
theorem reverse_transforms : Transforms reverse List.reverse := by
  intro buf content small holds
  refine ⟨List.length_reverse, ?_⟩
  have whole : Holds buf ([] ++ content ++ []) := by simpa using holds
  obtain ⟨buf', done, after⟩ := reverseLoop_spec content.length whole (Nat.le_refl _)
    (by simpa using small)
  refine ⟨buf', ?_, by simpa using after⟩
  simp only [reverse, toInt_small small, Int.toNat_natCast, signExtend_small small]
  simp only [List.length_nil, Int.zero_add, Nat.cast_zero] at done
  simp only [done, bind, Except.bind]

/-! ## Staying inside the buffer -/

/-- A result behind which the request is to end: nothing more, an error, or a chunk that ends in
a newline. -/
def ReadResult.Ends : ReadResult → Prop
  | .data bytes => bytes.getLast? = some newline
  | .closed => True
  | .failed => True

/-- A result that is no chunk. -/
def ReadResult.Lost : ReadResult → Prop
  | .data _ => False
  | .closed => True
  | .failed => True

/-- What `get_line` offers to `read` at an offset lies inside the buffer. -/
def OfferInside (curr : BitVec 32) : Prop := 0 ≤ curr.toInt ∧ curr.toInt + maxSize ≤ maxSize

/-- A call of `handle` that reads at an offset and is given some results offers `read` memory
inside the buffer only, accesses no other memory, reads on behind no result that ends the
request, and behind a lost connection returns no positive value and answers nothing. -/
def StaysInside (handle : ReadResult → BitVec 32 → Buffer → Except Stop Progress) :
    BitVec 32 → Buffer → List ReadResult → Prop
  | curr, _, [] => OfferInside curr
  | curr, buf, result :: rest => OfferInside curr ∧
      match handle result curr buf with
      | .error _ => False
      | .ok (.reads curr buf) => ¬result.Ends ∧ StaysInside handle curr buf rest
      | .ok (.returns ret reply) => result.Lost → ret.toInt ≤ 0 ∧ reply = none

/-- The first result, if there is one yet, is a chunk shorter than the buffer that ends in a
newline. -/
def LineFirst (results : List ReadResult) : Prop :=
  ∀ result ∈ results.head?, ∃ bytes, result = .data bytes ∧ bytes.length < maxSize ∧
    bytes.getLast? = some newline

section

variable {handle : ReadResult → BitVec 32 → Buffer → Except Stop Progress} {given : ReadResult}
  {curr : BitVec 32} {buf : Buffer} {rest : List ReadResult}

/-- A call that stays inside reads at the beginning of the buffer. -/
theorem StaysInside.offset {results : List ReadResult}
    (stays : StaysInside handle curr buf results) : curr.toInt = 0 := by
  have offer : OfferInside curr := by
    cases results with
    | nil => exact stays
    | cons given rest => exact stays.1
  obtain ⟨low, high⟩ := offer
  omega

/-- A call that returns stays inside, if it answers a lost connection with nothing. -/
theorem staysInside_of_returns {ret : BitVec 32} {reply : Option (List UInt8)}
    (offer : OfferInside curr) (returns : handle given curr buf = .ok (.returns ret reply))
    (silent : given.Lost → ret.toInt ≤ 0 ∧ reply = none) :
    StaysInside handle curr buf (given :: rest) := by
  refine ⟨offer, ?_⟩
  rw [returns]
  exact silent

/-- A call that accesses other memory does not stay inside. -/
theorem not_staysInside_of_error {stop : Stop} (stops : handle given curr buf = .error stop) :
    ¬StaysInside handle curr buf (given :: rest) := by
  rintro ⟨_, goes⟩
  rw [stops] at goes
  exact goes

/-- A call that reads again at another offset does not stay inside. -/
theorem not_staysInside_of_reads {curr' : BitVec 32} {buf' : Buffer}
    (reads : handle given curr buf = .ok (.reads curr' buf')) (moved : curr'.toInt ≠ 0) :
    ¬StaysInside handle curr buf (given :: rest) := by
  rintro ⟨_, goes⟩
  rw [reads] at goes
  exact moved goes.2.offset

end

/-- The end of the stream makes the first round end with an access outside the buffer. -/
theorem handleRead_closed (transform : Transform) (buf : Buffer) :
    handleRead transform .closed 0 buf = .error .bounds := by
  have round : ∃ buf', getLineRound .closed 0 buf = .ok (.line (-1) buf') := ⟨_, rfl⟩
  obtain ⟨buf', round⟩ := round
  simp only [handleRead, round, bind, Except.bind]
  exact handleLine_closed transform buf'

/-- An error makes the first round test a byte outside the buffer. -/
theorem handleRead_failed (transform : Transform) (buf : Buffer) :
    handleRead transform .failed 0 buf = .error .bounds := by
  rfl

/-- A chunk that fills the buffer and ends in a newline is terminated behind the buffer. -/
theorem handleRead_full (transform : Transform) (buf : Buffer) {bytes : List UInt8}
    (ended : bytes.getLast? = some newline) (full : bytes.length = maxSize) :
    handleRead transform (.data bytes) 0 buf = .error .bounds := by
  have filled : bytes ≠ [] := by
    rintro rfl
    cases ended
  obtain ⟨buf', _, round⟩ := getLineRound_data (holds_nil buf) filled (by simp [full])
  rw [if_pos ended, List.nil_append, full] at round
  have whole : getLineRound (.data bytes) 0 buf =
      .ok (.line (BitVec.ofNat 32 maxSize) buf') := round
  simp only [handleRead, whole, bind, Except.bind, handleLine_full]

/-- `get_line` first offers the whole buffer. -/
theorem offerInside_zero : OfferInside 0 := ⟨by decide, by decide⟩

/-- A call whose first result is a chunk stays inside exactly if the chunk is a line shorter
than the buffer. -/
theorem staysInside_data_iff (transforms : Transforms transform result) {bytes : List UInt8}
    (filled : bytes ≠ []) (small : bytes.length ≤ maxSize) (buf : Buffer)
    (rest : List ReadResult) :
    StaysInside (handleRead transform) 0 buf (.data bytes :: rest) ↔
      bytes.length < maxSize ∧ bytes.getLast? = some newline := by
  have room : ([] : List UInt8).length + bytes.length ≤ maxSize := by
    rw [List.length_nil, Nat.zero_add]
    exact small
  by_cases ended : bytes.getLast? = some newline
  · by_cases full : bytes.length = maxSize
    · apply iff_of_false (not_staysInside_of_error (handleRead_full transform buf ended full))
      intro short
      omega
    · have short : bytes.length < maxSize := Nat.lt_of_le_of_ne small full
      have returns := handleRead_line transforms (holds_nil buf) ended (by simpa using short)
      apply iff_of_true (staysInside_of_returns offerInside_zero returns fun lost => lost.elim)
      exact ⟨short, ended⟩
  · obtain ⟨buf', after, reads⟩ := handleRead_reads transform (holds_nil buf) filled ended room
    rw [List.nil_append] at reads
    have moved : (BitVec.ofNat 32 bytes.length).toInt ≠ 0 := by
      rw [toInt_small small]
      have positive : 0 < bytes.length := List.length_pos_iff.mpr filled
      omega
    apply iff_of_false (not_staysInside_of_reads reads moved)
    intro line
    exact ended line.2

/-- A call of `handle` stays inside its buffer exactly if the first result is a line that is
shorter than the buffer. -/
theorem staysInside_iff (transforms : Transforms transform result) {results : List ReadResult}
    (fits : ∀ result ∈ results, result.Fits maxSize) (buf : Buffer) :
    StaysInside (handleRead transform) 0 buf results ↔ LineFirst results := by
  cases results with
  | nil =>
    have none : LineFirst [] := by
      intro first member
      contradiction
    exact iff_of_true offerInside_zero none
  | cons first rest =>
    have line : LineFirst (first :: rest) ↔ ∃ bytes, first = .data bytes ∧
        bytes.length < maxSize ∧ bytes.getLast? = some newline := by
      simp [LineFirst]
    rw [line]
    cases first with
    | closed =>
      apply iff_of_false (not_staysInside_of_error (handleRead_closed transform buf))
      simp
    | failed =>
      apply iff_of_false (not_staysInside_of_error (handleRead_failed transform buf))
      simp
    | data bytes =>
      obtain ⟨filled, small⟩ := fits _ List.mem_cons_self
      rw [staysInside_data_iff transforms filled small]
      simp

/-- In both servers a call of `handle` stays inside its buffer, for the results `read` may give,
exactly if the first of them is a chunk shorter than the buffer that ends in a newline, or has
not arrived yet. -/
theorem request_stays_inside {results : List ReadResult}
    (fits : ∀ result ∈ results, result.Fits maxSize) (buf : Buffer) :
    (StaysInside upperHandle 0 buf results ↔ LineFirst results) ∧
      (StaysInside reverseHandle 0 buf results ↔ LineFirst results) :=
  ⟨staysInside_iff upper_transforms fits buf, staysInside_iff reverse_transforms fits buf⟩

/-- A line that arrives whole is answered inside the buffer. -/
theorem request_stays_inside_wholeLine :
    StaysInside upperHandle 0 (fun _ => 0) [.data [104, 105, 10], .closed] ∧
      StaysInside reverseHandle 0 (fun _ => 0) [.data [104, 105, 10], .closed] := by
  have fits : ∀ result ∈ [ReadResult.data [104, 105, 10], .closed], result.Fits maxSize := by
    simp [ReadResult.Fits, maxSize]
  have line : LineFirst [.data [104, 105, 10], .closed] := by
    simp [LineFirst, maxSize, newline]
  exact ⟨(request_stays_inside fits _).1.mpr line, (request_stays_inside fits _).2.mpr line⟩

/-- The calls do not always stay inside: when the peer has closed, `handle` stores a newline in
front of its buffer. -/
theorem request_stays_inside_fails : ¬∀ (results : List ReadResult) (buf : Buffer),
    (∀ result ∈ results, result.Fits maxSize) →
      StaysInside upperHandle 0 buf results ∧ StaysInside reverseHandle 0 buf results := by
  intro staysInside
  have fits : ∀ result ∈ [ReadResult.closed], result.Fits maxSize := by
    simp [ReadResult.Fits]
  have stays := (staysInside [.closed] (fun _ => 0) fits).1
  exact not_staysInside_of_error (handleRead_closed upper _) stays

end LibcoLite.Server
