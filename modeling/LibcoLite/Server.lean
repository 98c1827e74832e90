import LibcoLite.Thread
import Mathlib.Data.BitVec

/-!
# The line servers

`tools/server/upper.c` and `tools/server/reverse.c` answer each readable client with one call
of `handle`, which reads a request into its buffer, transforms it and writes it back. The two
files differ in the transformation only. The kernel decides what each `read` gives; an access
outside the buffer stops the call.
-/

namespace LibcoLite.Server

/-- `MAXSIZE`, length of the buffer. -/
def maxSize : Nat := 1024

/-- The character that ends a line. -/
def newline : UInt8 := 10

/-- The bytes of the buffer `char buf[MAXSIZE]`. -/
abbrev Buffer := Nat → UInt8

/-- What one call of `read` gives. -/
inductive ReadResult where
  /-- Some bytes. -/
  | data (bytes : List UInt8)
  /-- The end of the stream. -/
  | closed
  /-- An error. -/
  | failed
deriving DecidableEq, Repr

/-- The value `read` returns, converted to `size_t`. -/
def ReadResult.count : ReadResult → BitVec 64
  | .data bytes => BitVec.ofNat 64 bytes.length
  | .closed => 0
  | .failed => -1

/-- The bytes `read` stores. -/
def ReadResult.bytes : ReadResult → List UInt8
  | .data bytes => bytes
  | .closed => []
  | .failed => []

/-- What `read` may give when it is asked for a number of bytes: at least one and at most so
many, or none at the end of the stream or on an error. -/
def ReadResult.Fits (len : Nat) : ReadResult → Prop
  | .data bytes => bytes ≠ [] ∧ bytes.length ≤ len
  | .closed => True
  | .failed => True

/-- Read an element of the buffer. -/
def load (buf : Buffer) (i : Int) : Except Stop UInt8 :=
  if 0 ≤ i ∧ i < maxSize then .ok (buf i.toNat) else .error .bounds

/-- Write an element of the buffer. -/
def store (buf : Buffer) (i : Int) (ch : UInt8) : Except Stop Buffer :=
  if 0 ≤ i ∧ i < maxSize then .ok (Function.update buf i.toNat ch) else .error .bounds

/-- The kernel stores bytes from an offset of the buffer on. -/
def fill (buf : Buffer) (offset : Int) (bytes : List UInt8) : Except Stop Buffer :=
  if 0 ≤ offset ∧ offset + bytes.length ≤ maxSize then
    .ok fun k => if offset.toNat ≤ k then bytes.getD (k - offset.toNat) (buf k) else buf k
  else .error .bounds

/-- The first bytes of the buffer, so many as `write` is passed. -/
def written (buf : Buffer) (n : BitVec 64) : Except Stop (List UInt8) :=
  if n.toNat ≤ maxSize then .ok ((List.range n.toNat).map buf) else .error .bounds

/-! ## The transformations -/

/-- `is_lowercase`. -/
def isLowercase (ch : UInt8) : Bool := 97 ≤ ch && ch ≤ 122

/-- `LOW_UP_SETOFF`, the distance from `'a'` to `'A'`. -/
def lowUpSetoff : UInt8 := 65 - 97

/-- The loop of `upper` from `i` on, with so many characters left. -/
def upperLoop : Nat → Nat → Buffer → Except Stop Buffer
  | 0, _, buf => .ok buf
  | left + 1, i, buf => do
    let ch ← load buf i
    if newline = ch then .ok buf
    else
      let buf ← if isLowercase ch then store buf i (ch + lowUpSetoff) else .ok buf
      upperLoop left (i + 1) buf

/-- `upper`. The loop is not entered for a negative `n`. -/
def upper (buf : Buffer) (n : BitVec 32) : Except Stop (Buffer × BitVec 64) := do
  let buf ← upperLoop n.toInt.toNat 0 buf
  .ok (buf, n.signExtend 64)

/-- The loop of `reverse`, allowed a number of rounds. -/
def reverseLoop : Nat → Int → Int → Buffer → Except Stop Buffer
  | 0, _, _, buf => .ok buf
  | rounds + 1, left, right, buf =>
    if left < right then do
      let tmp ← load buf left
      let ch ← load buf right
      let buf ← store buf left ch
      let buf ← store buf right tmp
      reverseLoop rounds (left + 1) (right - 1) buf
    else .ok buf

/-- `reverse`. The loop ends within `n` rounds. -/
def reverse (buf : Buffer) (n : BitVec 32) : Except Stop (Buffer × BitVec 64) := do
  let buf ← reverseLoop n.toInt.toNat 0 (n.toInt - 1) buf
  .ok (buf, n.signExtend 64)

/-! ## Reading and answering -/

/-- How `get_line` goes on behind a `read`. -/
inductive GetLine where
  /-- It reads again, behind the bytes it has. -/
  | reads (curr : BitVec 32) (buf : Buffer)
  /-- It returns a value. -/
  | line (ret : BitVec 32) (buf : Buffer)

/-- One round of the loop of `get_line`, behind its `read` at the offset `curr`. -/
def getLineRound (result : ReadResult) (curr : BitVec 32) (buf : Buffer) :
    Except Stop GetLine := do
  let buf ← fill buf curr.toInt result.bytes
  let n := result.count
  let curr := (curr.signExtend 64 + n).setWidth 32
  if n ≠ 0 then
    let last ← load buf (curr.toInt - 1)
    if last ≠ newline then .ok (.reads curr buf) else .ok (.line curr buf)
  else .ok (.line (-1) buf)

/-- How `handle` goes on behind a `read`. -/
inductive Progress where
  /-- `get_line` reads again, behind the bytes it has. -/
  | reads (curr : BitVec 32) (buf : Buffer)
  /-- `handle` returns a value, having passed bytes to `write` or not. -/
  | returns (ret : BitVec 32) (reply : Option (List UInt8))

/-- A transformation of the first bytes of the buffer, with the value it returns. -/
abbrev Transform := Buffer → BitVec 32 → Except Stop (Buffer × BitVec 64)

/-- `handle` behind its call of `get_line`. -/
def handleLine (transform : Transform) (line : BitVec 32) (buf : Buffer) :
    Except Stop Progress := do
  let n := line.signExtend 64
  let buf ← store buf n.toNat newline
  if 0 = n then .ok (.returns (-1) none)
  else
    let (buf, n) ← transform buf (n.setWidth 32)
    let reply ← written buf n
    .ok (.returns (n.setWidth 32) (some reply))

/-- `handle` from one result of `read` on, up to the next `read` or to its end. -/
def handleRead (transform : Transform) (result : ReadResult) (curr : BitVec 32)
    (buf : Buffer) : Except Stop Progress := do
  match ← getLineRound result curr buf with
  | .reads curr buf => .ok (.reads curr buf)
  | .line ret buf => handleLine transform ret buf

/-- `handle` of `upper.c`. -/
def upperHandle : ReadResult → BitVec 32 → Buffer → Except Stop Progress := handleRead upper

/-- `handle` of `reverse.c`. -/
def reverseHandle : ReadResult → BitVec 32 → Buffer → Except Stop Progress := handleRead reverse

end LibcoLite.Server
