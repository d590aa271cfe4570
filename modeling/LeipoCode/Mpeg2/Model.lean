import LeipoCode.Lib.ByteFile
import Mathlib.Data.Int.Notation

/-!
# The transport stream parser of `example/example_MPEG2Parser.c`

`TS_PES_Parser` looks for packets of the video PID that carry a presentation time
stamp, and `example_MPEG2Parser` calls it on one chunk of a file after the other.

### The parser

`char` is signed, as it is for gcc on the targets the program is built for, so a byte
is sign-extended where the source uses it as an `int` (`char`).  The operators are
bracketed as C brackets them: `buff[j+3]&0x10==0x10` is `buff[j+3] & (0x10==0x10)`.
An index outside the buffer is a fault.  The loop moves `ind` on, and `j`, the index
it reads at, stays where it was; both are arguments here.

### The driver

The descriptor has a position of its own, `read` returns what the environment lets it
return, and a call of the parser is recorded with its arguments: it writes nothing
that the loop reads.

### What is left out

The parser prints what it finds and returns nothing, so what it reports are the packets it prints a
time stamp for, with the bytes it computes it from.  The messages around them are left out, and the
test that prints that a packet goes wrong is one of those: it has no `return` behind it.
-/

namespace LeipoCode.Mpeg2

open ByteFile

abbrev Byte := BitVec 8

/-- `VID_PID`: the identifier of the packets that the parser looks at. -/
def VID_PID : BitVec 32 := 111

/-- `CHUNK_SIZE`, a number of whole packets: what one `read` is asked for, and what the parser is
told the buffer has. -/
def CHUNK_SIZE : ℕ := 188 * 1024 * 6

/-- The largest `int`, which the offset that is printed must not run past. -/
def INT_MAX : ℤ := 2147483647

/-! ### The parser -/

/-- The lines the parser prints, with their arguments.  The last one has the number of
the packet and what `%x` is given for the five bytes. -/
inductive Line
  | offset (offset : ℤ)
  | alignedError
  | warning (packetPos adaptionLen : ℤ)
  | ptsFound (packet : ℕ) (bytes : List (BitVec 32))
deriving DecidableEq, Repr

/-- A read outside the buffer, in front of it or behind; C leaves undefined what it gives. -/
inductive Fault
  | outOfBounds (index : ℤ)
deriving DecidableEq, Repr

/-- `buff[i]` as an `int`: the sign of the byte is extended, so that from 0x80 on it is a negative
number. -/
def char (buff : List Byte) (i : ℤ) : Except Fault (BitVec 32) :=
  if 0 ≤ i then
    match buff[i.toNat]? with
    | some b => .ok (b.signExtend 32)
    | none => .error (.outOfBounds i)
  else .error (.outOfBounds i)

/-- The `int` a comparison yields.  Both masks of the header are such, by the precedence of `==`
over `&`. -/
def intOfBool (b : Bool) : BitVec 32 := if b then 1 else 0

/-- The stream ids whose packets have no optional header, as the source compares them: they are
positive, and no byte from 0x80 on is that as an `int`. -/
def noHeaderIds : List (BitVec 32) := [0xBC, 0xBE, 0xBF, 0xF0, 0xF1, 0xF2, 0xF8, 0xFF]

/-- The part of the loop body from `packet_pos` on: the start code, the stream id, the
flag, and the line for the time stamp. -/
def parsePes (buff : List Byte) (ind : ℕ) (packetPos : ℤ) : Except Fault (List Line) := do
  if (← char buff packetPos) ≠ 0 then
    return []
  if (← char buff (packetPos + 1)) ≠ 0 then
    return []
  if (← char buff (packetPos + 2)) ≠ 1 then
    return []
  let streamId ← char buff (packetPos + 3)
  if noHeaderIds.contains streamId then
    return []
  if (← char buff (packetPos + 7)) &&& 0x80 ≠ 0x80 then
    return []
  let ptsPos := packetPos + 9
  return [.ptsFound (ind / 188)
    [← char buff ptsPos, ← char buff (ptsPos + 1), ← char buff (ptsPos + 2),
      ← char buff (ptsPos + 3), ← char buff (ptsPos + 4)]]

/-- The body of the loop, for the packet at `j`: the sync byte, the identifier, the two tests of the
header, and then the PES bytes.  The warning for an adaptation field that is too long does not end
the pass. -/
def parsePacket (buff : List Byte) (j ind : ℕ) : Except Fault (List Line) := do
  if (← char buff j) ≠ 0x47 then
    return [.alignedError]
  let pidPacket := (((← char buff (j + 1)) &&& 0x1F) <<< 8) ||| (← char buff (j + 2))
  if pidPacket ≠ VID_PID then
    return []
  if (← char buff (j + 3)) &&& intOfBool ((0x10 : BitVec 32) == 0x10) = 0 then
    return []
  let packetPos : ℤ := 4
  if (← char buff (j + 3)) &&& intOfBool ((0x30 : BitVec 32) == 0x30) ≠ 0 then
    let adaptionFieldLength := (← char buff (j + 4)).toInt
    let packetPos := packetPos + (1 + adaptionFieldLength)
    if 188 ≤ packetPos then
      return .warning packetPos adaptionFieldLength :: (← parsePes buff ind packetPos)
    parsePes buff ind packetPos
  else
    parsePes buff ind packetPos

/-- `count` passes of the loop, from `ind` on.  The index `j` that is read at is the same in all of
them. -/
def parsePackets (buff : List Byte) (j : ℕ) : ℕ → ℕ → Except Fault (List Line)
  | 0, _ => .ok []
  | count + 1, ind => do
      let out ← parsePacket buff j ind
      return out ++ (← parsePackets buff j count (ind + 188))

/-- `TS_PES_Parser`: `ind` runs through the multiples of 188 below `size`. -/
def tsPesParser (offset : ℤ) (buff : List Byte) (size : ℕ) : Except Fault (List Line) := do
  return .offset offset :: (← parsePackets buff 0 ((size + 187) / 188) 0)

/-! ### The driver -/

/-- A call of the parser, with what `read` returned just before it, which the parser is not told. -/
structure Call where
  offset : ℤ
  buff : List Byte
  size : ℕ
  count : ℤ
deriving DecidableEq, Repr

/-- The variables of `example_MPEG2Parser` in its loop, the position of the descriptor
and the calls made so far. -/
structure DriverState where
  pos : ℕ
  offset : ℤ
  buff : List Byte
  calls : List Call
deriving DecidableEq, Repr

/-- Where the loop is: in one of its passes, behind the `break` at the end of the file, or lost. -/
inductive Progress
  | running (s : DriverState)
  | exited (s : DriverState)
  /-- `offset` left the range of `int`. -/
  | overflow
deriving DecidableEq, Repr

/-- One pass of the loop, in which `read` returns `result`.  The value is compared with
zero and not used again. -/
def driverPass (file : List Byte) (result : ℤ) (s : DriverState) : Progress :=
  let buff := overwrite s.buff (readAt file s.pos result.toNat)
  if result = 0 then
    .exited s
  else
    let calls := s.calls ++ [⟨s.offset, buff, CHUNK_SIZE, result⟩]
    let offset := s.offset + CHUNK_SIZE
    if INT_MAX < offset then .overflow
    else .running ⟨offset.toNat, offset, buff, calls⟩

/-- The loop after `n` reads, the `i`-th of which returns `results i`.  Each pass seeks to the
offset, reads, and hands the buffer to the parser. -/
def driver (file garbage : List Byte) (results : ℕ → ℤ) : ℕ → Progress
  | 0 => .running ⟨0, 0, garbage, []⟩
  | n + 1 =>
      match driver file garbage results n with
      | .running s => driverPass file (results n) s
      | other => other

/-- What `read` may return for a request of `CHUNK_SIZE` bytes at `pos`: -1 on an error,
0 at the end of the file, and before it any count up to what was asked for and what is
there. -/
def ReadResult (len pos : ℕ) (result : ℤ) : Prop :=
  result = -1 ∨ (len ≤ pos ∧ result = 0) ∨
    (pos < len ∧ 0 < result ∧ result ≤ CHUNK_SIZE ∧ pos + result ≤ len)

end LeipoCode.Mpeg2
