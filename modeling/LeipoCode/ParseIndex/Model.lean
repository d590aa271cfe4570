import LeipoCode.Lib.ByteFile
import LeipoCode.Lib.Printf

/-!
# `example/example_ParseIndex.c`

The tool writes a text file: the header of a recorded stream, line by line, and the
entries of its index.

### The two dumps

Every line is put into `str`, a buffer of 255 characters, by `sprintf`, and written up to
its terminator.  A line that does not fit is a fault, and so is a `%s` that finds no
terminator in its array.  `%d` of an unsigned argument prints it as an `int`, `%x` and
`%llx` print a signed one as unsigned.

### The index

The index is read in chunks.  `BytesRead` and `IndexRead` are of type `int`, the size of a
record is of type `size_t`, so the divisions are of the wider of the types and unsigned if
that is `size_t`; their results come back to `int` by truncation.  The sizes of the types
are parameters (`Abi`).  `lseek` and `read` return what the environment lets them return.

### The text that comes out

`out` is what one run writes, from its first line to its last.  It is not the content of
`Stream_Info.txt` afterwards: the file is opened with `O_CREAT` and without `O_TRUNC`, so a run that
writes less than the file had leaves the rest of an older text behind its own.  Everything below is
about what a run writes.
-/

namespace LeipoCode.ParseIndex

open ByteFile Printf

abbrev Byte := BitVec 8

/-- `READ_IDX_CHUNK`: how many records of the index are asked for at a time, and how many
`STDVM_Index` holds. -/
def READ_IDX_CHUNK : ℕ := 1024 * 1024

/-- The size of `str`, with room for the terminator: a line of it has 254 characters at most. -/
def STR_SIZE : ℕ := 255

/-- What the program must not do: each leaves its behaviour undefined, so nothing is said of a run
behind it. -/
inductive Fault
  /-- `sprintf` writes behind `str`. -/
  | strOverflow
  /-- `%s` reads behind its array. -/
  | unterminated
  /-- An access to `STDVM_Index`. -/
  | outOfBounds (index : ℕ)
deriving DecidableEq, Repr

/-! ### Writing lines -/

/-- `sprintf (str, ...)` with what it formats, which must leave room for the terminator. -/
def sprintf (line : List Char) : Except Fault (List Char) :=
  if line.length < STR_SIZE then .ok line else .error .strOverflow

/-- Format and write the lines, one after the other, up to the first that is a fault. -/
def writeLines : List (Except Fault (List Char)) → Except Fault (List Char)
  | [] => .ok []
  | line :: lines => do
      let str ← sprintf (← line)
      return str ++ (← writeLines lines)

/-! ### The stream information -/

/-- `STDVMi_MAX_NAME_LENGTH`: what the arrays for the two names hold, which is one byte more than
`str` does. -/
abbrev STDVMi_MAX_NAME_LENGTH : ℕ := 256

/-- `STDVM_MAX_PIDS`: the entries of `Pids`, all of which are printed, however many `NbOfPids` says
there are. -/
abbrev STDVM_MAX_PIDS : ℕ := 16

/-- `STDVM_StreamData_t`: an entry of `Pids`, with the type as the unsigned number that an
enumeration is stored as. -/
structure StreamData where
  type : BitVec 32
  pid : BitVec 16
deriving DecidableEq

/-- `STDVMi_ProgramInfo_t`: the streams of a program, and where it begins and ends. -/
structure ProgramInfo where
  nbOfPids : BitVec 8
  pids : Fin STDVM_MAX_PIDS → StreamData
  progStartPos : BitVec 64
  progEndPos : BitVec 64

/-- An array for a name, which is one with a terminator only if somebody has put it there. -/
abbrev Name := Vector Byte STDVMi_MAX_NAME_LENGTH

/-- `STDVMi_StreamInfo_t`, with all the fields that the dump prints; it was read in full from the
start of the file. -/
structure StreamInfo where
  signature : BitVec 32
  version : BitVec 32
  nbOfFiles : BitVec 32
  channelName : Name
  description : Name
  streamFileType : BitVec 32
  streamStartPos : BitVec 64
  firstIndexPos : BitVec 32
  circularPartSize : BitVec 64
  circularPartIndexEntries : BitVec 32
  streamStartPosAfterCrop : BitVec 64
  streamEndPosAfterCrop : BitVec 64
  recordDateTime : BitVec 32
  nbOfPrograms : BitVec 32
  programInfo : ProgramInfo

/-- A byte as a character of the text: the one with the same number, whichever it is. -/
def char (b : Byte) : Char := Char.ofNat b.toNat

/-- The name as a string: the bytes before the terminator, or all of them if there is none. -/
def Name.string (name : Name) : List Byte := name.toList.takeWhile (· != 0)

/-- `%s`: the characters up to the terminator, which must be in the array. -/
def Name.percentS (name : Name) : Except Fault (List Char) :=
  if (0 : Byte) ∈ name.toList then .ok (name.string.map char) else .error .unterminated

/-- A line of a label and a value, with its newline: what most of the formats come to. -/
def line (label : String) (value : List Char) : List Char := label.toList ++ value ++ ['\n']

/-- `%d` of an `int`, or of an unsigned that is taken for one: from 2^31 on it is shown as a
negative number. -/
def decInt (n : BitVec 32) : List Char := dec n.toInt

/-- The line for an entry of `Pids`, with its place in the array; both numbers are printed by `%d`.
-/
def pidLine (i : ℕ) (data : StreamData) : List Char :=
  "STDVMi_ProgramInfo_t: PID(".toList ++ dec i ++ "): Type: ".toList ++ decInt data.type ++
    "  Pid: ".toList ++ dec data.pid.toNat ++ ['\n']

/-- The lines of the stream information.  The one for the version shows the signature. -/
def infoLines (info : StreamInfo) : List (Except Fault (List Char)) :=
  [.ok (line "Signature: 0x" (hex info.signature.toNat)),
    .ok (line "Version: 0x" (hex info.signature.toNat)),
    .ok (line "NbOfFiles: " (decInt info.nbOfFiles)),
    info.channelName.percentS.map (line "ChannelName: "),
    info.description.percentS.map (line "Description: "),
    .ok (line "StreamFileType: " (decInt info.streamFileType)),
    .ok (line "StreamStartPos: 0x" (hex info.streamStartPos.toNat)),
    .ok (line "FirstIndexPos: " (decInt info.firstIndexPos)),
    .ok (line "CircularPartSize: 0x" (hex info.circularPartSize.toNat)),
    .ok (line "CircularPartIndexEntries: " (decInt info.circularPartIndexEntries)),
    .ok (line "StreamStartPosAfterCrop: 0x" (hex info.streamStartPosAfterCrop.toNat)),
    .ok (line "StreamEndPosAfterCrop: 0x" (hex info.streamEndPosAfterCrop.toNat)),
    .ok (line "RecordDateTime: " (decInt info.recordDateTime)),
    .ok (line "NbOfPrograms: " (decInt info.nbOfPrograms)),
    .ok (line "STDVMi_ProgramInfo_t: NbOfPids: " (dec info.programInfo.nbOfPids.toNat))] ++
  List.ofFn (fun i => .ok (pidLine i (info.programInfo.pids i))) ++
  [.ok (line "STDVMi_ProgramInfo_t: ProgStartPos: 0x" (hex info.programInfo.progStartPos.toNat)),
    .ok (line "STDVMi_ProgramInfo_t: ProgEndPos: 0x" (hex info.programInfo.progEndPos.toNat) ++
      ['\n', '\n'])]

/-- What is written for a record that was read in full.  The program writes nothing at all if the
record could not be read. -/
def dumpInfo (info : StreamInfo) : Except Fault (List Char) := writeLines (infoLines info)

/-! ### The index -/

/-- What the program takes from its platform: the widths of `size_t` and `off_t`, and where
`PacketPosition` is aligned to. -/
structure Abi where
  sizeWidth : ℕ
  offWidth : ℕ
  posOffset : ℕ
  int_le_size : 32 ≤ sizeWidth
  int_le_off : 32 ≤ offWidth
  align : posOffset = 4 ∨ posOffset = 8

/-- `STDVMi_IndexInfo_t`, without `Tag` and `Data`, which the dump does not print. -/
structure IndexInfo where
  packetTimeInMs : BitVec 32
  packetPosition : BitVec 64
  size : BitVec 16
deriving DecidableEq

/-- The value of bytes in little-endian order, which is taken to be the order of the platform. -/
def littleEndian (bytes : List Byte) : ℕ := bytes.foldr (fun b n => b.toNat + 256 * n) 0

/-- Truncation to `int`: the number in its range that is the same modulo `2 ^ 32`. -/
def toInt32 (n : ℤ) : ℤ := (BitVec.ofInt 32 n).toInt

namespace Abi

/-- `sizeof (STDVMi_IndexInfo_t)`: the position, eight bytes in front of it at most, and eight
behind it. -/
def recordSize (abi : Abi) : ℕ := abi.posOffset + 16

/-- The record in these bytes, at the offsets that the structure has on this platform. -/
def decode (abi : Abi) (bytes : List Byte) : IndexInfo where
  packetTimeInMs := .ofNat 32 (littleEndian (readAt bytes 0 4))
  packetPosition := .ofNat 64 (littleEndian (readAt bytes abi.posOffset 8))
  size := .ofNat 16 (littleEndian (readAt bytes (abi.posOffset + 10) 2))

/-- The `k`-th record in these bytes, which are those of the buffer or of a file. -/
def record (abi : Abi) (bytes : List Byte) (k : ℕ) : IndexInfo :=
  abi.decode (readAt bytes (k * abi.recordSize) abi.recordSize)

/-- `n / sizeof (STDVMi_IndexInfo_t)` for an `int`: the division is of a `size_t`, so -1 becomes the
largest of them. -/
def records (abi : Abi) (n : ℤ) : ℕ := (n % 2 ^ abi.sizeWidth).toNat / abi.recordSize

/-- `IndexCnt`, of what `lseek` returns: a division of an `off_t`, or of a `size_t` if that is as
wide, whose result goes into an `int`. -/
def indexCnt (abi : Abi) (pos : ℤ) : ℤ :=
  if abi.sizeWidth < abi.offWidth then toInt32 (pos.tdiv abi.recordSize)
  else toInt32 ((pos % 2 ^ abi.sizeWidth).toNat / abi.recordSize : ℕ)

/-- What is asked of `read`: the bytes of `READ_IDX_CHUNK` records, which is what the buffer has
room for. -/
def chunkSize (abi : Abi) : ℕ := READ_IDX_CHUNK * abi.recordSize

end Abi

/-- A line of the index: four numbers with their widths, three decimal ones and one that is
hexadecimal. -/
def formatIndex (i time size : ℤ) (pos : ℕ) : List Char :=
  "Index(".toList ++ padLeft 8 (dec i) ++ "): PacketTimeInMs: ".toList ++ padLeft 8 (dec time) ++
    "   Size: ".toList ++ padLeft 8 (dec size) ++ "  PacketPosition: 0x".toList ++
    padLeft 16 (hex pos) ++ ['\n']

/-- The line for `STDVM_Index[i]`.  The time is printed by `%d`, and the position as it is. -/
def indexLine (i : ℕ) (r : IndexInfo) : List Char :=
  formatIndex i r.packetTimeInMs.toInt r.size.toNat r.packetPosition.toNat

/-- `STDVM_Index[i]`, an array of `READ_IDX_CHUNK` records: behind the last of them is nothing that
may be read. -/
def indexAt (abi : Abi) (buffer : List Byte) (i : ℕ) : Except Fault IndexInfo :=
  if i < READ_IDX_CHUNK then .ok (abi.record buffer i) else .error (.outOfBounds i)

/-- The inner loop, with the passes still to go: as many as the division has said, whether the
buffer has them or not. -/
def dumpChunk (abi : Abi) (buffer : List Byte) : ℕ → ℕ → Except Fault (List Char)
  | 0, _ => .ok []
  | count + 1, i => do
      let r ← indexAt abi buffer i
      let str ← sprintf (indexLine i r)
      return str ++ (← dumpChunk abi buffer count (i + 1))

/-- `IndexRead`, an `int`, and what has been written: all that a pass of the outer loop leaves to
the next. -/
structure DumpState where
  indexRead : ℤ
  out : List Char
deriving DecidableEq

/-- `STDVM_Index` after `memset`, as every pass begins with: what a short read leaves is zero. -/
def Abi.zeroed (abi : Abi) : List Byte := List.replicate abi.chunkSize 0

/-- What `read` returns: the number of bytes it delivers, or -1 if it fails, which the program does
not test. -/
def bytesRead : Option (List Byte) → ℤ
  | some bytes => bytes.length
  | none => -1

/-- The body of the outer loop: the buffer is cleared, filled by `read`, and listed. -/
def dumpPass (abi : Abi) (read : Option (List Byte)) (s : DumpState) : Except Fault DumpState := do
  let buffer := overwrite abi.zeroed (read.getD [])
  let indexRead := toInt32 (s.indexRead + abi.records (bytesRead read))
  let text ← dumpChunk abi buffer (abi.records (bytesRead read)) 0
  return ⟨indexRead, s.out ++ text⟩

/-- Where the outer loop is: about to read, at its end, or lost, after which nothing is said of it
any more. -/
inductive Progress
  | running (s : DumpState)
  | exited (s : DumpState)
  | fault (f : Fault)
deriving DecidableEq

/-- The test of the outer loop, of two `int`s: it goes on as long as fewer records were read than
counted. -/
def whileTest (indexCnt : ℤ) (s : DumpState) : Progress :=
  if s.indexRead < indexCnt then .running s else .exited s

/-- The outer loop after `n` reads, the `i`-th of which returns `reads i`; `pos` is what
`lseek` returned. -/
def dumpIndex (abi : Abi) (pos : ℤ) (reads : ℕ → Option (List Byte)) : ℕ → Progress
  | 0 => whileTest (abi.indexCnt pos) ⟨0, []⟩
  | n + 1 =>
      match dumpIndex abi pos reads n with
      | .running s =>
          match dumpPass abi (reads n) s with
          | .ok s' => whileTest (abi.indexCnt pos) s'
          | .error f => .fault f
      | other => other

end LeipoCode.ParseIndex
