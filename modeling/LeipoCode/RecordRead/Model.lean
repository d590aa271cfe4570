import LeipoCode.Lib.ByteFile
import LeipoCode.Lib.LTS
import Mathlib.Algebra.Ring.Int.Defs

/-!
# The recording and the reading task of `example/example_Task.c`

`Record_Task` writes a byte pattern to a file through one descriptor while
`Read_Task` reads it back through another, both inside sections of the semaphore
`File_Access`.  The two are processes with explicit program points, and a step is
one statement of one of them, so a run is an interleaving of the two at the grain
of statements.

* What `write` returns is a parameter of the step that calls it; `read` returns what
  the file has behind the offset, up to the size asked for.
* `TotalSize` is an `unsigned int` in both tasks, hence a `BitVec 32`;
  `actual_file_size` is a `long long` shared between them, hence an integer.
* The clock, `printf`, `usleep` and `free` are left out.

### What is a step

Each statement that reads or writes what the tasks share is a step: the semaphore, the file,
`actual_file_size`.  `sem_wait` is enabled while the value is positive, so a task that waits has no
step; that the other one posts sooner or later is not assumed of it, and nothing below says that a
task makes progress.  Tests of local variables are steps too, so that a task can be stopped between
a test and what it decides.  The two additions behind a `write` are one step, both being made in the
section, and so is `seek_check`, whose reads and seeks leave no more than an offset.

The two tasks use two descriptors of one file: each has its own offset, and the length of the file
is what both see.
-/

namespace LeipoCode.RecordRead

open ByteFile

/-! ### Constants -/

/-- `FILE_SIZE`, a `long long`: from this length on both tasks take the file for complete. -/
def FILE_SIZE : ℤ := 1 * 1024 * 1024 * 1024

/-- `RECORD_BUF_SIZE`: what one `write` is asked for, a number of whole patterns of 188 bytes. -/
def RECORD_BUF_SIZE : ℕ := 188 * 6 * 1024

/-- `READ_BUF_SIZE`: what one `read` is asked for, half of what a `write` is. -/
def READ_BUF_SIZE : ℕ := 188 * 3 * 1024

/-- The `unsigned char` that `i%188` is stored as, which is that number, since it is less than 256.
-/
def patternByte (i : ℕ) : UInt8 := UInt8.ofNat (i % 188)

/-- The buffer of `Record_Task`, filled before its loop and not changed after. -/
def recordBuf : List UInt8 := (List.range RECORD_BUF_SIZE).map patternByte

/-- `check_buff`: every byte is its index modulo 188. -/
def checkBuff (buf : List UInt8) : Bool :=
  buf.getD 0 0 == 0 && buf.getD 1 0 == 1 && buf.getD 2 0 == 2 &&
    buf.getD (READ_BUF_SIZE - 2) 0 == patternByte (READ_BUF_SIZE - 2) &&
    buf.getD (READ_BUF_SIZE - 1) 0 == patternByte (READ_BUF_SIZE - 1)

/-! ### States -/

/-- The program points of `Record_Task`, each before the statement it names. -/
inductive RecordPc
  /-- `MutexLock(File_Access)`. -/
  | lock
  /-- `BytesWritten = write(...)`. -/
  | write
  /-- The two additions of `BytesWritten`. -/
  | account (bytesWritten : ℤ)
  /-- `if (TotalSize >= FILE_SIZE)`. -/
  | test
  /-- The release on the way out, completion reported. -/
  | complete
  /-- The release at the end of the loop body. -/
  | release
  /-- The task has returned. -/
  | returned
deriving DecidableEq, Repr

/-- How `Read_Task` leaves its loop: the read was short, the data were wrong, or all was read. -/
inductive ReadExit
  | notRead
  | dataError
  | complete
deriving DecidableEq, Repr

/-- The program points of `Read_Task`, each before the statement it names. -/
inductive ReadPc
  /-- `MutexLock(File_Access)`. -/
  | lock
  /-- `BytesRead = read(...)`. -/
  | read
  /-- `if (BytesRead != READ_BUF_SIZE)`. -/
  | testRead (bytesRead : ℤ)
  /-- `if (!check_buff(buf))`. -/
  | check (bytesRead : ℤ)
  /-- `TotalSize += BytesRead`. -/
  | account (bytesRead : ℤ)
  /-- The test for completion. -/
  | test
  /-- The release on one of the three ways out, its message printed. -/
  | leave (exit : ReadExit)
  /-- The release at the end of the loop body. -/
  | release
  /-- `seek_check()`, after completion and outside the section. -/
  | seekCheck
  /-- The task has returned. -/
  | returned (exit : ReadExit)
deriving DecidableEq, Repr

/-- Where `Read_Task` is after the release on a way out: only completion has
something left to do. -/
def ReadExit.next : ReadExit → ReadPc
  | .complete => .seekCheck
  | exit => .returned exit

structure RecordTask where
  pc : RecordPc
  totalSize : BitVec 32
deriving DecidableEq

structure ReadTask where
  pc : ReadPc
  totalSize : BitVec 32
  buf : List UInt8
deriving DecidableEq

/-- The shared variables, the file with the offsets of its two descriptors, and the
two tasks. -/
structure State where
  file : List UInt8
  wtOff : ℕ
  rdOff : ℤ
  actualFileSize : ℤ
  fileAccess : ℕ
  recorder : RecordTask
  reader : ReadTask
deriving DecidableEq

/-- The file is empty and both tasks are about to enter their loops.  What is in the buffer of
`Read_Task` then does not matter. -/
def initial : State where
  file := []
  wtOff := 0
  rdOff := 0
  actualFileSize := 0
  fileAccess := 1
  recorder := ⟨.lock, 0⟩
  reader := ⟨.lock, 0, List.replicate READ_BUF_SIZE 0⟩

/-! ### Steps -/

/-- What a step shows of itself: what is done to the semaphore, and what the calls return. -/
inductive Event
  | wait
  | post
  | write (result : ℤ)
  | read (result : ℤ)
  | check (accepted : Bool)
  | silent
deriving DecidableEq, Repr

inductive Task
  | record
  | read
deriving DecidableEq, Repr

/-- `sem_wait(File_Access)`, which blocks at zero: there is no step then, until the other task has
posted. -/
def semWait (s : State) : Option State :=
  if 0 < s.fileAccess then some { s with fileAccess := s.fileAccess - 1 } else none

/-- `sem_post(File_Access)`, which is always possible; that it comes behind a wait is for the tasks
to see to. -/
def semPost (s : State) : State := { s with fileAccess := s.fileAccess + 1 }

def State.setRecordPc (s : State) (pc : RecordPc) : State :=
  { s with recorder := { s.recorder with pc := pc } }

def State.setReadPc (s : State) (pc : ReadPc) : State :=
  { s with reader := { s.reader with pc := pc } }

/-- One statement of `Record_Task`, in which `write` returns `result`, if it is at its `write`.  A
`write` that fails or is short is followed by the same additions as any other. -/
def recordStep (result : ℤ) (s : State) : Option (Event × State) :=
  match s.recorder.pc with
  | .lock => (semWait s).map fun s => (.wait, s.setRecordPc .write)
  | .write =>
      some (.write result,
        { s with
          file := writeAt 0 s.file s.wtOff (recordBuf.take result.toNat)
          wtOff := s.wtOff + result.toNat
          recorder := { s.recorder with pc := .account result } })
  | .account bytesWritten =>
      some (.silent,
        { s with
          actualFileSize := s.actualFileSize + bytesWritten
          recorder :=
            { pc := .test, totalSize := s.recorder.totalSize + BitVec.ofInt 32 bytesWritten } })
  | .test =>
      some (.silent, s.setRecordPc
        (if FILE_SIZE ≤ s.recorder.totalSize.toNat then .complete else .release))
  | .complete => some (.post, (semPost s).setRecordPc .returned)
  | .release => some (.post, (semPost s).setRecordPc .lock)
  | .returned => none

/-- The offsets `seek_check` seeks to from the start of the file, in order, each rounded down to a
multiple of 188. -/
def seekPositions : List ℤ :=
  [0x4FFFFFFF, 0x7FFFFFFF, 0x80000000, 0x1 * 2 ^ 32 + 0x7FFFFFFF, 0x7FFFFFFF * 2,
    0x80000011 * 2].map fun pos => pos / 188 * 188

/-- The read offset `seek_check` leaves, on a file of `len` bytes: each of its reads
moves it on, and a last seek relative to the end fails if it would go below zero. -/
def seekCheckOff (len rdOff : ℤ) : ℤ :=
  let off := seekPositions.foldl
    (fun _ pos => pos + max 0 (min (RECORD_BUF_SIZE : ℤ) (len - pos))) rdOff
  let last := len + (-2 * RECORD_BUF_SIZE : ℤ).tdiv 188 * 188
  if 0 ≤ last then last else off

/-- One statement of `Read_Task`.  What `read` returns is determined by the file and the offset. -/
def readStep (s : State) : Option (Event × State) :=
  match s.reader.pc with
  | .lock => (semWait s).map fun s => (.wait, s.setReadPc .read)
  | .read =>
      let bytes := readAt s.file s.rdOff.toNat READ_BUF_SIZE
      some (.read bytes.length,
        { s with
          rdOff := s.rdOff + bytes.length
          reader :=
            { s.reader with
              pc := .testRead bytes.length
              buf := overwrite s.reader.buf bytes } })
  | .testRead bytesRead =>
      some (.silent, s.setReadPc
        (if bytesRead ≠ READ_BUF_SIZE then .leave .notRead else .check bytesRead))
  | .check bytesRead =>
      some (.check (checkBuff s.reader.buf), s.setReadPc
        (if !checkBuff s.reader.buf then .leave .dataError else .account bytesRead))
  | .account bytesRead =>
      some (.silent,
        { s with
          reader :=
            { s.reader with
              pc := .test
              totalSize := s.reader.totalSize + BitVec.ofInt 32 bytesRead } })
  | .test =>
      some (.silent, s.setReadPc
        (if FILE_SIZE ≤ s.reader.totalSize.toNat ∧
            s.actualFileSize ≤ s.reader.totalSize.toNat then .leave .complete else .release))
  | .leave exit => some (.post, (semPost s).setReadPc exit.next)
  | .release => some (.post, (semPost s).setReadPc .lock)
  | .seekCheck =>
      some (.silent,
        { s with
          rdOff := seekCheckOff s.file.length s.rdOff
          reader := { s.reader with pc := .returned .complete } })
  | .returned _ => none

/-- What `write` may return to the loop: -1, or a count up to the one asked for. -/
def WriteResult (result : ℤ) : Prop :=
  result = -1 ∨ (0 ≤ result ∧ result ≤ RECORD_BUF_SIZE)

/-- The two tasks, interleaved.  Either of them may be the one to make the next step, if it has one.
-/
def taskSys : LTS State (Task × Event) where
  init s := s = initial
  step s l s' :=
    match l.1 with
    | .record => ∃ result, WriteResult result ∧ recordStep result s = some (l.2, s')
    | .read => readStep s = some (l.2, s')

/-- The runs in which every `write` is complete: a condition on what `write` returns, a step at a
time. -/
def completeWrites : State → Task × Event → Prop :=
  fun _ l => ∀ result, l.2 = .write result → result = RECORD_BUF_SIZE

/-- `Read_Task` has reported completion. -/
def ReadPc.reportedCompletion : ReadPc → Bool
  | .leave .complete | .seekCheck | .returned .complete => true
  | _ => false

/-- The program points at which `Record_Task` holds the semaphore. -/
def RecordPc.inSection : RecordPc → Bool
  | .lock | .returned => false
  | _ => true

/-- The program points at which `Read_Task` holds the semaphore. -/
def ReadPc.inSection : ReadPc → Bool
  | .lock | .seekCheck | .returned _ => false
  | _ => true

/-- Does the task hold the semaphore?  By its program point, not by the value of the semaphore. -/
def State.inSection (s : State) : Task → Bool
  | .record => s.recorder.pc.inSection
  | .read => s.reader.pc.inSection

end LeipoCode.RecordRead
