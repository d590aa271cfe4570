import LeipoCode.Lib.OpenFiles
import LeipoCode.Lib.RingBuffer

/-!
# The pipe device of `scull/pipe.c`

A circular buffer between the processes that have the device open, with a semaphore and two
wait queues.  The processes are the threads of `Lib.Threads`, and a step is one statement of
one of them, so that the tests made without the semaphore see every state in between.

* Pointers into the buffer are counted from its start; `end` is `last` here.  What `kmalloc`
  gives is a `Block`, with bytes that are not known.
* Several threads may work on one open file.  The file system counts their calls, and calls
  `scull_p_release` when the file is closed and none of them is left (`Lib.OpenFiles`).
* A signal may end any wait, and a copy from or to user space may fail: the statements say in
  their events what has happened.  What `scull_getwritespace` does about a signal is what
  `down_interruptible` does behind it.
* One device is modelled.  The asynchronous notification and the messages are left out.

### What is a step

Every assignment to a field of `struct scull_pipe` is a step of its own, also those under the
semaphore: `scull_p_open` sets `end`, `wp` and `rp` one after the other, and the condition of a
`wait_event_interruptible` or of `scull_p_poll` may be looked at in between.  A copy is one step,
which shows where in the buffer it was (`Event.copyOut`, `Event.copyIn`).

Of the wait, joining the queue, looking at the condition, sleeping and leaving the queue are steps.
A thread on a queue has `true` there; whoever wakes the queue makes it `false`, and a thread that
sleeps goes on when it is.
-/

namespace LeipoCode.Pipe

open OpenFiles RingBuffer

/-! ### Data -/

/-- What `kmalloc` has given: so many bytes, with something in them. -/
structure Block where
  size : ℕ
  cells : ℕ → UInt8

/-- What `scull_p_open` finds in the file: `f_mode & FMODE_READ`, `f_mode & FMODE_WRITE` and
`f_flags & O_NONBLOCK`. -/
structure Flags where
  read : Bool
  write : Bool
  nonblock : Bool
deriving DecidableEq, Repr

/-- `struct scull_pipe` without its queues.  `rp`, `wp` and `last` are pointers in the source,
counted from the start of the buffer here; a size that was set by `SCULL_P_IOCTSIZE` can be
negative, and then `last` is. -/
structure ScullPipe where
  buffer : Option Block
  last : ℤ
  buffersize : ℤ
  rp : ℕ
  wp : ℕ
  nreaders : ℤ
  nwriters : ℤ
  /-- The semaphore is free. -/
  sem : Bool

/-- What the threads share: the device with its two wait queues, the size that the next open takes
over, and the files. -/
structure Shared (ι φ : Type) where
  dev : ScullPipe
  inq : ι → Bool
  outq : ι → Bool
  scullPBuffer : ℤ
  files : Files ι φ Flags

/-- `SCULL_P_BUFFER`: the size of the buffer, until an ioctl sets another one. -/
def SCULL_P_BUFFER : ℤ := 4000

/-- Loaded, and not opened yet: `memset` has cleared the device, and the buffer is allocated by the
first open. -/
def Shared.initial {ι φ : Type} : Shared ι φ where
  dev := ⟨none, 0, 0, 0, 0, 0, 0, true⟩
  inq _ := false
  outq _ := false
  scullPBuffer := SCULL_P_BUFFER
  files _ := none

/-! ### Arithmetic -/

/-- An integer as a `size_t`, to which a negative one is very large. -/
def toSize (n : ℤ) : ℕ := (n % 2 ^ 64).toNat

/-- `spacefree`, in `int`s, and with a remainder that takes the sign of what is divided. -/
def spacefree (d : ScullPipe) : ℤ :=
  if d.rp = d.wp then d.buffersize - 1
  else ((d.rp : ℤ) + d.buffersize - d.wp).tmod d.buffersize - 1

/-- How many bytes `scull_p_read` returns: up to the write position, or to the end of the buffer if
that comes first. -/
def readCount (d : ScullPipe) (count : ℕ) : ℕ :=
  if d.rp < d.wp then min count (d.wp - d.rp) else min count (toSize (d.last - d.rp))

/-- How many bytes `scull_p_write` accepts: what is free, up to the end of the buffer or to one byte
before the read position. -/
def writeCount (d : ScullPipe) (count : ℕ) : ℕ :=
  if d.rp ≤ d.wp then min (min count (toSize (spacefree d))) (toSize (d.last - d.wp))
  else min (min count (toSize (spacefree d))) (toSize ((d.rp : ℤ) - d.wp - 1))

/-- The bytes `copy_to_user` finds from `p` on, inside of the block or behind it. -/
def ScullPipe.copyOut (d : ScullPipe) (p k : ℕ) : List UInt8 :=
  (d.buffer.map fun b => slice b.cells p k).getD []

/-- The device after `copy_from_user` has stored bytes from `p` on, and nothing else. -/
def ScullPipe.copyIn (d : ScullPipe) (p : ℕ) (bytes : List UInt8) : ScullPipe :=
  { d with buffer := d.buffer.map fun b => { b with cells := store b.cells p bytes } }

/-! ### Events and program points -/

/-- What goes wrong, by the names of the kernel.  A call returns one of these with a minus. -/
inductive Errno
  | EAGAIN
  | ERESTARTSYS
  | EFAULT
  | ENOMEM
deriving DecidableEq, Repr

/-- What a call returns: `scull_p_read` and `scull_p_poll` return what they say. -/
inductive Result
  | done
  | read (bytes : List UInt8)
  | wrote (count : ℕ)
  | poll (readable writable : Bool)
  | error (e : Errno)
deriving DecidableEq, Repr

/-- What a statement shows of itself: what is copied and from where, what goes in and out of the
queue, and when the buffer is set up anew. -/
inductive Event
  | silent
  /-- `copy_to_user` or `copy_from_user`, of so many bytes from a place in the buffer. -/
  | copyOut (p k : ℕ)
  | copyIn (p k : ℕ)
  /-- `rp` has moved over these bytes. -/
  | deliver (bytes : List UInt8)
  /-- `wp` has moved over these bytes. -/
  | accept (bytes : List UInt8)
  /-- `scull_p_open` begins to set up the buffer. -/
  | reset
  | ioctl (size : ℤ)
  | returned (r : Result)
deriving DecidableEq, Repr

/-- The program points, each before the statement it names, with the local variables that are still
needed. -/
inductive Pc (φ : Type)
  | idle
  -- `scull_p_open`
  | openDown (f : φ)
  | openBuffer (f : φ)
  | openNoMem (f : φ)
  | openSize (f : φ)
  | openEnd (f : φ)
  | openWp (f : φ)
  | openRp (f : φ)
  | openCount (f : φ)
  | openUp (f : φ)
  -- `scull_p_read`
  | readDown (f : φ) (count : ℕ)
  | readTest (f : φ) (count : ℕ)
  | readRelease (f : φ) (count : ℕ)
  | readBlock (f : φ) (count : ℕ)
  | readPrepare (f : φ) (count : ℕ)
  | readCheck (f : φ) (count : ℕ)
  | readSleep (f : φ) (count : ℕ)
  | readCopy (f : φ) (count : ℕ)
  | readFault (f : φ)
  | readAdvance (f : φ) (bytes : List UInt8)
  | readWrap (f : φ) (bytes : List UInt8)
  | readUp (f : φ) (bytes : List UInt8)
  | readWake (f : φ) (bytes : List UInt8)
  -- `scull_p_write` and `scull_getwritespace`
  | writeDown (f : φ) (data : List UInt8)
  | writeSpace (f : φ) (data : List UInt8)
  | writeRelease (f : φ) (data : List UInt8)
  | writeBlock (f : φ) (data : List UInt8)
  | writePrepare (f : φ) (data : List UInt8)
  | writeCheck (f : φ) (data : List UInt8)
  | writeSleep (f : φ) (data : List UInt8)
  | writeFinish (f : φ) (data : List UInt8)
  | writeCopy (f : φ) (data : List UInt8)
  | writeFault (f : φ)
  | writeAdvance (f : φ) (bytes : List UInt8)
  | writeWrap (f : φ) (count : ℕ)
  | writeUp (f : φ) (count : ℕ)
  | writeWake (f : φ) (count : ℕ)
  -- `scull_p_release`
  | releaseDown (f : φ)
  | releaseCount (f : φ)
  | releaseFree (f : φ)
  | releaseUp (f : φ)
  -- `scull_p_poll`
  | pollDown (f : φ)
  | pollTest (f : φ)
  | pollUp (f : φ) (readable writable : Bool)

/-! ### Statements -/

section Statements

variable {ι φ : Type} [DecidableEq ι] [DecidableEq φ]

/-- The semaphore taken or given back, and nothing else. -/
def Shared.setSem (s : Shared ι φ) (free : Bool) : Shared ι φ :=
  { s with dev := { s.dev with sem := free } }

/-- A file opened, or gone: its entry in the table. -/
def Shared.setFile (s : Shared ι φ) (f : φ) (file : Option (Entry ι Flags)) : Shared ι φ :=
  { s with files := Function.update s.files f file }

/-- A call on the file begins, so that it cannot be closed for good before the call returns. -/
def Shared.enter (s : Shared ι φ) (f : φ) : Shared ι φ := { s with files := s.files.enter f }

/-- A call on the file returns, and one less is under way on it. -/
def Shared.leave (s : Shared ι φ) (f : φ) : Shared ι φ := { s with files := s.files.leave f }

/-- The file gets to another stage between its open and its release. -/
def Shared.setStage (s : Shared ι φ) (f : φ) (stage : Stage ι) : Shared ι φ :=
  { s with files := s.files.setStage f stage }

/-- `scull_p_open`.  It allocates a buffer when there is none, and sets up the positions at every
open, whoever has the pipe open already. -/
inductive OpenStep (t : ι) : Shared ι φ → Pc φ → Event → Shared ι φ → Pc φ → Prop
  | call {s : Shared ι φ} {f : φ} {flags : Flags} :
      s.files f = none →
      OpenStep t s .idle .silent (s.setFile f (some ⟨flags, .opening t, 0⟩)) (.openDown f)
  | interrupted {s : Shared ι φ} {f : φ} :
      OpenStep t s (.openDown f) (.returned (.error .ERESTARTSYS)) (s.setFile f none) .idle
  | down {s : Shared ι φ} {f : φ} :
      s.dev.sem = true → OpenStep t s (.openDown f) .silent (s.setSem false) (.openBuffer f)
  | present {s : Shared ι φ} {f : φ} {b : Block} :
      s.dev.buffer = some b → OpenStep t s (.openBuffer f) .silent s (.openSize f)
  | kmalloc {s : Shared ι φ} {f : φ} {b : Block} :
      s.dev.buffer = none → (b.size : ℤ) = s.scullPBuffer →
      OpenStep t s (.openBuffer f) .silent
        { s with dev := { s.dev with buffer := some b } } (.openSize f)
  | noMem {s : Shared ι φ} {f : φ} :
      s.dev.buffer = none → OpenStep t s (.openBuffer f) .silent s (.openNoMem f)
  | noMemUp {s : Shared ι φ} {f : φ} :
      OpenStep t s (.openNoMem f) (.returned (.error .ENOMEM))
        ((s.setSem true).setFile f none) .idle
  | size {s : Shared ι φ} {f : φ} :
      OpenStep t s (.openSize f) .reset
        { s with dev := { s.dev with buffersize := s.scullPBuffer } } (.openEnd f)
  | last {s : Shared ι φ} {f : φ} :
      OpenStep t s (.openEnd f) .silent
        { s with dev := { s.dev with last := s.dev.buffersize } } (.openWp f)
  | wp {s : Shared ι φ} {f : φ} :
      OpenStep t s (.openWp f) .silent { s with dev := { s.dev with wp := 0 } } (.openRp f)
  | rp {s : Shared ι φ} {f : φ} :
      OpenStep t s (.openRp f) .silent { s with dev := { s.dev with rp := 0 } } (.openCount f)
  | count {s : Shared ι φ} {f : φ} :
      OpenStep t s (.openCount f) .silent
        ({ s with dev := { s.dev with
            nreaders := s.dev.nreaders + (s.files.has f Flags.read).toNat
            nwriters := s.dev.nwriters + (s.files.has f Flags.write).toNat } }.setStage f
          (.counted t)) (.openUp f)
  | up {s : Shared ι φ} {f : φ} :
      OpenStep t s (.openUp f) (.returned .done) ((s.setSem true).setStage f .ready) .idle

/-- `scull_p_read`.  It gives the semaphore back before it waits, and wakes the writers after it has
given it back at the end. -/
inductive ReadStep (t : ι) : Shared ι φ → Pc φ → Event → Shared ι φ → Pc φ → Prop
  | call {s : Shared ι φ} {f : φ} {file : Entry ι Flags} {count : ℕ} :
      s.files f = some file → file.stage = .ready → file.attr.read = true →
      ReadStep t s .idle .silent (s.enter f) (.readDown f count)
  | interrupted {s : Shared ι φ} {f : φ} {count : ℕ} :
      ReadStep t s (.readDown f count) (.returned (.error .ERESTARTSYS)) (s.leave f) .idle
  | down {s : Shared ι φ} {f : φ} {count : ℕ} :
      s.dev.sem = true →
      ReadStep t s (.readDown f count) .silent (s.setSem false) (.readTest f count)
  | empty {s : Shared ι φ} {f : φ} {count : ℕ} :
      s.dev.rp = s.dev.wp →
      ReadStep t s (.readTest f count) .silent s (.readRelease f count)
  | data {s : Shared ι φ} {f : φ} {count : ℕ} :
      s.dev.rp ≠ s.dev.wp → ReadStep t s (.readTest f count) .silent s (.readCopy f count)
  | release {s : Shared ι φ} {f : φ} {count : ℕ} :
      ReadStep t s (.readRelease f count) .silent (s.setSem true) (.readBlock f count)
  | again {s : Shared ι φ} {f : φ} {count : ℕ} :
      s.files.has f Flags.nonblock = true →
      ReadStep t s (.readBlock f count) (.returned (.error .EAGAIN)) (s.leave f) .idle
  | block {s : Shared ι φ} {f : φ} {count : ℕ} :
      s.files.has f Flags.nonblock = false →
      ReadStep t s (.readBlock f count) .silent s (.readPrepare f count)
  | prepare {s : Shared ι φ} {f : φ} {count : ℕ} :
      ReadStep t s (.readPrepare f count) .silent
        { s with inq := Function.update s.inq t true } (.readCheck f count)
  | checkTrue {s : Shared ι φ} {f : φ} {count : ℕ} :
      s.dev.rp ≠ s.dev.wp →
      ReadStep t s (.readCheck f count) .silent
        { s with inq := Function.update s.inq t false } (.readDown f count)
  | checkFalse {s : Shared ι φ} {f : φ} {count : ℕ} :
      s.dev.rp = s.dev.wp →
      ReadStep t s (.readCheck f count) .silent s (.readSleep f count)
  | awake {s : Shared ι φ} {f : φ} {count : ℕ} :
      s.inq t = false →
      ReadStep t s (.readSleep f count) .silent s (.readPrepare f count)
  | signalled {s : Shared ι φ} {f : φ} {count : ℕ} :
      -- the condition is looked at once more before the signal
      ReadStep t s (.readSleep f count) .silent s (.readPrepare f count)
  | signal {s : Shared ι φ} {f : φ} {count : ℕ} :
      ReadStep t s (.readSleep f count) (.returned (.error .ERESTARTSYS))
        ({ s with inq := Function.update s.inq t false }.leave f) .idle
  | copy {s : Shared ι φ} {f : φ} {count : ℕ} :
      ReadStep t s (.readCopy f count) (.copyOut s.dev.rp (readCount s.dev count)) s
        (.readAdvance f (s.dev.copyOut s.dev.rp (readCount s.dev count)))
  | fault {s : Shared ι φ} {f : φ} {count : ℕ} :
      ReadStep t s (.readCopy f count) (.copyOut s.dev.rp (readCount s.dev count)) s (.readFault f)
  | faultUp {s : Shared ι φ} {f : φ} :
      ReadStep t s (.readFault f) (.returned (.error .EFAULT)) ((s.setSem true).leave f) .idle
  | advance {s : Shared ι φ} {f : φ} {bytes : List UInt8} :
      ReadStep t s (.readAdvance f bytes) (.deliver bytes)
        { s with dev := { s.dev with rp := s.dev.rp + bytes.length } } (.readWrap f bytes)
  | wrap {s : Shared ι φ} {f : φ} {bytes : List UInt8} :
      ReadStep t s (.readWrap f bytes) .silent
        { s with dev := { s.dev with
            rp := if (s.dev.rp : ℤ) = s.dev.last then 0 else s.dev.rp } } (.readUp f bytes)
  | up {s : Shared ι φ} {f : φ} {bytes : List UInt8} :
      ReadStep t s (.readUp f bytes) .silent (s.setSem true) (.readWake f bytes)
  | wake {s : Shared ι φ} {f : φ} {bytes : List UInt8} :
      ReadStep t s (.readWake f bytes) (.returned (.read bytes))
        ({ s with outq := fun _ => false }.leave f) .idle

/-- `scull_p_write`, and `scull_getwritespace` in it, which is a loop around a wait that is written
out in the source. -/
inductive WriteStep (t : ι) : Shared ι φ → Pc φ → Event → Shared ι φ → Pc φ → Prop
  | call {s : Shared ι φ} {f : φ} {file : Entry ι Flags} {data : List UInt8} :
      s.files f = some file → file.stage = .ready → file.attr.write = true →
      WriteStep t s .idle .silent (s.enter f) (.writeDown f data)
  | interrupted {s : Shared ι φ} {f : φ} {data : List UInt8} :
      WriteStep t s (.writeDown f data) (.returned (.error .ERESTARTSYS)) (s.leave f) .idle
  | down {s : Shared ι φ} {f : φ} {data : List UInt8} :
      s.dev.sem = true →
      WriteStep t s (.writeDown f data) .silent (s.setSem false) (.writeSpace f data)
  | full {s : Shared ι φ} {f : φ} {data : List UInt8} :
      spacefree s.dev = 0 → WriteStep t s (.writeSpace f data) .silent s (.writeRelease f data)
  | space {s : Shared ι φ} {f : φ} {data : List UInt8} :
      spacefree s.dev ≠ 0 → WriteStep t s (.writeSpace f data) .silent s (.writeCopy f data)
  | release {s : Shared ι φ} {f : φ} {data : List UInt8} :
      WriteStep t s (.writeRelease f data) .silent (s.setSem true) (.writeBlock f data)
  | again {s : Shared ι φ} {f : φ} {data : List UInt8} :
      s.files.has f Flags.nonblock = true →
      WriteStep t s (.writeBlock f data) (.returned (.error .EAGAIN)) (s.leave f) .idle
  | block {s : Shared ι φ} {f : φ} {data : List UInt8} :
      s.files.has f Flags.nonblock = false →
      WriteStep t s (.writeBlock f data) .silent s (.writePrepare f data)
  | prepare {s : Shared ι φ} {f : φ} {data : List UInt8} :
      WriteStep t s (.writePrepare f data) .silent
        { s with outq := Function.update s.outq t true } (.writeCheck f data)
  | checkFalse {s : Shared ι φ} {f : φ} {data : List UInt8} :
      spacefree s.dev ≠ 0 → WriteStep t s (.writeCheck f data) .silent s (.writeFinish f data)
  | checkTrue {s : Shared ι φ} {f : φ} {data : List UInt8} :
      spacefree s.dev = 0 → WriteStep t s (.writeCheck f data) .silent s (.writeSleep f data)
  | awake {s : Shared ι φ} {f : φ} {data : List UInt8} :
      s.outq t = false → WriteStep t s (.writeSleep f data) .silent s (.writeFinish f data)
  | signal {s : Shared ι φ} {f : φ} {data : List UInt8} :
      WriteStep t s (.writeSleep f data) .silent s (.writeFinish f data)
  | finish {s : Shared ι φ} {f : φ} {data : List UInt8} :
      WriteStep t s (.writeFinish f data) .silent
        { s with outq := Function.update s.outq t false } (.writeDown f data)
  | copy {s : Shared ι φ} {f : φ} {data : List UInt8} :
      WriteStep t s (.writeCopy f data) (.copyIn s.dev.wp (writeCount s.dev data.length))
        { s with dev := s.dev.copyIn s.dev.wp (data.take (writeCount s.dev data.length)) }
        (.writeAdvance f (data.take (writeCount s.dev data.length)))
  | fault {s : Shared ι φ} {f : φ} {data : List UInt8} {k : ℕ} :
      -- a part of the bytes has been copied
      k < writeCount s.dev data.length →
      WriteStep t s (.writeCopy f data) (.copyIn s.dev.wp (writeCount s.dev data.length))
        { s with dev := s.dev.copyIn s.dev.wp (data.take k) } (.writeFault f)
  | faultUp {s : Shared ι φ} {f : φ} :
      WriteStep t s (.writeFault f) (.returned (.error .EFAULT)) ((s.setSem true).leave f) .idle
  | advance {s : Shared ι φ} {f : φ} {bytes : List UInt8} :
      WriteStep t s (.writeAdvance f bytes) (.accept bytes)
        { s with dev := { s.dev with wp := s.dev.wp + bytes.length } } (.writeWrap f bytes.length)
  | wrap {s : Shared ι φ} {f : φ} {count : ℕ} :
      WriteStep t s (.writeWrap f count) .silent
        { s with dev := { s.dev with
            wp := if (s.dev.wp : ℤ) = s.dev.last then 0 else s.dev.wp } } (.writeUp f count)
  | up {s : Shared ι φ} {f : φ} {count : ℕ} :
      WriteStep t s (.writeUp f count) .silent (s.setSem true) (.writeWake f count)
  | wake {s : Shared ι φ} {f : φ} {count : ℕ} :
      WriteStep t s (.writeWake f count) (.returned (.wrote count))
        ({ s with inq := fun _ => false }.leave f) .idle

/-- `scull_p_release`, called when the file is closed and no call is left on it: the last one frees
the buffer. -/
inductive ReleaseStep (t : ι) : Shared ι φ → Pc φ → Event → Shared ι φ → Pc φ → Prop
  | call {s : Shared ι φ} {f : φ} {file : Entry ι Flags} :
      s.files f = some file → file.stage = .ready → file.calls = 0 →
      ReleaseStep t s .idle .silent (s.setStage f (.closing t)) (.releaseDown f)
  | down {s : Shared ι φ} {f : φ} :
      s.dev.sem = true →
      ReleaseStep t s (.releaseDown f) .silent (s.setSem false) (.releaseCount f)
  | count {s : Shared ι φ} {f : φ} :
      ReleaseStep t s (.releaseCount f) .silent
        ({ s with dev := { s.dev with
            nreaders := s.dev.nreaders - (s.files.has f Flags.read).toNat
            nwriters := s.dev.nwriters - (s.files.has f Flags.write).toNat } }.setStage f
          (.uncounted t)) (.releaseFree f)
  | kfree {s : Shared ι φ} {f : φ} :
      s.dev.nreaders + s.dev.nwriters = 0 →
      ReleaseStep t s (.releaseFree f) .silent
        { s with dev := { s.dev with buffer := none } } (.releaseUp f)
  | keep {s : Shared ι φ} {f : φ} :
      s.dev.nreaders + s.dev.nwriters ≠ 0 →
      ReleaseStep t s (.releaseFree f) .silent s (.releaseUp f)
  | up {s : Shared ι φ} {f : φ} :
      ReleaseStep t s (.releaseUp f) (.returned .done) ((s.setSem true).setFile f none) .idle

/-- `scull_p_poll`: it looks at the positions under the semaphore.  What it does about the wait
queues is the kernel's `poll_wait`, and does not make it sleep. -/
inductive PollStep (t : ι) : Shared ι φ → Pc φ → Event → Shared ι φ → Pc φ → Prop
  | call {s : Shared ι φ} {f : φ} {file : Entry ι Flags} :
      s.files f = some file → file.stage = .ready →
      PollStep t s .idle .silent (s.enter f) (.pollDown f)
  | down {s : Shared ι φ} {f : φ} :
      s.dev.sem = true → PollStep t s (.pollDown f) .silent (s.setSem false) (.pollTest f)
  | test {s : Shared ι φ} {f : φ} :
      PollStep t s (.pollTest f) .silent s
        (.pollUp f (s.dev.rp != s.dev.wp) (spacefree s.dev != 0))
  | up {s : Shared ι φ} {f : φ} {readable writable : Bool} :
      PollStep t s (.pollUp f readable writable) (.returned (.poll readable writable))
        ((s.setSem true).leave f) .idle

/-- A statement of a thread; `SCULL_P_IOCTSIZE` sets the size for later opens, and takes no
semaphore. -/
inductive Step (t : ι) : Shared ι φ → Pc φ → Event → Shared ι φ → Pc φ → Prop
  | open_ {s s' : Shared ι φ} {k k' : Pc φ} {e : Event} :
      OpenStep t s k e s' k' → Step t s k e s' k'
  | read {s s' : Shared ι φ} {k k' : Pc φ} {e : Event} :
      ReadStep t s k e s' k' → Step t s k e s' k'
  | write {s s' : Shared ι φ} {k k' : Pc φ} {e : Event} :
      WriteStep t s k e s' k' → Step t s k e s' k'
  | release {s s' : Shared ι φ} {k k' : Pc φ} {e : Event} :
      ReleaseStep t s k e s' k' → Step t s k e s' k'
  | poll {s s' : Shared ι φ} {k k' : Pc φ} {e : Event} :
      PollStep t s k e s' k' → Step t s k e s' k'
  | ioctl {s : Shared ι φ} {size : ℤ} :
      Step t s .idle (.ioctl size) { s with scullPBuffer := size } .idle

/-- The device, and all that use it: any number of threads and files, in any interleaving. -/
def pipe (ι φ : Type) [DecidableEq ι] [DecidableEq φ] : Threads ι (Shared ι φ) (Pc φ) Event where
  init s := s = .initial
  start := .idle
  step := Step

end Statements

end LeipoCode.Pipe
