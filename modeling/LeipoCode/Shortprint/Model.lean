import LeipoCode.Short.Buffer

/-!
# The printer of `shortprint/shortprint.c`

Processes write into a page that is used in turn; a work function takes one byte at a time from it
and gives it to the printer.  An interrupt of the printer queues the work again, and so does a timer
when an interrupt was missed.  Each byte that is printed also leaves its time in a second page,
which processes read (`Short.Buffer`).  The threads of `Lib.Threads` are the processes, the thread
of the work queue, and the handlers; a step is one statement of one of them.

### The grain of the steps

* What lies between `spin_lock_irqsave` and `spin_unlock_irqrestore` in `shortp_write` and
  `shortp_timeout` is one step: others look at nothing of it without the lock.  In `shortp_do_work`
  it is not, for the head is moved without the lock.
* `shortp_out_space` reads the tail twice, and the work function may move it in between.  The two
  reads are two steps, and the first one leaves in the program point how the comparison came out.
* A wait is written out, as `prepare_to_wait`, the condition, `schedule` and `finish_wait`.  A
  signal may end any wait, and a copy from user space may fail after a part of it.

### What the kernel and the printer see to

`resting` is the work queue's: its one thread is in no work function.  The states of the printer are
left out, as far as they are not read: `shortp_wait` ends at some time, `shortp_timeout` finds the
printer busy or not, and interrupts come or get lost.
-/

namespace LeipoCode.Shortprint

open RingBuffer Short

/-! ### Data -/

/-- What the threads share: the page that is printed with its two positions, the locks, what the
kernel keeps of the timer and the work, the two wait queues, and the page of times with the time of
the last interrupt (`tv`). -/
structure Shared (ι : Type) where
  /-- `shortp_out_buffer`, `shortp_out_head`, `shortp_out_tail`. -/
  cells : ℕ → UInt8
  head : ℕ
  tail : ℕ
  /-- The semaphore and the spin lock are free. -/
  sem : Bool
  lock : Bool
  /-- `shortp_output_active`. -/
  active : Bool
  /-- The timer is pending, and the work is queued. -/
  timer : Bool
  work : Bool
  resting : Bool
  outq : ι → Bool
  emptyq : ι → Bool
  tv : Timeval
  input : Buffer ι

/-- `shortp_init`: both pages are empty, and nothing is under way. -/
def Shared.initial {ι : Type} (cells incells : ℕ → UInt8) : Shared ι where
  cells := cells
  head := 0
  tail := 0
  sem := true
  lock := true
  active := false
  timer := false
  work := false
  resting := true
  outq _ := false
  emptyq _ := false
  tv := .zero
  input := .initial incells

/-- Writers are woken when more than half of the page is free, so that they do not come for each
byte. -/
def SP_MIN_SPACE : ℕ := PAGE_SIZE / 2

/-- `shortp_out_space`, when `head >= tail` was `ge`: how many bytes can be copied behind the head
in one piece.  One byte of the page stays free, which is the one before the tail. -/
def outSpace (ge : Bool) (head tail : ℕ) : ℤ :=
  if ge then if tail = 0 then (PAGE_SIZE : ℤ) - head - 1 else PAGE_SIZE - head
  else (tail : ℤ) - head - 1

/-- `shortp_incr_out_bp`: a position goes on by `incr`, round the page.  Unlike the one of the input
page it keeps what is over. -/
def incrOutBp (bp incr : ℕ) : ℕ :=
  if PAGE_SIZE ≤ bp + incr then bp + incr - PAGE_SIZE else bp + incr

/-- What `shortp_do_work` compares with `SP_MIN_SPACE`: one more than what is free in the page, and
0 if the page is empty. -/
def freeSpace (head tail : ℕ) : ℕ := (PAGE_SIZE + tail - head) % PAGE_SIZE

/-! ### Events and program points -/

/-- A call of `shortp_write` up to here: what it is to write, and how much of it is in the
buffer. -/
structure Call where
  data : List UInt8
  written : ℕ
deriving DecidableEq, Repr

/-- What is left to write of the bytes the call was given. -/
def Call.rest (c : Call) : List UInt8 := c.data.drop c.written

/-- What is in the buffer of it, or was, and is printed by now. -/
def Call.taken (c : Call) : List UInt8 := c.data.take c.written

/-- What a statement shows of itself.  A call of `shortp_write` ends in one of three ways, and the
events tell them apart: it returns how much it has written, it returns `-EFAULT` though it may have
written something, or it was interrupted before it had the semaphore. -/
inductive Event
  | silent
  /-- `copy_from_user` of so many bytes to a place in the page. -/
  | copyIn (p k : ℕ)
  /-- The head has moved over these bytes. -/
  | accepted (bytes : List UInt8)
  /-- A byte is given to the printer, and the tail has moved over it. -/
  | printed (byte : UInt8)
  /-- `shortp_write` returns `c.written`. -/
  | wrote (c : Call)
  /-- It returns `-EFAULT`, and does not say that `c.written` bytes have gone before. -/
  | faulted (c : Call)
  | interrupted
  | reading
  | read (e : ReadEvent)
  /-- `sprintf` of a time to a place in the other page. -/
  | sprintf (p : ℕ) (tv : Timeval)
deriving DecidableEq, Repr

/-- Where `shortp_out_space` is called: at first, in the condition of the wait, and in the
condition once on the queue. -/
inductive Look
  | first
  | condition
  | queued
deriving DecidableEq, Repr

/-- The program points, each before the statement it names.  `shortp_do_write` and
`shortp_start_output` are called in one place each and stand there. -/
inductive Pc
  | idle
  -- `shortp_write`
  | writeDown (data : List UInt8)
  | writeTest (c : Call)
  | writeSpace (look : Look) (c : Call)
  | writeSpaceTail (look : Look) (ge : Bool) (c : Call)
  | writePrepare (c : Call)
  | writeSleep (c : Call)
  | writeFinish (space : ℕ) (c : Call)
  | writeInterrupted (c : Call)
  | writeCopy (space : ℕ) (c : Call)
  | writeFault (c : Call)
  | writeAdvance (space : ℕ) (c : Call)
  | writeStart (c : Call)
  | writeOut (c : Call)
  -- `shortp_do_work`
  | workWait
  | workLock
  | workTest
  | workInactive
  | workWakeEmpty
  | workDelTimer
  | workModTimer
  | workStrobe
  | workSpace
  | workUnlock
  | workSprintf
  | workAdvance (written : ℕ)
  | workWake
  | workEnd
  -- `shortp_interrupt`
  | irqTest
  | irqTime
  | irqQueue
  -- `shortp_timeout`
  | timeoutTest
  | timeoutLock
  -- `shortp_release`
  | closeTest
  | closePrepare
  | closeCheck
  | closeSleep
  | closeFinish
  -- `shortp_read`
  | read (k : ReadPc)
deriving DecidableEq, Repr

/-! ### Statements -/

section Statements

variable {ι : Type} [DecidableEq ι]

/-- What follows the two looks at the space.  At first and in the condition of the wait it is tested
whether there is any; on the queue it decides whether the process sleeps. -/
def Look.next (look : Look) (space : ℤ) (c : Call) : Pc :=
  match look with
  | .first => if space ≤ 0 then .writeSpace .condition c else .writeCopy space.toNat c
  | .condition => if 0 < space then .writeCopy space.toNat c else .writePrepare c
  | .queued => if 0 < space then .writeFinish space.toNat c else .writeSleep c

/-- `shortp_start_output`, if no output is active: it is marked active, the timer is set and the
work is queued. -/
def Shared.startOutput (s : Shared ι) : Shared ι :=
  if s.active then s else { s with active := true, timer := true, work := true }

/-- `shortp_write`, statement by statement.  It copies a chunk to the head, moves the head over it
and sees to it that output is active, as long as there is something left to write; it has the
semaphore all the time, and the spin lock only for `startOutput`. -/
inductive WriteStep (t : ι) : Shared ι → Pc → Event → Shared ι → Pc → Prop
  | call {s : Shared ι} {data : List UInt8} : WriteStep t s .idle .silent s (.writeDown data)
  | interrupted {s : Shared ι} {data : List UInt8} :
      WriteStep t s (.writeDown data) .interrupted s .idle
  | down {s : Shared ι} {data : List UInt8} :
      s.sem = true →
      WriteStep t s (.writeDown data) .silent { s with sem := false } (.writeTest ⟨data, 0⟩)
  | more {s : Shared ι} {c : Call} :
      c.written < c.data.length → WriteStep t s (.writeTest c) .silent s (.writeSpace .first c)
  | done {s : Shared ι} {c : Call} :
      c.data.length ≤ c.written → WriteStep t s (.writeTest c) .silent s (.writeOut c)
  | space {s : Shared ι} {look : Look} {c : Call} :
      WriteStep t s (.writeSpace look c) .silent s
        (.writeSpaceTail look (decide (s.tail ≤ s.head)) c)
  | spaceTail {s : Shared ι} {look : Look} {ge : Bool} {c : Call} :
      WriteStep t s (.writeSpaceTail look ge c) .silent s (look.next (outSpace ge s.head s.tail) c)
  | prepare {s : Shared ι} {c : Call} :
      WriteStep t s (.writePrepare c) .silent { s with outq := Function.update s.outq t true }
        (.writeSpace .queued c)
  | awake {s : Shared ι} {c : Call} :
      s.outq t = false → WriteStep t s (.writeSleep c) .silent s (.writePrepare c)
  | signalled {s : Shared ι} {c : Call} :
      -- the condition is looked at once more before the signal
      WriteStep t s (.writeSleep c) .silent s (.writePrepare c)
  | signal {s : Shared ι} {c : Call} : WriteStep t s (.writeSleep c) .silent s (.writeInterrupted c)
  | finish {s : Shared ι} {space : ℕ} {c : Call} :
      WriteStep t s (.writeFinish space c) .silent
        { s with outq := Function.update s.outq t false } (.writeCopy space c)
  | finishSignal {s : Shared ι} {c : Call} :
      WriteStep t s (.writeInterrupted c) .silent
        { s with outq := Function.update s.outq t false } (.writeOut c)
  | copy {s : Shared ι} {space : ℕ} {c : Call} :
      WriteStep t s (.writeCopy space c) (.copyIn s.head (min space c.rest.length))
        { s with cells := store s.cells s.head (c.rest.take space) }
        (.writeAdvance (min space c.rest.length) c)
  | fault {s : Shared ι} {space k : ℕ} {c : Call} :
      -- a part of the bytes has been copied
      k < min space c.rest.length →
      WriteStep t s (.writeCopy space c) (.copyIn s.head (min space c.rest.length))
        { s with cells := store s.cells s.head (c.rest.take k) } (.writeFault c)
  | faultUp {s : Shared ι} {c : Call} :
      WriteStep t s (.writeFault c) (.faulted c) { s with sem := true } .idle
  | advance {s : Shared ι} {space : ℕ} {c : Call} :
      WriteStep t s (.writeAdvance space c) (.accepted (c.rest.take space))
        { s with head := incrOutBp s.head space }
        (.writeStart { c with written := c.written + space })
  | start {s : Shared ι} {c : Call} :
      s.lock = true → WriteStep t s (.writeStart c) .silent s.startOutput (.writeTest c)
  | out {s : Shared ι} {c : Call} :
      WriteStep t s (.writeOut c) (.wrote c) { s with sem := true } .idle

/-- `shortp_do_work`, with `shortp_do_write` in it: if the page is empty output ends and those that
wait for it are woken, else a byte is given to the printer and the timer is set anew; then writers
are woken if there is space, and a time is printed to the other page. -/
inductive WorkStep : Shared ι → Pc → Event → Shared ι → Pc → Prop
  | call {s : Shared ι} :
      s.work = true → s.resting = true →
      WorkStep s .idle .silent { s with work := false, resting := false } .workWait
  | ready {s : Shared ι} : WorkStep s .workWait .silent s .workLock
  | lock {s : Shared ι} :
      s.lock = true → WorkStep s .workLock .silent { s with lock := false } .workTest
  | empty {s : Shared ι} : s.head = s.tail → WorkStep s .workTest .silent s .workInactive
  | byte {s : Shared ι} : s.head ≠ s.tail → WorkStep s .workTest .silent s .workModTimer
  | inactive {s : Shared ι} :
      WorkStep s .workInactive .silent { s with active := false } .workWakeEmpty
  | wakeEmpty {s : Shared ι} :
      WorkStep s .workWakeEmpty .silent { s with emptyq := fun _ => false } .workDelTimer
  | delTimer {s : Shared ι} :
      WorkStep s .workDelTimer .silent { s with timer := false } .workSpace
  | modTimer {s : Shared ι} :
      WorkStep s .workModTimer .silent { s with timer := true } .workStrobe
  | strobe {s : Shared ι} :
      WorkStep s .workStrobe (.printed (s.cells s.tail)) { s with tail := incrOutBp s.tail 1 }
        .workSpace
  | wakeOut {s : Shared ι} :
      SP_MIN_SPACE < freeSpace s.head s.tail →
      WorkStep s .workSpace .silent { s with outq := fun _ => false } .workUnlock
  | noSpace {s : Shared ι} :
      freeSpace s.head s.tail ≤ SP_MIN_SPACE → WorkStep s .workSpace .silent s .workUnlock
  | unlock {s : Shared ι} : WorkStep s .workUnlock .silent { s with lock := true } .workSprintf
  | sprintf {s : Shared ι} :
      WorkStep s .workSprintf (.sprintf s.input.head s.tv)
        { s with input := s.input.sprintf (stamp s.tv) } (.workAdvance (stamp s.tv).length)
  | advance {s : Shared ι} {written : ℕ} :
      WorkStep s (.workAdvance written) .silent
        { s with input := s.input.advance written } .workWake
  | wake {s : Shared ι} :
      WorkStep s .workWake .silent { s with input := s.input.wake } .workEnd
  | done {s : Shared ι} : WorkStep s .workEnd .silent { s with resting := true } .idle

/-- `shortp_interrupt` and `shortp_timeout`.  Both look at `shortp_output_active` without the lock
and do nothing if it is false.  An interrupt queues the work; the timeout sets the timer again if
the printer is busy, and otherwise does what the missed interrupt would have done. -/
inductive HandlerStep : Shared ι → Pc → Event → Shared ι → Pc → Prop
  | irq {s : Shared ι} : HandlerStep s .idle .silent s .irqTest
  | irqNone {s : Shared ι} : s.active = false → HandlerStep s .irqTest .silent s .idle
  | irqActive {s : Shared ι} : s.active = true → HandlerStep s .irqTest .silent s .irqTime
  | irqTime {s : Shared ι} {tv : Timeval} :
      HandlerStep s .irqTime .silent { s with tv := tv } .irqQueue
  | irqQueue {s : Shared ι} : HandlerStep s .irqQueue .silent { s with work := true } .idle
  | timeout {s : Shared ι} :
      s.timer = true → HandlerStep s .idle .silent { s with timer := false } .timeoutTest
  | timeoutNone {s : Shared ι} : s.active = false → HandlerStep s .timeoutTest .silent s .idle
  | timeoutActive {s : Shared ι} :
      s.active = true → HandlerStep s .timeoutTest .silent s .timeoutLock
  | busy {s : Shared ι} :
      s.lock = true → HandlerStep s .timeoutLock .silent { s with timer := true } .idle
  | missed {s : Shared ι} : s.lock = true → HandlerStep s .timeoutLock .silent s .irqTest

/-- `shortp_release`: it waits until no output is active, and gives up at a signal. -/
inductive CloseStep (t : ι) : Shared ι → Pc → Event → Shared ι → Pc → Prop
  | call {s : Shared ι} : CloseStep t s .idle .silent s .closeTest
  | quiet {s : Shared ι} : s.active = false → CloseStep t s .closeTest .silent s .idle
  | wait {s : Shared ι} : s.active = true → CloseStep t s .closeTest .silent s .closePrepare
  | prepare {s : Shared ι} :
      CloseStep t s .closePrepare .silent { s with emptyq := Function.update s.emptyq t true }
        .closeCheck
  | checkTrue {s : Shared ι} : s.active = false → CloseStep t s .closeCheck .silent s .closeFinish
  | checkFalse {s : Shared ι} : s.active = true → CloseStep t s .closeCheck .silent s .closeSleep
  | awake {s : Shared ι} : s.emptyq t = false → CloseStep t s .closeSleep .silent s .closePrepare
  | signalled {s : Shared ι} : CloseStep t s .closeSleep .silent s .closePrepare
  | signal {s : Shared ι} : CloseStep t s .closeSleep .silent s .closeFinish
  | finish {s : Shared ι} :
      CloseStep t s .closeFinish .silent { s with emptyq := Function.update s.emptyq t false } .idle

/-- A statement of a thread: it writes, is the work function or a handler, closes the device, or
reads times. -/
inductive Step (t : ι) : Shared ι → Pc → Event → Shared ι → Pc → Prop
  | write {s s' : Shared ι} {k k' : Pc} {e : Event} : WriteStep t s k e s' k' → Step t s k e s' k'
  | work {s s' : Shared ι} {k k' : Pc} {e : Event} : WorkStep s k e s' k' → Step t s k e s' k'
  | handler {s s' : Shared ι} {k k' : Pc} {e : Event} :
      HandlerStep s k e s' k' → Step t s k e s' k'
  | close {s s' : Shared ι} {k k' : Pc} {e : Event} : CloseStep t s k e s' k' → Step t s k e s' k'
  | readCall {s : Shared ι} {count : ℕ} :
      Step t s .idle .reading { s with input := { s.input with unread := false } }
        (.read (.test count))
  | read {s : Shared ι} {r : Buffer ι} {k : ReadPc} {k' : Option ReadPc} {e : ReadEvent} :
      ReadStep t s.input k e r k' →
      Step t s (.read k) (.read e) { s with input := r } (k'.elim .idle .read)

/-- The driver, and all that use it, for any number of threads. -/
def shortprint (ι : Type) [DecidableEq ι] : Threads ι (Shared ι) Pc Event where
  init s := ∃ cells incells, s = .initial cells incells
  start := .idle
  step := Step

end Statements

end LeipoCode.Shortprint
