import LeipoCode.Short.Recorder

/-!
# The interrupts of `short/short.c`

The time of each interrupt is printed into the buffer: by the handler (`short_interrupt`,
`short_sh_interrupt`), or by a bottom half, for which the handler leaves it in `tv_data`
(`short_wq_interrupt`, `short_tl_interrupt`, `short_do_tasklet`).  The threads of `Lib.Threads` are
the handlers, the bottom half, and the processes that read; a step is one statement of one of them,
so a run is any interleaving.  Which handler is installed is a parameter, as it is one of the
module.

### What the kernel sees to

* A handler does not interrupt itself: `irq` says that no interrupt is being handled, and a handler
  begins only then.  Handlers and the bottom half do interrupt each other, at any statement.
* A tasklet is run by one processor at a time, so `short_do_tasklet` as a tasklet begins only while
  it is `resting`.  As the function of a work queue it is not kept from running on two processors at
  once: the work can be queued again as soon as it has begun, and another processor may take it.
  The model lets it, and results that need one bottom half at a time say so (`Unhurried`,
  `Worthwhile`).
* Whether an interrupt on a shared line is that of the port is left open: `short_sh_interrupt` looks
  at the port and may find either.

### What is left out

Pointers into `tv_data` are counted from its start, and a `struct timeval` is stored or read in one
step.  The devices of the ports, and how the interrupt line is found, are not modelled; nor is the
overflow of `short_wq_count`, which is only printed.
-/

namespace LeipoCode.Short

open Printf RingBuffer

/-! ### Data -/

/-- The handlers of `short_init`: the one that prints itself, the one for a shared line, and the top
halves of a work queue and of a tasklet. -/
inductive Handler
  | interrupt
  | sh
  | wq
  | tl
deriving DecidableEq, Repr

/-- The work is done by a bottom half, which the handler only queues.  The other two print
themselves. -/
def Handler.halves : Handler → Bool
  | wq | tl => true
  | _ => false

/-- How many times `tv_data` has room for; with all of its places in use it would look empty. -/
def NR_TIMEVAL : ℕ := 512

/-- What the threads share: the buffer, the array of times with its two positions, and what the
kernel keeps of the interrupt and of the bottom half. -/
structure Shared (ι : Type) where
  buffer : Buffer ι
  /-- No interrupt is being handled. -/
  irq : Bool
  /-- The tasklet, or the work, is queued. -/
  scheduled : Bool
  /-- No bottom half is at work, or one has ended since the last one began.  For a tasklet the two
  are the same. -/
  resting : Bool
  /-- `tv_data`, `tv_head`, `tv_tail`. -/
  tvData : ℕ → Timeval
  tvHead : ℕ
  tvTail : ℕ
  wqCount : ℕ

/-- When the driver is loaded: the buffer and the array are empty, and nothing is under way. -/
def Shared.initial {ι : Type} (cells : ℕ → UInt8) : Shared ι where
  buffer := .initial cells
  irq := true
  scheduled := false
  resting := true
  tvData _ := .zero
  tvHead := 0
  tvTail := 0
  wqCount := 0

/-- `short_incr_tv`: a position in `tv_data` goes on by one, from the last place to the first. -/
def incrTv (tvp : ℕ) : ℕ := if tvp = NR_TIMEVAL - 1 then 0 else tvp + 1

/-- `"bh after %6i\n"`, the line a bottom half prints before the times.  It has 16 bytes as long as
the count has no more than six digits (`length_bhAfter`). -/
def bhAfter (savecount : ℕ) : List UInt8 :=
  bytes ("bh after ".toList ++ padLeft 6 (dec savecount) ++ ['\n'])

/-! ### Events and program points -/

/-- What a statement shows of itself.  The events name what results are about: what is printed and
where, what readers get, and on the way of a time from the top half to the page when it is taken,
entered and printed. -/
inductive Event
  | silent
  | reading
  | read (e : ReadEvent)
  /-- `sprintf` of a time to a place in the page. -/
  | stamp (p : ℕ) (tv : Timeval)
  /-- `sprintf` of a count. -/
  | after (p savecount : ℕ)
  /-- `do_gettimeofday` of the top half. -/
  | time (tv : Timeval)
  /-- `tv_head` has moved over this time. -/
  | entered (tv : Timeval)
  /-- The bottom half is called. -/
  | bottom
deriving DecidableEq, Repr

/-- The program points, each before the statement it names.  A loop body that prints one time has
several, so a handler may come between the `sprintf`, the move of the head and the move of
`tv_tail`. -/
inductive Pc
  | idle
  -- `short_interrupt`, `short_sh_interrupt`
  | irqValue
  | irqTime
  | irqSprintf (tv : Timeval)
  | irqAdvance (written : ℕ)
  | irqWake
  | irqEnd
  -- `short_wq_interrupt`, `short_tl_interrupt`
  | topTime
  | topIncr
  | topSchedule
  | topCount
  | topStore (count : ℕ)
  | topEnd
  -- `short_do_tasklet`
  | bhCount
  | bhZero (savecount : ℕ)
  | bhSprintf (savecount : ℕ)
  | bhAdvance (written : ℕ)
  | bhStamp
  | bhStampAdvance (written : ℕ)
  | bhIncr
  | bhTest
  | bhWake
  | bhEnd
  -- `short_i_read`
  | read (k : ReadPc)
deriving DecidableEq, Repr

/-! ### Statements -/

section Statements

variable {ι : Type}

/-- `short_interrupt`, and `short_sh_interrupt`, which looks at the port first and does the same if
the interrupt is its own. -/
inductive InterruptStep (h : Handler) : Shared ι → Pc → Event → Shared ι → Pc → Prop
  | call {s : Shared ι} :
      h = .interrupt → s.irq = true →
      InterruptStep h s .idle .silent { s with irq := false } .irqTime
  | shared {s : Shared ι} :
      h = .sh → s.irq = true → InterruptStep h s .idle .silent { s with irq := false } .irqValue
  | none {s : Shared ι} : InterruptStep h s .irqValue .silent s .irqEnd
  | handled {s : Shared ι} : InterruptStep h s .irqValue .silent s .irqTime
  | time {s : Shared ι} {tv : Timeval} : InterruptStep h s .irqTime .silent s (.irqSprintf tv)
  | sprintf {s : Shared ι} {tv : Timeval} :
      -- what is written are the 16 bytes that `BUG_ON` asks for
      InterruptStep h s (.irqSprintf tv) (.stamp s.buffer.head tv)
        { s with buffer := s.buffer.sprintf (stamp tv) } (.irqAdvance (stamp tv).length)
  | advance {s : Shared ι} {written : ℕ} :
      InterruptStep h s (.irqAdvance written) .silent
        { s with buffer := s.buffer.advance written } .irqWake
  | wake {s : Shared ι} :
      InterruptStep h s .irqWake .silent { s with buffer := s.buffer.wake } .irqEnd
  | done {s : Shared ι} : InterruptStep h s .irqEnd .silent { s with irq := true } .idle

/-- `short_wq_interrupt`, `short_tl_interrupt`: the time is stored at `tv_head`, `tv_head` moves on
whether or not there is room, the bottom half is queued, and the interrupt is counted.  The count is
read and written in two steps, as another processor's bottom half may clear it in between. -/
inductive TopStep : Shared ι → Pc → Event → Shared ι → Pc → Prop
  | call {s : Shared ι} :
      s.irq = true → TopStep s .idle .silent { s with irq := false } .topTime
  | time {s : Shared ι} {tv : Timeval} :
      TopStep s .topTime (.time tv) { s with tvData := store s.tvData s.tvHead [tv] } .topIncr
  | incr {s : Shared ι} :
      TopStep s .topIncr (.entered (s.tvData s.tvHead)) { s with tvHead := incrTv s.tvHead }
        .topSchedule
  | schedule {s : Shared ι} :
      TopStep s .topSchedule .silent { s with scheduled := true } .topCount
  | count {s : Shared ι} : TopStep s .topCount .silent s (.topStore s.wqCount)
  | store {s : Shared ι} {count : ℕ} :
      TopStep s (.topStore count) .silent { s with wqCount := count + 1 } .topEnd
  | done {s : Shared ι} : TopStep s .topEnd .silent { s with irq := true } .idle

/-- `short_do_tasklet`: it takes and clears the count, prints it, and then prints times until
`tv_tail` has come up with `tv_head`.  The loop tests only after the first time, so it prints one
even if none waits. -/
inductive BottomStep (h : Handler) : Shared ι → Pc → Event → Shared ι → Pc → Prop
  | call {s : Shared ι} :
      -- a tasklet does not run on two processors at once; the work function may
      s.scheduled = true → (h = .tl → s.resting = true) →
      BottomStep h s .idle .bottom { s with scheduled := false, resting := false } .bhCount
  | count {s : Shared ι} : BottomStep h s .bhCount .silent s (.bhZero s.wqCount)
  | zero {s : Shared ι} {savecount : ℕ} :
      BottomStep h s (.bhZero savecount) .silent { s with wqCount := 0 } (.bhSprintf savecount)
  | sprintf {s : Shared ι} {savecount : ℕ} :
      BottomStep h s (.bhSprintf savecount) (.after s.buffer.head savecount)
        { s with buffer := s.buffer.sprintf (bhAfter savecount) }
        (.bhAdvance (bhAfter savecount).length)
  | advance {s : Shared ι} {written : ℕ} :
      BottomStep h s (.bhAdvance written) .silent { s with buffer := s.buffer.advance written }
        .bhStamp
  | stamp {s : Shared ι} :
      BottomStep h s .bhStamp (.stamp s.buffer.head (s.tvData s.tvTail))
        { s with buffer := s.buffer.sprintf (stamp (s.tvData s.tvTail)) }
        (.bhStampAdvance (stamp (s.tvData s.tvTail)).length)
  | stampAdvance {s : Shared ι} {written : ℕ} :
      BottomStep h s (.bhStampAdvance written) .silent
        { s with buffer := s.buffer.advance written } .bhIncr
  | incr {s : Shared ι} :
      BottomStep h s .bhIncr .silent { s with tvTail := incrTv s.tvTail } .bhTest
  | more {s : Shared ι} : s.tvTail ≠ s.tvHead → BottomStep h s .bhTest .silent s .bhStamp
  | last {s : Shared ι} : s.tvTail = s.tvHead → BottomStep h s .bhTest .silent s .bhWake
  | wake {s : Shared ι} :
      BottomStep h s .bhWake .silent { s with buffer := s.buffer.wake } .bhEnd
  | done {s : Shared ι} : BottomStep h s .bhEnd .silent { s with resting := true } .idle

variable [DecidableEq ι]

/-- A statement of a thread: the handler prints, or leaves it to a bottom half, according to which
one is installed; and processes read in either case. -/
inductive Step (h : Handler) (t : ι) : Shared ι → Pc → Event → Shared ι → Pc → Prop
  | interrupt {s s' : Shared ι} {k k' : Pc} {e : Event} :
      h.halves = false → InterruptStep h s k e s' k' → Step h t s k e s' k'
  | top {s s' : Shared ι} {k k' : Pc} {e : Event} :
      h.halves = true → TopStep s k e s' k' → Step h t s k e s' k'
  | bottom {s s' : Shared ι} {k k' : Pc} {e : Event} :
      h.halves = true → BottomStep h s k e s' k' → Step h t s k e s' k'
  | readCall {s : Shared ι} {count : ℕ} :
      Step h t s .idle .reading { s with buffer := { s.buffer with unread := false } }
        (.read (.test count))
  | read {s : Shared ι} {b : Buffer ι} {k : ReadPc} {k' : Option ReadPc} {e : ReadEvent} :
      ReadStep t s.buffer k e b k' →
      Step h t s (.read k) (.read e) { s with buffer := b } (k'.elim .idle .read)

/-- The driver with one of its handlers, and all that read, for any number of threads. -/
def short (h : Handler) (ι : Type) [DecidableEq ι] : Threads ι (Shared ι) Pc Event where
  init s := ∃ cells, s = .initial cells
  start := .idle
  step := Step h

end Statements

end LeipoCode.Short
