import LeipoCode.Lib.WaitQueue

/-!
# The wake-ups of `misc-modules/sleepy.c`

Readers sleep until a writer has set `flag`, and the reader that wakes up clears it.  The threads of
`Lib.Threads` are the processes; a step is one statement of one of them.

* `wait_event_interruptible` tests `flag`, and from then on each time it has put the process on the
  queue.  `sleepy_read` goes on after a signal, too.
* The device has no lock: `flag` is read in the condition of the wait and cleared by a statement of
  its own behind it, and between the two other readers may go on too.
* `unread` is a history variable: no statement looks at it.
* What the two calls return to their callers, and the messages they print, are left out.
-/

namespace LeipoCode.Sleepy

variable {ι : Type}

/-- What the processes share: the flag, and the queue of those who wait for it. -/
structure Shared (ι : Type) where
  flag : Bool
  wq : ι → Bool
  /-- Nobody is in `sleepy_read`. -/
  unread : Bool

def Shared.initial : Shared ι := ⟨false, fun _ => false, true⟩

inductive Event
  | silent
  | reading
  | signal
  /-- `sleepy_read` has cleared the flag. -/
  | returned
  /-- `sleepy_write` has set it. -/
  | written
deriving DecidableEq, Repr

/-- The program points, each before the statement it names; the wait is written out. -/
inductive Pc
  | idle
  -- `sleepy_read`
  | test
  | prepare
  | check
  | sleep
  | finish
  | clear
  -- `sleepy_write`
  | set
  | wake
deriving DecidableEq, Repr

/-- `sleepy_read`: it waits until the flag is set, takes it away, and returns nothing. -/
inductive ReadStep [DecidableEq ι] (t : ι) : Shared ι → Pc → Event → Shared ι → Pc → Prop
  | call {s : Shared ι} : ReadStep t s .idle .reading { s with unread := false } .test
  | testTrue {s : Shared ι} : s.flag = true → ReadStep t s .test .silent s .clear
  | testFalse {s : Shared ι} : s.flag = false → ReadStep t s .test .silent s .prepare
  | prepare {s : Shared ι} :
      ReadStep t s .prepare .silent { s with wq := Function.update s.wq t true } .check
  | checkTrue {s : Shared ι} : s.flag = true → ReadStep t s .check .silent s .finish
  | checkFalse {s : Shared ι} : s.flag = false → ReadStep t s .check .silent s .sleep
  | awake {s : Shared ι} : s.wq t = false → ReadStep t s .sleep .silent s .prepare
  | signalled {s : Shared ι} : ReadStep t s .sleep .signal s .finish
  | finish {s : Shared ι} :
      ReadStep t s .finish .silent { s with wq := Function.update s.wq t false } .clear
  | clear {s : Shared ι} :
      ReadStep t s .clear .returned { s with flag := false, unread := true } .idle

/-- `sleepy_write`: it sets the flag and wakes whoever waits, and returns as if it had written. -/
inductive WriteStep : Shared ι → Pc → Event → Shared ι → Pc → Prop
  | call {s : Shared ι} : WriteStep s .idle .silent s .set
  | set {s : Shared ι} : WriteStep s .set .written { s with flag := true } .wake
  | wake {s : Shared ι} : WriteStep s .wake .silent { s with wq := fun _ => false } .idle

inductive Step [DecidableEq ι] (t : ι) : Shared ι → Pc → Event → Shared ι → Pc → Prop
  | read {s s' : Shared ι} {k k' : Pc} {e : Event} : ReadStep t s k e s' k' → Step t s k e s' k'
  | write {s s' : Shared ι} {k k' : Pc} {e : Event} : WriteStep s k e s' k' → Step t s k e s' k'

/-- All that read and write, any number of processes in any interleaving. -/
def sleepy (ι : Type) [DecidableEq ι] : Threads ι (Shared ι) Pc Event where
  init s := s = .initial
  start := .idle
  step := Step

end LeipoCode.Sleepy
