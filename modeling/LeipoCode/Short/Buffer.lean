import LeipoCode.Lib.Printf
import LeipoCode.Lib.RingBuffer
import LeipoCode.Lib.WaitQueue

/-!
# The buffer of times of `short/short.c` and `shortprint/shortprint.c`

Both drivers print the time of an interrupt, a record of 16 bytes, into one page that is used in
turn, and processes read it.  Nothing is locked: the printing moves `head`, the reading moves
`tail`, and each looks at the position of the other.  The two drivers have the same text here under
two names (`short_i_read` and `shortp_read`, `short_incr_bp` and `shortp_incr_bp`), so the buffer
and a read of it are modelled once.

* `Buffer` — the page with its two positions and the queue of those who wait for a record;
* `Buffer.sprintf`, `Buffer.advance`, `Buffer.wake` — what is done to it when a record is printed,
  in the three steps in which the drivers do it;
* `ReadStep` — a read, one statement a step, with the wait for a record written out.

### What is kept of the page

Pointers into the page are counted from its start.  `sprintf` does not know where the page ends and
puts a zero behind the text, so the cells behind the page are there, too: whether they are written
is a question to be answered (`Short.overruns_iff`), not one to be excluded by the type.

`unread` is a history variable.  No statement of the drivers looks at it; it is false while a
process is between the beginning of a read and its end, and a caller of this module may ask that one
process reads at a time, which the drivers themselves do not see to.
-/

namespace LeipoCode.Short

open Printf RingBuffer

/-- The page of `__get_free_pages`, which both buffers are: 256 records. -/
def PAGE_SIZE : ℕ := 4096

/-- `short_buffer` with `short_head`, `short_tail` and `short_queue`, or those of `shortp_in`.  The
positions are offsets, and `queue t` says that thread `t` is on the wait queue and nobody has woken
it. -/
structure Buffer (ι : Type) where
  cells : ℕ → UInt8
  head : ℕ
  tail : ℕ
  queue : ι → Bool
  /-- Nobody is in `short_i_read`. -/
  unread : Bool

/-- When the driver is loaded: the buffer is empty and nobody waits.  What the page has in it is
what `__get_free_pages` found there. -/
def Buffer.initial {ι : Type} (cells : ℕ → UInt8) : Buffer ι := ⟨cells, 0, 0, fun _ => false, true⟩

/-- `struct timeval`, as `do_gettimeofday` has it: the microseconds are less than a million, which
is what makes a record have 16 bytes. -/
structure Timeval where
  sec : ℕ
  usec : ℕ
  usec_lt : usec < 1000000
deriving DecidableEq, Repr

/-- What a `struct timeval` is before anything is stored, in an array that is static. -/
def Timeval.zero : Timeval := ⟨0, 0, by decide⟩

/-- `short_incr_bp`, `shortp_incr_bp`: a position goes on by `delta`, and starts anew at the end of
the page.  It is set to the start, and not reduced modulo the size, so what is behind the end is
dropped if a record does not end with the page (`incrBp_eq_mod` says when it does not matter). -/
def incrBp (index delta : ℕ) : ℕ := if PAGE_SIZE ≤ index + delta then 0 else index + delta

/-- The bytes of a text, as `sprintf` puts them down: one for each character. -/
def bytes (text : List Char) : List UInt8 := text.map fun c => UInt8.ofNat c.toNat

/-- `"%08u.%06u\n"`: the seconds modulo `100000000`, as the source reduces them before it prints,
and the microseconds. -/
def stamp (tv : Timeval) : List UInt8 :=
  bytes (decZero 8 (tv.sec % 100000000 : ℕ) ++ '.' :: decZero 6 tv.usec ++ ['\n'])

/-- "Write a 16 byte record": eight digits, a point, six digits and the end of the line, for
whichever time.  The drivers have a `BUG_ON` that says the same. -/
@[simp] theorem length_stamp (tv : Timeval) : (stamp tv).length = 16 := by
  have hsec : (decZero 8 (tv.sec % 100000000 : ℕ)).length = 8 :=
    length_decZero (by decide) (Nat.mod_lt _ (by decide))
  have husec : (decZero 6 tv.usec).length = 6 := length_decZero (by decide) tv.usec_lt
  rw [stamp, bytes, List.length_map, List.length_append, List.length_append, List.length_cons, hsec,
    husec]
  rfl

section Statements

variable {ι : Type}

/-- `sprintf` to the head, with the zero it puts behind the text.  The head does not move: until
`advance`, what was printed is not there for a reader. -/
def Buffer.sprintf (b : Buffer ι) (text : List UInt8) : Buffer ι :=
  { b with cells := store b.cells b.head (text ++ [0]) }

/-- `short_incr_bp (&short_head, written)`: from now on a reader finds the record. -/
def Buffer.advance (b : Buffer ι) (written : ℕ) : Buffer ι :=
  { b with head := incrBp b.head written }

/-- `wake_up_interruptible`: everybody who is on the queue is woken, and looks at the buffer again.
-/
def Buffer.wake (b : Buffer ι) : Buffer ι := { b with queue := fun _ => false }

/-- `count0` once it has been looked at: how many bytes can be read in one piece.  A negative
difference means that the head has gone round, and then the rest of the page is what there is. -/
def wrapped (b : Buffer ι) (count0 : ℤ) : ℤ := if count0 < 0 then PAGE_SIZE - b.tail else count0

/-- What a read shows of itself.  The events that end it are those at which `unread` becomes true
again: bytes were delivered, the copy failed (`fault`), or a signal came. -/
inductive ReadEvent
  | silent
  /-- `tail` has moved over these bytes. -/
  | deliver (bytes : List UInt8)
  | fault
  | signal
deriving DecidableEq, Repr

/-- The program points of a read, each before the statement it names; `prepare`, `check`, `sleep`
and `finish` are those of `prepare_to_wait`, the test after it, `schedule` and `finish_wait`. -/
inductive ReadPc
  | test (count : ℕ)
  | prepare (count : ℕ)
  | check (count : ℕ)
  | sleep (count : ℕ)
  | finish (count : ℕ)
  | pending (count : ℕ)
  | count0 (count : ℕ)
  | wrap (count : ℕ) (count0 : ℤ)
  | copy (count : ℕ)
  | advance (bytes : List UInt8)
deriving DecidableEq, Repr

/-- `short_i_read`, `shortp_read`, statement by statement.  The head and the tail are read anew by
each statement that names them, so another thread may move the head in between: `count0` is computed
from one look at the head, and what is copied is found by it. -/
inductive ReadStep [DecidableEq ι] (t : ι) :
    Buffer ι → ReadPc → ReadEvent → Buffer ι → Option ReadPc → Prop
  | empty {b : Buffer ι} {count : ℕ} :
      b.head = b.tail → ReadStep t b (.test count) .silent b (some (.prepare count))
  | data {b : Buffer ι} {count : ℕ} :
      b.head ≠ b.tail → ReadStep t b (.test count) .silent b (some (.count0 count))
  | prepare {b : Buffer ι} {count : ℕ} :
      ReadStep t b (.prepare count) .silent { b with queue := Function.update b.queue t true }
        (some (.check count))
  | checkTrue {b : Buffer ι} {count : ℕ} :
      b.head = b.tail → ReadStep t b (.check count) .silent b (some (.sleep count))
  | checkFalse {b : Buffer ι} {count : ℕ} :
      b.head ≠ b.tail → ReadStep t b (.check count) .silent b (some (.finish count))
  | awake {b : Buffer ι} {count : ℕ} :
      b.queue t = false → ReadStep t b (.sleep count) .silent b (some (.finish count))
  | signalled {b : Buffer ι} {count : ℕ} :
      ReadStep t b (.sleep count) .silent b (some (.finish count))
  | finish {b : Buffer ι} {count : ℕ} :
      ReadStep t b (.finish count) .silent { b with queue := Function.update b.queue t false }
        (some (.pending count))
  | again {b : Buffer ι} {count : ℕ} :
      ReadStep t b (.pending count) .silent b (some (.test count))
  | signal {b : Buffer ι} {count : ℕ} :
      ReadStep t b (.pending count) .signal { b with unread := true } none
  | count0 {b : Buffer ι} {count : ℕ} :
      ReadStep t b (.count0 count) .silent b (some (.wrap count (b.head - b.tail)))
  | wrap {b : Buffer ι} {count : ℕ} {count0 : ℤ} :
      ReadStep t b (.wrap count count0) .silent b
        (some (.copy (min count (wrapped b count0).toNat)))
  | copy {b : Buffer ι} {count : ℕ} :
      ReadStep t b (.copy count) .silent b (some (.advance (slice b.cells b.tail count)))
  | fault {b : Buffer ι} {count : ℕ} :
      ReadStep t b (.copy count) .fault { b with unread := true } none
  | advance {b : Buffer ι} {bytes : List UInt8} :
      ReadStep t b (.advance bytes) (.deliver bytes)
        { b with tail := incrBp b.tail bytes.length, unread := true } none

end Statements

end LeipoCode.Short
