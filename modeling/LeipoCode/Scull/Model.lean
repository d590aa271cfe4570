import LeipoCode.Lib.Blocks
import LeipoCode.Lib.ByteFile
import LeipoCode.Lib.Callers
import LeipoCode.Pipe.Model

/-!
# The memory device of `scull/main.c`

A device whose bytes lie in a list of quantum sets, each an array of pointers to quanta.  The
processes that have it open are the threads of `Lib.Threads`, and a step is one statement of one
of them: `scull_read` and `scull_write` look at `dev->quantum` and `dev->qset` **before** they
take the semaphore.

* `dev->data` is the list of what the `data` pointers of the items point to (`Blocks.Items`).
* `kmalloc` may fail, and does not clear what it gives.  `scull_follow` stops at the first
  failure, so how many of its calls succeed is all there is to say.
* A signal may end the wait for the semaphore, and a copy from or to user space may fail; what
  it has copied till then stays.
* A division by zero, and an index or a copy that is outside its block, lead to `Pc.oops`.
* The file system calls with a position and a count whose sum is not negative as a `loff_t`.
* One device is modelled, on a machine whose `long` has 64 bits.  An open that is not write-only
  does nothing; of `scull_ioctl` there is what it does to the two parameters.

### What is a step

What `scull_read` and `scull_write` read of the device before `down_interruptible` are two steps,
since another process may trim the device between them and before the semaphore is had; what they
have found is kept in an `Access`, and every later statement computes with that and not with the
device.  Under the semaphore the walk of `scull_follow`, each `kmalloc`, the copy and the new size
are steps of their own.  The free of the whole list in `scull_trim` is one step, with the check that
no array is shorter than the `qset` it is gone through with.

An effect (`CallEvent.effect`) is shown by the statement at which a call has it: the copy, the new
size, or the failure that decides what the call returns.  What it returns is shown apart from it,
when the semaphore is given back.
-/

namespace LeipoCode.Scull

open Blocks
open Pipe (toSize Errno)

/-! ### Data -/

/-- `struct scull_dev`, without the list of its use.  The size is the one of the file, and not of
what is allocated. -/
structure ScullDev where
  data : Items UInt8
  quantum : ℤ
  qset : ℤ
  size : ℕ
  /-- The semaphore is free. -/
  sem : Bool

/-- What the threads share: the device, and the two parameters of the module that `scull_trim`
copies into it and `scull_ioctl` sets. -/
structure Shared where
  dev : ScullDev
  scullQuantum : ℤ
  scullQset : ℤ

/-- `SCULL_QUANTUM`: how many bytes a quantum has, unless it is set. -/
def SCULL_QUANTUM : ℤ := 4000

/-- `SCULL_QSET`: how many quanta an item has, unless it is set. -/
def SCULL_QSET : ℤ := 1000

/-- Loaded with these parameters, which nothing checks, and with no bytes. -/
def Shared.initial (quantum qset : ℤ) : Shared where
  dev := ⟨[], quantum, qset, 0, true⟩
  scullQuantum := quantum
  scullQset := qset

/-! ### Where a position is -/

/-- An integer in an `int`: `item` and `rest` are of this type, and so are `s_pos` and `q_pos`,
while a position is a `loff_t`. -/
def toInt (n : ℤ) : ℤ := n.bmod (2 ^ 32)

/-- What a call knows before it has the semaphore: its position, and the parameters as it has found
them. -/
structure Access where
  pos : ℕ
  quantum : ℤ
  qset : ℤ
deriving DecidableEq, Repr

namespace Access

/-- `itemsize = quantum * qset`: how many bytes an item has, as far as an `int` can say. -/
def itemsize (c : Access) : ℤ := toInt (c.quantum * c.qset)

/-- `item = (long)*f_pos / itemsize`: how many items come before the one of the position. -/
def item (c : Access) : ℤ := toInt ((c.pos : ℤ).tdiv c.itemsize)

/-- `rest = (long)*f_pos % itemsize`: the position in its item. -/
def rest (c : Access) : ℤ := toInt ((c.pos : ℤ).tmod c.itemsize)

/-- `s_pos = rest / quantum`: the index into the quantum set. -/
def sPos (c : Access) : ℤ := c.rest.tdiv c.quantum

/-- `q_pos = rest % quantum`: the position in its quantum. -/
def qPos (c : Access) : ℤ := c.rest.tmod c.quantum

/-- How often `while (n--)` goes on in `scull_follow`: a negative `item` counts down through all of
the `int`s. -/
def hops (c : Access) : ℕ := (c.item % 2 ^ 32).toNat

/-- The count, up to the end of the quantum: a read or a write never goes further than one.  The
difference is an `int`, and the comparison one of `size_t`s. -/
def clip (c : Access) (count : ℕ) : ℕ := min count (toSize (c.quantum - c.qPos))

end Access

/-- `scull_follow`: the list behind it, and whether the item is there.  The items on the way that
are missing are allocated, and `granted` calls of `kmalloc` succeed. -/
def scullFollow : (n granted : ℕ) → Items UInt8 → Items UInt8 × Bool
  | _, 0, [] => ([], false)
  | 0, _ + 1, [] => ([none], true)
  | n + 1, granted + 1, [] =>
      (none :: (scullFollow n granted []).1, (scullFollow n granted []).2)
  | 0, _, qs :: rest => (qs :: rest, true)
  | n + 1, granted, qs :: rest =>
      (qs :: (scullFollow n granted rest).1, (scullFollow n granted rest).2)

/-! ### Events and program points -/

/-- A call: `scull_open` write-only, `scull_read` of so many bytes, `scull_write` of these. -/
inductive Call
  | open_
  | read (pos count : ℕ)
  | write (pos : ℕ) (data : List UInt8)
deriving DecidableEq, Repr

/-- What a call returns: `scull_read` what it has copied, `scull_write` how much, and either an
error. -/
inductive Result
  | done
  | read (bytes : List UInt8)
  | wrote (count : ℕ)
  | error (e : Errno)
deriving DecidableEq, Repr

/-- What a statement shows of itself: a call begins, has its effect on the file that the device is
to its users, and returns. -/
abbrev Event := CallEvent Call (SparseFile.Event UInt8) Result

/-- The program points, each before the statement it names, with the local variables that are still
needed.  `oops` is a division by zero, or an access outside its block; nothing leads on from it. -/
inductive Pc
  | idle
  -- `scull_open`, and `scull_trim` in it
  | openDown
  | openFree
  | openSize
  | openQuantum
  | openQset
  | openData
  | openUp
  -- `scull_read`; `n` is what is left of the count
  | readQset (pos count : ℕ) (quantum : ℤ)
  | readDown (c : Access) (count : ℕ)
  | readTest (c : Access) (count : ℕ)
  | readFollow (c : Access) (count n : ℕ)
  | readFind (c : Access) (count n : ℕ)
  | readCopy (c : Access) (count n : ℕ)
  | readUp (bytes : List UInt8)
  -- `scull_write`
  | writeQset (pos : ℕ) (data : List UInt8) (quantum : ℤ)
  | writeDown (c : Access) (data : List UInt8)
  | writeFollow (c : Access) (data : List UInt8)
  | writeSlots (c : Access) (data : List UInt8)
  | writeBlock (c : Access) (data : List UInt8)
  | writeCopy (c : Access) (data : List UInt8)
  | writeSize (c : Access) (data : List UInt8) (n : ℕ)
  | writeUp (n : ℕ)
  -- `out`, with an error
  | errorUp (e : Errno)
  | oops
deriving DecidableEq, Repr

/-! ### Statements -/

/-- The semaphore taken or given back, and nothing else. -/
def Shared.setSem (s : Shared) (free : Bool) : Shared :=
  { s with dev := { s.dev with sem := free } }

/-- The list changed, and nothing else of the device. -/
def Shared.setData (s : Shared) (data : Items UInt8) : Shared :=
  { s with dev := { s.dev with data := data } }

/-- The index is outside the array: the array of an item has as many entries as `dev->qset` said
when it was allocated, and the index is computed from the `qset` of the call. -/
def Access.WildSlot (c : Access) (data : Items UInt8) : Prop :=
  ∃ ss, slots data c.hops = some ss ∧ ¬ (0 ≤ c.sPos ∧ c.sPos < ss.length)

instance (c : Access) (data : Items UInt8) : Decidable (c.WildSlot data) :=
  inferInstanceAs (Decidable (∃ ss ∈ slots data c.hops, ¬ (0 ≤ c.sPos ∧ c.sPos < ss.length)))

/-- The block the position is in, if there is one. -/
def Access.block (c : Access) (data : Items UInt8) : Option (List UInt8) :=
  Blocks.block data c.hops c.sPos.toNat

/-- A copy of `n` bytes is inside the block, from its start to its end. -/
def Access.Inside (c : Access) (n : ℕ) (b : List UInt8) : Prop := 0 ≤ c.qPos ∧ c.qPos + n ≤ b.length

instance (c : Access) (n : ℕ) (b : List UInt8) : Decidable (c.Inside n b) :=
  inferInstanceAs (Decidable (_ ∧ _))

/-- `scull_open`, write-only, and `scull_trim`: the list is gone through with the `qset` of the
device, and then the device takes over the parameters of the module.  The device is a file of no
bytes from the statement at which `data` is cleared. -/
inductive OpenStep : Shared → Pc → Event → Shared → Pc → Prop
  | call {s : Shared} : OpenStep s .idle (.called .open_) s .openDown
  | interrupted {s : Shared} :
      OpenStep s .openDown (.returned (.error .ERESTARTSYS)) s .idle
  | down {s : Shared} :
      s.dev.sem = true → OpenStep s .openDown .silent (s.setSem false) .openFree
  | free {s : Shared} :
      (∀ i ss, slots s.dev.data i = some ss → s.dev.qset ≤ ss.length) →
      OpenStep s .openFree .silent s .openSize
  | wild {s : Shared} {i : ℕ} {ss : Slots UInt8} :
      slots s.dev.data i = some ss → ss.length < s.dev.qset →
      OpenStep s .openFree .silent s .oops
  | size {s : Shared} :
      OpenStep s .openSize .silent { s with dev := { s.dev with size := 0 } } .openQuantum
  | quantum {s : Shared} :
      OpenStep s .openQuantum .silent { s with dev := { s.dev with quantum := s.scullQuantum } }
        .openQset
  | qset {s : Shared} :
      OpenStep s .openQset .silent { s with dev := { s.dev with qset := s.scullQset } } .openData
  | data {s : Shared} : OpenStep s .openData (.effect .truncate) (s.setData []) .openUp
  | up {s : Shared} : OpenStep s .openUp (.returned .done) (s.setSem true) .idle

/-- `scull_read`.  It allocates the items on its way, as `scull_follow` does for writes; and where
there is nothing, or no memory, it returns 0 bytes. -/
inductive ReadStep : Shared → Pc → Event → Shared → Pc → Prop
  | call {s : Shared} {pos count : ℕ} :
      pos + count < 2 ^ 63 →
      ReadStep s .idle (.called (.read pos count)) s (.readQset pos count s.dev.quantum)
  | qset {s : Shared} {pos count : ℕ} {quantum : ℤ} :
      ReadStep s (.readQset pos count quantum) .silent s
        (.readDown ⟨pos, quantum, s.dev.qset⟩ count)
  | interrupted {s : Shared} {c : Access} {count : ℕ} :
      ReadStep s (.readDown c count) (.returned (.error .ERESTARTSYS)) s .idle
  | down {s : Shared} {c : Access} {count : ℕ} :
      s.dev.sem = true →
      ReadStep s (.readDown c count) .silent (s.setSem false) (.readTest c count)
  | eof {s : Shared} {c : Access} {count : ℕ} :
      s.dev.size ≤ c.pos →
      ReadStep s (.readTest c count) (.effect (.read c.pos count [])) s (.readUp [])
  | test {s : Shared} {c : Access} {count : ℕ} :
      c.pos < s.dev.size →
      ReadStep s (.readTest c count) .silent s
        (.readFollow c count
          (if s.dev.size < c.pos + count then s.dev.size - c.pos else count))
  | divide {s : Shared} {c : Access} {count n : ℕ} :
      c.itemsize = 0 ∨ c.quantum = 0 → ReadStep s (.readFollow c count n) .silent s .oops
  | follow {s : Shared} {c : Access} {count n granted : ℕ} :
      c.itemsize ≠ 0 → c.quantum ≠ 0 → (scullFollow c.hops granted s.dev.data).2 = true →
      ReadStep s (.readFollow c count n) .silent
        (s.setData (scullFollow c.hops granted s.dev.data).1) (.readFind c count n)
  | noMem {s : Shared} {c : Access} {count n granted : ℕ} :
      c.itemsize ≠ 0 → c.quantum ≠ 0 → (scullFollow c.hops granted s.dev.data).2 = false →
      ReadStep s (.readFollow c count n) (.effect (.read c.pos count []))
        (s.setData (scullFollow c.hops granted s.dev.data).1) (.readUp [])
  | noSlots {s : Shared} {c : Access} {count n : ℕ} :
      slots s.dev.data c.hops = none →
      ReadStep s (.readFind c count n) (.effect (.read c.pos count [])) s (.readUp [])
  | wildSlot {s : Shared} {c : Access} {count n : ℕ} :
      c.WildSlot s.dev.data → ReadStep s (.readFind c count n) .silent s .oops
  | hole {s : Shared} {c : Access} {count n : ℕ} :
      slots s.dev.data c.hops ≠ none → ¬ c.WildSlot s.dev.data → c.block s.dev.data = none →
      ReadStep s (.readFind c count n) (.effect (.read c.pos count [])) s (.readUp [])
  | block {s : Shared} {c : Access} {count n : ℕ} {b : List UInt8} :
      ¬ c.WildSlot s.dev.data → c.block s.dev.data = some b →
      ReadStep s (.readFind c count n) .silent s (.readCopy c count (c.clip n))
  | wildCopy {s : Shared} {c : Access} {count n : ℕ} {b : List UInt8} :
      c.block s.dev.data = some b → ¬ c.Inside n b →
      ReadStep s (.readCopy c count n) .silent s .oops
  | copy {s : Shared} {c : Access} {count n : ℕ} {b : List UInt8} :
      c.block s.dev.data = some b → c.Inside n b →
      ReadStep s (.readCopy c count n)
        (.effect (.read c.pos count (ByteFile.readAt b c.qPos.toNat n))) s
        (.readUp (ByteFile.readAt b c.qPos.toNat n))
  | fault {s : Shared} {c : Access} {count n : ℕ} {b : List UInt8} :
      c.block s.dev.data = some b → c.Inside n b → 0 < n →
      ReadStep s (.readCopy c count n) (.effect (.readFault c.pos)) s (.errorUp .EFAULT)
  | up {s : Shared} {bytes : List UInt8} :
      ReadStep s (.readUp bytes) (.returned (.read bytes)) (s.setSem true) .idle

/-- `scull_write`: a quantum that is missing is allocated with whatever `kmalloc` has left in it
(`junk`), and the copy fills only its part.  A copy that fails has copied some bytes, and neither
position nor size is changed. -/
inductive WriteStep : Shared → Pc → Event → Shared → Pc → Prop
  | call {s : Shared} {pos : ℕ} {data : List UInt8} :
      pos + data.length < 2 ^ 63 →
      WriteStep s .idle (.called (.write pos data)) s (.writeQset pos data s.dev.quantum)
  | qset {s : Shared} {pos : ℕ} {data : List UInt8} {quantum : ℤ} :
      WriteStep s (.writeQset pos data quantum) .silent s
        (.writeDown ⟨pos, quantum, s.dev.qset⟩ data)
  | interrupted {s : Shared} {c : Access} {data : List UInt8} :
      WriteStep s (.writeDown c data) (.returned (.error .ERESTARTSYS)) s .idle
  | down {s : Shared} {c : Access} {data : List UInt8} :
      s.dev.sem = true →
      WriteStep s (.writeDown c data) .silent (s.setSem false) (.writeFollow c data)
  | divide {s : Shared} {c : Access} {data : List UInt8} :
      c.itemsize = 0 ∨ c.quantum = 0 → WriteStep s (.writeFollow c data) .silent s .oops
  | follow {s : Shared} {c : Access} {data : List UInt8} {granted : ℕ} :
      c.itemsize ≠ 0 → c.quantum ≠ 0 → (scullFollow c.hops granted s.dev.data).2 = true →
      WriteStep s (.writeFollow c data) .silent
        (s.setData (scullFollow c.hops granted s.dev.data).1) (.writeSlots c data)
  | noMem {s : Shared} {c : Access} {data : List UInt8} {granted : ℕ} :
      c.itemsize ≠ 0 → c.quantum ≠ 0 → (scullFollow c.hops granted s.dev.data).2 = false →
      WriteStep s (.writeFollow c data) (.effect (.noMem c.pos))
        (s.setData (scullFollow c.hops granted s.dev.data).1) (.errorUp .ENOMEM)
  | slots {s : Shared} {c : Access} {data : List UInt8} :
      slots s.dev.data c.hops ≠ none →
      WriteStep s (.writeSlots c data) .silent s (.writeBlock c data)
  | kmallocSlots {s : Shared} {c : Access} {data : List UInt8} :
      slots s.dev.data c.hops = none → 0 ≤ c.qset →
      WriteStep s (.writeSlots c data) .silent
        (s.setData (setSlots s.dev.data c.hops (List.replicate c.qset.toNat none)))
        (.writeBlock c data)
  | noSlots {s : Shared} {c : Access} {data : List UInt8} :
      slots s.dev.data c.hops = none →
      WriteStep s (.writeSlots c data) (.effect (.noMem c.pos)) s (.errorUp .ENOMEM)
  | wildSlot {s : Shared} {c : Access} {data : List UInt8} :
      c.WildSlot s.dev.data → WriteStep s (.writeBlock c data) .silent s .oops
  | block {s : Shared} {c : Access} {data b : List UInt8} :
      ¬ c.WildSlot s.dev.data → c.block s.dev.data = some b →
      WriteStep s (.writeBlock c data) .silent s (.writeCopy c data)
  | kmallocBlock {s : Shared} {c : Access} {data : List UInt8} (junk : ℕ → UInt8) :
      ¬ c.WildSlot s.dev.data → c.block s.dev.data = none → 0 ≤ c.quantum →
      WriteStep s (.writeBlock c data) .silent
        (s.setData (setBlock s.dev.data c.hops c.sPos.toNat
          ((List.range c.quantum.toNat).map junk)))
        (.writeCopy c data)
  | noBlock {s : Shared} {c : Access} {data : List UInt8} :
      ¬ c.WildSlot s.dev.data → c.block s.dev.data = none →
      WriteStep s (.writeBlock c data) (.effect (.noMem c.pos)) s (.errorUp .ENOMEM)
  | wildCopy {s : Shared} {c : Access} {data b : List UInt8} :
      c.block s.dev.data = some b → ¬ c.Inside (c.clip data.length) b →
      WriteStep s (.writeCopy c data) .silent s .oops
  | copy {s : Shared} {c : Access} {data b : List UInt8} :
      c.block s.dev.data = some b → c.Inside (c.clip data.length) b →
      WriteStep s (.writeCopy c data) .silent
        (s.setData (setBlock s.dev.data c.hops c.sPos.toNat
          (splice b c.qPos.toNat (data.take (c.clip data.length)))))
        (.writeSize c data (c.clip data.length))
  | fault {s : Shared} {c : Access} {data b arrived : List UInt8} :
      c.block s.dev.data = some b → c.Inside (c.clip data.length) b → 0 < c.clip data.length →
      arrived.length = c.clip data.length →
      WriteStep s (.writeCopy c data) (.effect (.writeFault c.pos arrived))
        (s.setData (setBlock s.dev.data c.hops c.sPos.toNat (splice b c.qPos.toNat arrived)))
        (.errorUp .EFAULT)
  | size {s : Shared} {c : Access} {data : List UInt8} {n : ℕ} :
      WriteStep s (.writeSize c data n) (.effect (.write c.pos data n))
        { s with dev := { s.dev with
            size := if s.dev.size < c.pos + n then c.pos + n else s.dev.size } } (.writeUp n)
  | up {s : Shared} {n : ℕ} :
      WriteStep s (.writeUp n) (.returned (.wrote n)) (s.setSem true) .idle

/-- A statement of a thread.  That `scull_ioctl` sets the parameters takes no semaphore, and no
notice of the device. -/
inductive Step : Shared → Pc → Event → Shared → Pc → Prop
  | open_ {s s' : Shared} {k k' : Pc} {e : Event} : OpenStep s k e s' k' → Step s k e s' k'
  | read {s s' : Shared} {k k' : Pc} {e : Event} : ReadStep s k e s' k' → Step s k e s' k'
  | write {s s' : Shared} {k k' : Pc} {e : Event} : WriteStep s k e s' k' → Step s k e s' k'
  | errorUp {s : Shared} {e : Errno} :
      Step s (.errorUp e) (.returned (.error e)) (s.setSem true) .idle
  -- `scull_ioctl`
  | setQuantum {s : Shared} {arg : ℤ} :
      Step s .idle .silent { s with scullQuantum := toInt arg } .idle
  | setQset {s : Shared} {arg : ℤ} :
      Step s .idle .silent { s with scullQset := toInt arg } .idle
  | reset {s : Shared} :
      Step s .idle .silent { s with scullQuantum := SCULL_QUANTUM, scullQset := SCULL_QSET } .idle

/-- The device, loaded with these parameters, and any number of threads that use it. -/
def scull (ι : Type) (quantum qset : ℤ) : Threads ι Shared Pc Event where
  init s := s = .initial quantum qset
  start := .idle
  step _ := Step

/-! ### What `scull_follow` does -/

/-- The list is as long as needed, or as `kmalloc` lets it be, and the item is there if it got that
far.  The recursion goes down the list and the count together. -/
theorem scullFollow_eq (n granted : ℕ) (items : Items UInt8) :
    scullFollow n granted items =
      (items ++ List.replicate (min granted (n + 1 - items.length)) none,
        decide (n + 1 ≤ items.length + granted)) := by
  fun_induction scullFollow n granted items with
  | case1 => simp
  | case2 => simp
  | case3 n granted ih => simp [ih, List.replicate_succ, Nat.succ_min_succ]
  | case4 => simp; omega
  | case5 n granted qs rest ih => simp [ih]; omega

end LeipoCode.Scull
