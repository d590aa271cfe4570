import LeipoCode.Lib.RingBuffer
import LeipoCode.Lib.Threads
import Mathlib.Data.BitVec

/-!
# The disk of `sbull/sbull.c`

A disk in memory that any number of processes open, read and write, and whose contents are lost 30
seconds after the last of them has closed it: a timer (`sbull_invalidate`) sets `media_change`, and
the next that opens the disk finds it so and erases it (`sbull_revalidate`).  The threads of
`Lib.Threads` are the processes and the runs of the timer; a step is one statement of one of them.

* `check_disk_change` asks `sbull_media_changed`, and calls `sbull_revalidate` if it says so.
* Time is left out: a timer that was added may run at once, or never.  A result that holds of this
  disk holds whatever `INVALIDATE_DELAY` is.
* A request is what the block layer hands to `sbull_request`, `sbull_full_request` or
  `sbull_make_request`, as `request_mode` has it.  The first two run under `lock`, which is the lock
  of the queue too, and the last one runs without.  A call of `sbull_transfer` is one step.
* How many sectors `bio_cur_sectors` says a segment has is a number that comes with the bio: the
  macro is the kernel's.  How the block layer books what was transferred is left out.
* `size` is in bytes, as `setup_device` has it, and an `unsigned long` has `bits` bits.  `users` is
  a `short`, a word of 16 bits that wraps.
* Whether opens and releases wait for each other is up to the block layer, and a parameter.  If they
  do not, the lock is that of a kernel for several processors, which excludes others also while
  `check_disk_change` sleeps.

### What is not a step of its own

The statements of `sbull_open` that touch the timer, `users` and `media_change` are steps of their
own, since the timer may run between any two of them; the lock is a step when it is taken and
another when it is given back.  What `sbull_transfer` copies is copied in one step.  Two requests in
the mode without the lock can run at once, but two copies to one sector are then a race of the two
who asked for them, and the disk has what one or the other has written.
-/

namespace LeipoCode.Sbull

open RingBuffer

/-! ### Data -/

def KERNEL_SECTOR_SIZE : ℕ := 512

/-- `request_mode`, a parameter of the module: which of the three functions `setup_device` gives to
the block layer. -/
inductive RequestMode
  | simple
  | full
  | noqueue
deriving DecidableEq, Repr

/-- What is fixed when the module is loaded, and the kernel it is loaded into. -/
structure Config where
  bits : ℕ
  size : ℕ
  mode : RequestMode
  /-- The block layer has one open or release after the other. -/
  serial : Bool

/-- A call of `sbull_transfer`: with `write` it is for what is in `buffer`. -/
structure Transfer where
  sector : ℕ
  nsect : ℕ
  buffer : List UInt8
  write : Bool
deriving DecidableEq, Repr

namespace Transfer

variable (c : Config) (r : Transfer)

/-- `sector*KERNEL_SECTOR_SIZE`, as an `unsigned long`: where on the disk the transfer begins. -/
def offset : ℕ := r.sector * KERNEL_SECTOR_SIZE % 2 ^ c.bits

/-- `nsect*KERNEL_SECTOR_SIZE`, as an `unsigned long`: how many bytes are copied. -/
def nbytes : ℕ := r.nsect * KERNEL_SECTOR_SIZE % 2 ^ c.bits

/-- The test of `sbull_transfer`: a sum of `unsigned long`s, which starts again from zero. -/
def beyondEnd : Prop := c.size < (r.offset c + r.nbytes c) % 2 ^ c.bits

instance : Decidable (r.beyondEnd c) := inferInstanceAs (Decidable (_ < _))

/-- `sbull_transfer`: the disk and the buffer afterwards.  A transfer that does not pass the test is
left out, and the request is ended as if it had been done. -/
def run (data : ℕ → UInt8) : (ℕ → UInt8) × List UInt8 :=
  if r.beyondEnd c then (data, r.buffer)
  else if r.write then (store data (r.offset c) (r.buffer.take (r.nbytes c)), r.buffer)
  else (data, slice data (r.offset c) (r.nbytes c) ++ r.buffer.drop (r.nbytes c))

end Transfer

/-- `struct bio`: the segments are the buffers that `bio_for_each_segment` goes through. -/
structure Bio where
  sector : ℕ
  /-- What `bio_cur_sectors` says. -/
  curSectors : ℕ
  segments : List (List UInt8)
  write : Bool
deriving DecidableEq, Repr

/-- The loop of `sbull_xfer_bio`, from a sector on: each segment starts where the one before it
ends, if `bio_cur_sectors` is right about it. -/
def segmentTransfers (sector curSectors : ℕ) (write : Bool) : List (List UInt8) → List Transfer
  | [] => []
  | buffer :: segments =>
      ⟨sector, curSectors, buffer, write⟩ ::
        segmentTransfers (sector + curSectors) curSectors write segments

/-- `sbull_xfer_bio`: all transfers for a bio, in order.  It always succeeds. -/
def Bio.transfers (b : Bio) : List Transfer :=
  segmentTransfers b.sector b.curSectors b.write b.segments

/-- What is handed to `sbull_request` (the segment at which the request is), `sbull_full_request`
or `sbull_make_request`; `fs` is what `blk_fs_request` says. -/
inductive Request
  | current (fs : Bool) (r : Transfer)
  | bios (fs : Bool) (bios : List Bio)
  | bio (b : Bio)
deriving DecidableEq, Repr

namespace Request

/-- The mode in which the driver is handed such a request. -/
def mode : Request → RequestMode
  | current _ _ => .simple
  | bios _ _ => .full
  | bio _ => .noqueue

/-- Whether it is ended as one that succeeded, as all are but those that are none of a file system.
-/
def uptodate : Request → Bool
  | current fs _ | bios fs _ => fs
  | bio _ => true

/-- The calls of `sbull_transfer` for it, in order.  A request that is none of a file system is
skipped. -/
def transfers : Request → List Transfer
  | current fs r => if fs then [r] else []
  | bios fs bs => if fs then bs.flatMap Bio.transfers else []
  | bio b => b.transfers

end Request

/-- `struct sbull_dev`, and what the kernel has: the timer, how many runs of it are not over, and
whether somebody opens or releases. -/
structure SbullDev where
  data : ℕ → UInt8
  users : BitVec 16
  mediaChange : Bool
  /-- It is free. -/
  lock : Bool
  /-- The timer is pending; so often it runs. -/
  timer : Bool
  running : ℤ
  /-- Nobody opens or releases. -/
  sem : Bool

/-- After `setup_device`: nobody has opened the disk, and the timer is not pending.  What is on the
disk then is up to `vmalloc`. -/
def SbullDev.initial (data : ℕ → UInt8) : SbullDev where
  data := data
  users := 0
  mediaChange := false
  lock := true
  timer := false
  running := 0
  sem := true

/-! ### Events and program points -/

/-- What can be seen of a statement.  The results are about these: a timer added, a check that
fails, a transfer and what it gives. -/
inductive Event
  | silent
  | closing
  | erased
  /-- `add_timer`, of a timer that is pending or not. -/
  | addTimer (pending : Bool)
  /-- `"sbull: timer sanity check failed"`. -/
  | insane
  /-- `sbull_transfer`, and what is in the buffer afterwards. -/
  | transfer (r : Transfer) (buffer : List UInt8)
  | ended (uptodate : Bool)
deriving DecidableEq, Repr

/-- The program points, each before the statement it names.  A process is `idle`, opens the disk,
has it `opened` and asks for requests, and releases it; a run of the timer starts and ends `idle`
too. -/
inductive Pc
  | idle
  -- `sbull_open`
  | openDel
  | openLock
  | openUsers
  | openChanged
  | openRevalidate
  | openErase
  | openIncr
  | openUnlock
  | openEnd
  /-- It is open. -/
  | opened
  -- `sbull_request`, `sbull_full_request`, `sbull_make_request`
  | reqLock (q : Request)
  | reqXfer (q : Request) (rs : List Transfer)
  | reqUnlock (q : Request)
  -- `sbull_release`
  | relLock
  | relDecr
  | relTest
  | relTimer
  | relUnlock
  | relEnd
  -- `sbull_invalidate`
  | invLock
  | invTest
  | invFlag
  | invUnlock
  | invEnd
deriving DecidableEq, Repr

/-! ### Statements -/

/-- `sbull_open`, statement by statement: the timer is deleted before the lock is taken, and the
process is counted after the disk was erased. -/
inductive OpenStep (c : Config) : SbullDev → Pc → Event → SbullDev → Pc → Prop
  | call {s : SbullDev} :
      (c.serial = true → s.sem = true) →
      OpenStep c s .idle .silent { s with sem := false } .openDel
  | del {s : SbullDev} :
      -- `del_timer_sync` waits for the timer if it runs
      s.running = 0 → OpenStep c s .openDel .silent { s with timer := false } .openLock
  | lock {s : SbullDev} :
      s.lock = true → OpenStep c s .openLock .silent { s with lock := false } .openUsers
  | first {s : SbullDev} : s.users = 0 → OpenStep c s .openUsers .silent s .openChanged
  | again {s : SbullDev} : s.users ≠ 0 → OpenStep c s .openUsers .silent s .openIncr
  | unchanged {s : SbullDev} :
      s.mediaChange = false → OpenStep c s .openChanged .silent s .openIncr
  | changed {s : SbullDev} :
      s.mediaChange = true → OpenStep c s .openChanged .silent s .openRevalidate
  | revalidate {s : SbullDev} :
      s.mediaChange = true →
      OpenStep c s .openRevalidate .silent { s with mediaChange := false } .openErase
  | valid {s : SbullDev} :
      s.mediaChange = false → OpenStep c s .openRevalidate .silent s .openIncr
  | erase {s : SbullDev} :
      OpenStep c s .openErase .erased
        { s with data := fun i => if i < c.size then 0 else s.data i } .openIncr
  | incr {s : SbullDev} :
      OpenStep c s .openIncr .silent { s with users := s.users + 1 } .openUnlock
  | unlock {s : SbullDev} : OpenStep c s .openUnlock .silent { s with lock := true } .openEnd
  | done {s : SbullDev} : OpenStep c s .openEnd .silent { s with sem := true } .opened

/-- `sbull_release`: the process is counted out, and the last one adds the timer while it has the
lock. -/
inductive ReleaseStep (c : Config) : SbullDev → Pc → Event → SbullDev → Pc → Prop
  | call {s : SbullDev} :
      (c.serial = true → s.sem = true) →
      ReleaseStep c s .opened .closing { s with sem := false } .relLock
  | lock {s : SbullDev} :
      s.lock = true → ReleaseStep c s .relLock .silent { s with lock := false } .relDecr
  | decr {s : SbullDev} :
      ReleaseStep c s .relDecr .silent { s with users := s.users - 1 } .relTest
  | last {s : SbullDev} : s.users = 0 → ReleaseStep c s .relTest .silent s .relTimer
  | more {s : SbullDev} : s.users ≠ 0 → ReleaseStep c s .relTest .silent s .relUnlock
  | timer {s : SbullDev} :
      ReleaseStep c s .relTimer (.addTimer s.timer) { s with timer := true } .relUnlock
  | unlock {s : SbullDev} : ReleaseStep c s .relUnlock .silent { s with lock := true } .relEnd
  | done {s : SbullDev} : ReleaseStep c s .relEnd .silent { s with sem := true } .idle

/-- `sbull_invalidate`, from the moment the kernel takes a pending timer up.  When `users` is not
zero or there is no data it says so and leaves the media as it is; the data of a disk that was set
up are never missing. -/
inductive InvalidateStep : SbullDev → Pc → Event → SbullDev → Pc → Prop
  | call {s : SbullDev} :
      s.timer = true →
      InvalidateStep s .idle .silent { s with timer := false, running := s.running + 1 } .invLock
  | lock {s : SbullDev} :
      s.lock = true → InvalidateStep s .invLock .silent { s with lock := false } .invTest
  | failed {s : SbullDev} : s.users ≠ 0 → InvalidateStep s .invTest .insane s .invUnlock
  | passed {s : SbullDev} : s.users = 0 → InvalidateStep s .invTest .silent s .invFlag
  | flag {s : SbullDev} :
      InvalidateStep s .invFlag .silent { s with mediaChange := true } .invUnlock
  | unlock {s : SbullDev} : InvalidateStep s .invUnlock .silent { s with lock := true } .invEnd
  | done {s : SbullDev} :
      InvalidateStep s .invEnd .silent { s with running := s.running - 1 } .idle

/-- A request is served: `sbull_request`, `sbull_full_request` or `sbull_make_request`.  The first
two are called with the lock of the queue, which is taken here for them, and the third without. -/
inductive RequestStep (c : Config) : SbullDev → Pc → Event → SbullDev → Pc → Prop
  | call {s : SbullDev} {q : Request} :
      q.mode = c.mode → RequestStep c s .opened .silent s (.reqLock q)
  | lock {s : SbullDev} {q : Request} :
      q.mode ≠ .noqueue → s.lock = true →
      RequestStep c s (.reqLock q) .silent { s with lock := false } (.reqXfer q q.transfers)
  | noLock {s : SbullDev} {q : Request} :
      q.mode = .noqueue → RequestStep c s (.reqLock q) .silent s (.reqXfer q q.transfers)
  | transfer {s : SbullDev} {q : Request} {r : Transfer} {rs : List Transfer} :
      RequestStep c s (.reqXfer q (r :: rs)) (.transfer r (r.run c s.data).2)
        { s with data := (r.run c s.data).1 } (.reqXfer q rs)
  | finished {s : SbullDev} {q : Request} :
      RequestStep c s (.reqXfer q []) (.ended q.uptodate) s (.reqUnlock q)
  | unlock {s : SbullDev} {q : Request} :
      q.mode ≠ .noqueue →
      RequestStep c s (.reqUnlock q) .silent { s with lock := true } .opened
  | noUnlock {s : SbullDev} {q : Request} :
      q.mode = .noqueue → RequestStep c s (.reqUnlock q) .silent s .opened

/-- A statement of a process, or of the timer.  Which process makes it is not said here, so all of
them run the same program. -/
inductive Step (c : Config) : SbullDev → Pc → Event → SbullDev → Pc → Prop
  | open_ {s s' : SbullDev} {k k' : Pc} {e : Event} :
      OpenStep c s k e s' k' → Step c s k e s' k'
  | release {s s' : SbullDev} {k k' : Pc} {e : Event} :
      ReleaseStep c s k e s' k' → Step c s k e s' k'
  | invalidate {s s' : SbullDev} {k k' : Pc} {e : Event} :
      InvalidateStep s k e s' k' → Step c s k e s' k'
  | request {s s' : SbullDev} {k k' : Pc} {e : Event} :
      RequestStep c s k e s' k' → Step c s k e s' k'

/-- The disk, and all that use it: any number of them, in any interleaving. -/
def sbull (c : Config) (ι : Type) : Threads ι SbullDev Pc Event where
  init s := ∃ data, s = .initial data
  start := .idle
  step _ := Step c

end LeipoCode.Sbull
