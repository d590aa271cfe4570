import LeipoCode.Pipe.Files

/-!
# The pipe is a queue

What the semaphore of `scull/pipe.c` protects: the buffer and the two positions in it.  While it is
free and somebody has the pipe open, the buffer is allocated, both positions are inside it, and
between them lie the bytes that were accepted and not delivered yet.  A thread inside knows more or
less than that, statement by statement (`Local`), and gives it back.

This holds as long as an open finds `scull_p_buffer` positive and not greater than the block that is
allocated already (`Fits`): `scull_p_open` takes over the value without looking at the block.

* `buffer_guarded` — the semaphore guards the buffer;
* `copies_inside` — no copy leaves the block, and the block is there;
* `runs_as_queue` — **the pipe is a queue**: what is read is what was written, in order.

### What is load-bearing

The queue is not read off the buffer.  It goes along with the run as what the events have made of it
(`enqueue`), and `Resource` says that the buffer stores it; that it is a queue, so that what is
delivered is in front of it, is then proved for each statement (`queueStep_of_reachable`) and not
put in.  An open makes it empty, since `scull_p_open` sets the positions anew.

The bytes between the positions are `RingBuffer.contents`, and what the copies and the moves of the
positions do to them are lemmas of that library.  Only `Ready` and the two counts are about this
driver: what `scull_p_read` and `scull_p_write` take is never more than the library allows for.

### What a statement has to show

`Local` is a table by program points: what an open has prepared, what a reader has seen and copied,
what a writer has room for and has put there.  For each statement of the five calls there is a
`SemStep` to show, from the line of the table before the statement to the one behind it; a statement
that takes the semaphore gets `Resource`, and one that gives it back has to restore it.  Between
`down` and `up` nobody else changes the buffer, and outside of it nothing is known but that the file
is open (`Opened`), which the file system sees to and which is why there is a buffer to find.

The copies are statements of their own, apart from the moves of the positions behind them.  A copy
that fails half-way has put bytes where nothing is stored, or has delivered what is still in the
buffer; in both cases the queue is as before, and the call returns with the positions unmoved.
-/

namespace LeipoCode.Pipe

open RingBuffer Threads

/-! ### The buffer -/

/-- The buffer is allocated with room for `n` bytes, and both positions are inside. -/
structure Ready (d : ScullPipe) (b : Block) (n : ℕ) : Prop where
  buffer : d.buffer = some b
  buffersize : d.buffersize = n
  last : d.last = n
  size : n ≤ b.size
  rp : d.rp < n
  wp : d.wp < n

section Positions

variable {d : ScullPipe} {b : Block} {n : ℕ}

/-- A difference that is not negative is what it is as a `size_t`, and keeps its bound. -/
theorem toSize_le {x : ℤ} {m : ℕ} (h : x ≤ m) (h0 : 0 ≤ x) : toSize x ≤ m := by
  unfold toSize
  omega

/-- **What `spacefree` computes** is the room that is left, less the one byte that is always kept
free. -/
theorem Ready.spacefree_eq (h : Ready d b n) : spacefree d = n - 1 - used n d.rp d.wp := by
  have hrp := h.rp
  have hwp := h.wp
  have hused := used_eq hrp hwp
  unfold spacefree
  rw [h.buffersize]
  split_ifs at hused ⊢ with heq hle hle
  · omega
  · omega
  · -- the free bytes go round the end
    rw [Int.tmod_eq_emod_of_nonneg (by omega), Int.emod_eq_of_lt (by omega) (by omega)]
    omega
  · rw [Int.tmod_eq_emod_of_nonneg (by omega), ← Int.sub_emod_right,
      Int.emod_eq_of_lt (by omega) (by omega)]
    omega

/-- So `spacefree` is never negative, as the writers take it for a count. -/
theorem Ready.spacefree_nonneg (h : Ready d b n) : 0 ≤ spacefree d := by
  have hused : used n d.rp d.wp < n := used_lt (Nat.zero_lt_of_lt h.rp)
  rw [h.spacefree_eq]
  omega

/-- `scull_p_read` stops at the end of the buffer, and at what is stored: it copies no byte that
nobody wrote. -/
theorem Ready.readCount_le (h : Ready d b n) (count : ℕ) (hne : d.rp ≠ d.wp) :
    d.rp + readCount d count ≤ n ∧ readCount d count ≤ used n d.rp d.wp := by
  have hrp := h.rp
  have hwp := h.wp
  have hused := used_eq hrp hwp
  have hlast : toSize (d.last - d.rp) ≤ n - d.rp :=
    toSize_le (by rw [h.last]; omega) (by rw [h.last]; omega)
  unfold readCount
  split_ifs at hused ⊢ <;> omega

/-- `scull_p_write` stops at the end of the buffer, and leaves one byte free: it copies over no byte
that nobody has read. -/
theorem Ready.writeCount_le (h : Ready d b n) (count : ℕ) :
    d.wp + writeCount d count ≤ n ∧ used n d.rp d.wp + writeCount d count < n := by
  have hrp := h.rp
  have hwp := h.wp
  have hused := used_eq hrp hwp
  have hlt : used n d.rp d.wp < n := used_lt (Nat.zero_lt_of_lt hrp)
  have hspace : toSize (spacefree d) ≤ n - 1 - used n d.rp d.wp :=
    toSize_le (by rw [h.spacefree_eq]; omega) h.spacefree_nonneg
  unfold writeCount
  split_ifs at hused ⊢ with hle
  · have hlast : toSize (d.last - d.wp) ≤ n - d.wp :=
      toSize_le (by rw [h.last]; omega) (by rw [h.last]; omega)
    omega
  · have hgap : toSize ((d.rp : ℤ) - d.wp - 1) ≤ d.rp - d.wp - 1 :=
      toSize_le (by omega) (by omega)
    omega

/-- A copy into the buffer leaves the positions where they are, so the buffer is in order as it was.
-/
theorem Ready.copyIn (h : Ready d b n) {p : ℕ} {bytes : List UInt8} :
    Ready (d.copyIn p bytes) { b with cells := store b.cells p bytes } n where
  buffer := by rw [ScullPipe.copyIn, h.buffer, Option.map_some]
  buffersize := h.buffersize
  last := h.last
  size := h.size
  rp := h.rp
  wp := h.wp

end Positions

/-! ### What is pending -/

/-- The bytes that are stored, from the read position to the write position. -/
def pending (d : ScullPipe) : List UInt8 :=
  (d.buffer.map fun b =>
    contents b.cells d.buffersize.toNat d.rp (used d.buffersize.toNat d.rp d.wp)).getD []

/-- A queue, and what the events do to it: what is accepted goes to its end, and what is delivered
is taken off its front, whatever is there. -/
def enqueue (queue : List UInt8) : Event → List UInt8
  | .accept bytes => queue ++ bytes
  | .deliver bytes => queue.drop bytes.length
  | .reset => []
  | .silent | .copyOut _ _ | .copyIn _ _ | .ioctl _ | .returned _ => queue

/-- A queue as it ought to be: what is delivered is what is in front.  This is the specification. -/
inductive QueueStep : List UInt8 → Event → List UInt8 → Prop
  | accept {queue bytes : List UInt8} : QueueStep queue (.accept bytes) (queue ++ bytes)
  | deliver {queue bytes : List UInt8} : QueueStep (bytes ++ queue) (.deliver bytes) queue
  | reset {queue : List UInt8} : QueueStep queue .reset []
  | silent {queue : List UInt8} : QueueStep queue .silent queue
  | copyOut {queue : List UInt8} {p k : ℕ} : QueueStep queue (.copyOut p k) queue
  | copyIn {queue : List UInt8} {p k : ℕ} : QueueStep queue (.copyIn p k) queue
  | ioctl {queue : List UInt8} {size : ℤ} : QueueStep queue (.ioctl size) queue
  | returned {queue : List UInt8} {r : Result} : QueueStep queue (.returned r) queue

/-- An empty queue, and its runs: bytes go in behind and come out in front, and a reset drops them
all.  This is the specification. -/
def fifo : LTS (List UInt8) Event where
  init queue := queue = []
  step := QueueStep

/-- The pipe is set up, and stores the queue from the read position on, going round. -/
def Stored (d : ScullPipe) (queue : List UInt8) : Prop :=
  ∃ b n, Ready d b n ∧ queue = contents b.cells n d.rp (used n d.rp d.wp)

/-- What is stored is the queue: it can be read off the buffer and its positions. -/
theorem Stored.eq_pending {d : ScullPipe} {queue : List UInt8} (h : Stored d queue) :
    queue = pending d := by
  obtain ⟨b, n, hready, rfl⟩ := h
  rw [pending, hready.buffer, hready.buffersize, Int.toNat_natCast, Option.map_some,
    Option.getD_some]

/-- What `Stored` depends on: the rest of the device may change without it. -/
def ScullPipe.ring (d : ScullPipe) : Option Block × ℤ × ℤ × ℕ × ℕ :=
  (d.buffer, d.buffersize, d.last, d.rp, d.wp)

/-- What is stored depends on the ring only: the semaphore, the counters and what is outside the
block do not matter. -/
theorem Stored.congr {d d' : ScullPipe} {queue : List UInt8} (h : Stored d queue)
    (hring : d'.ring = d.ring) : Stored d' queue := by
  obtain ⟨b, n, hready, hqueue⟩ := h
  simp only [ScullPipe.ring, Prod.mk.injEq] at hring
  obtain ⟨hbuffer, hsize, hlast, hrp, hwp⟩ := hring
  refine ⟨b, n, ⟨?_, ?_, ?_, hready.size, ?_, ?_⟩, ?_⟩
  · rw [hbuffer, hready.buffer]
  · rw [hsize, hready.buffersize]
  · rw [hlast, hready.last]
  · rw [hrp]
    exact hready.rp
  · rw [hwp]
    exact hready.wp
  · rw [hrp, hwp, hqueue]

/-! ### What the semaphore guards -/

section Guard

variable {ι φ : Type}

/-- Between `down` and `up`: the statements that may look at the buffer. -/
def Pc.inside : Pc φ → Bool
  | openBuffer _ | openNoMem _ | openSize _ | openEnd _ | openWp _ | openRp _ | openCount _
  | openUp _ | readTest _ _ | readRelease _ _ | readCopy _ _ | readFault _ | readAdvance _ _
  | readWrap _ _ | readUp _ _ | writeSpace _ _ | writeRelease _ _ | writeCopy _ _ | writeFault _
  | writeAdvance _ _ | writeWrap _ _ | writeUp _ _ | releaseCount _ | releaseFree _ | releaseUp _
  | pollTest _ | pollUp _ _ _ => true
  | idle | openDown _ | readDown _ _ | readBlock _ _ | readPrepare _ _ | readCheck _ _
  | readSleep _ _ | readWake _ _ | writeDown _ _ | writeBlock _ _ | writePrepare _ _
  | writeCheck _ _ | writeSleep _ _ | writeFinish _ _ | writeWake _ _ | releaseDown _
  | pollDown _ => false

/-- What holds while the semaphore is free: if the pipe is open, it stores the queue.  A pipe that
nobody has open has no buffer. -/
def Resource (d : ScullPipe) (queue : List UInt8) : Prop :=
  0 < d.nreaders + d.nwriters → Stored d queue

/-- It goes on to hold when nothing of the buffer changes and nobody opens the pipe. -/
theorem Resource.congr {d d' : ScullPipe} {queue : List UInt8} (h : Resource d queue)
    (hring : d'.ring = d.ring)
    (hopen : d'.nreaders + d'.nwriters ≤ d.nreaders + d.nwriters) : Resource d' queue :=
  fun hpos => (h (lt_of_lt_of_le hpos hopen)).congr hring

/-- What the thread inside may rely on.  An open relies on the size it has set, a read or a write on
the queue being stored, with the bytes that it has copied and not yet moved its position over. -/
def Local (d : ScullPipe) (queue : List UInt8) : Pc φ → Prop
  | .openSize _ => ∃ b, d.buffer = some b
  | .openEnd _ =>
      queue = [] ∧ ∃ b, ∃ n : ℕ, d.buffer = some b ∧ d.buffersize = n ∧ n ≤ b.size ∧ 0 < n
  | .openWp _ =>
      queue = [] ∧
        ∃ b, ∃ n : ℕ, d.buffer = some b ∧ d.buffersize = n ∧ d.last = n ∧ n ≤ b.size ∧ 0 < n
  | .openRp _ =>
      queue = [] ∧ d.wp = 0 ∧
        ∃ b, ∃ n : ℕ, d.buffer = some b ∧ d.buffersize = n ∧ d.last = n ∧ n ≤ b.size ∧ 0 < n
  | .openCount _ | .openUp _ => Stored d queue
  | .readTest _ _ | .readRelease _ _ | .readFault _ | .readUp _ _ => Stored d queue
  | .readCopy _ _ => Stored d queue ∧ d.rp ≠ d.wp
  | .readAdvance _ bytes => ∃ b n, Ready d b n ∧
      queue = contents b.cells n d.rp (used n d.rp d.wp) ∧ d.rp + bytes.length ≤ n ∧
      bytes.length ≤ used n d.rp d.wp ∧ bytes = slice b.cells d.rp bytes.length
  | .readWrap _ _ => ∃ b n, Ready { d with rp := d.rp % n } b n ∧ d.rp ≤ n ∧
      queue = contents b.cells n (d.rp % n) (used n (d.rp % n) d.wp)
  | .writeSpace _ _ | .writeRelease _ _ | .writeCopy _ _ | .writeFault _ | .writeUp _ _ =>
      Stored d queue
  | .writeAdvance _ bytes => ∃ b n, Ready d b n ∧ d.wp + bytes.length ≤ n ∧
      used n d.rp d.wp + bytes.length < n ∧
      queue ++ bytes = contents b.cells n d.rp (used n d.rp d.wp + bytes.length)
  | .writeWrap _ _ => ∃ b n, Ready { d with wp := d.wp % n } b n ∧ d.wp ≤ n ∧
      queue = contents b.cells n d.rp (used n d.rp (d.wp % n))
  | _ => Resource d queue

/-- The pipe under that condition, with the queue it stores as a history beside its state. -/
def queuedPipe (ι φ : Type) [DecidableEq ι] [DecidableEq φ] :
    Threads ι (Shared ι φ × List UInt8) (Pc φ) Event :=
  ((pipe ι φ).restrict Fits).track enqueue []

/-- A call that reads or writes finds the pipe open.  This is what a thread knows on its own, from
the file system. -/
def Opened (k : Pc φ) (s : Shared ι φ × List UInt8) : Prop :=
  ∀ f g, k.role = .calling f (some g) → 0 < s.1.dev.nreaders + s.1.dev.nwriters

/-- What a statement does about the semaphore, in the sense of `LockStep`: the semaphore guards that
the pipe stores the queue. -/
abbrev SemStep (s : Shared ι φ × List UInt8) (k : Pc φ) (s' : Shared ι φ × List UInt8)
    (k' : Pc φ) : Prop :=
  LockStep (fun s => s.1.dev.sem) Pc.inside (fun s => Resource s.1.dev s.2)
    (fun k s => Local s.1.dev s.2 k) s k s' k'

variable {t : ι} {s s' : Shared ι φ} {k k' : Pc φ} {e : Event} {queue : List UInt8}

/-- A statement without the semaphore that leaves the device alone keeps what the semaphore guards.
-/
theorem semStep_outside (hk : k.inside = false) (hk' : k'.inside = false)
    (hdev : s'.dev = s.dev) : SemStep (s, queue) k (s', queue) k' :=
  .outside hk hk' (by rw [hdev]) (fun hR => by rwa [hdev]) (fun j _ hL => by rwa [hdev])

variable [DecidableEq φ]

/-- `scull_p_open` sets up an empty buffer, of a size that fits the block (`hfits`), and then counts
the file. -/
theorem OpenStep.sem (h : OpenStep t s k e s' k') (hfits : Fits s k e) :
    SemStep (s, queue) k (s', enqueue queue e) k' := by
  cases h with
  | call | interrupted => exact semStep_outside rfl rfl rfl
  | down hfree => exact .enter rfl rfl hfree rfl fun hR => hR.congr rfl le_rfl
  | present hbuffer => exact .within rfl rfl rfl fun _ => ⟨_, hbuffer⟩
  | kmalloc => exact .within rfl rfl rfl fun _ => ⟨_, rfl⟩
  | noMem => exact .within rfl rfl rfl id
  | noMemUp => exact .leave rfl rfl rfl fun hR => Resource.congr hR rfl le_rfl
  | size =>
      refine .within rfl rfl rfl fun ⟨b, hb⟩ => ⟨rfl, b, s.scullPBuffer.toNat, hb, ?_⟩
      obtain ⟨hpos, hsize⟩ := hfits rfl
      have hle := hsize b hb
      exact ⟨(Int.toNat_of_nonneg hpos.le).symm, by omega, by omega⟩
  | last =>
      refine .within rfl rfl rfl fun ⟨hqueue, b, n, hb, hn, hsize, hpos⟩ => ?_
      exact ⟨hqueue, b, n, hb, hn, hn, hsize, hpos⟩
  | wp =>
      refine .within rfl rfl rfl fun ⟨hqueue, hrest⟩ => ⟨hqueue, rfl, hrest⟩
  | rp =>
      refine .within rfl rfl rfl fun ⟨hqueue, hwp, b, n, hb, hn, hlast, hsize, hpos⟩ => ?_
      refine ⟨b, n, ⟨hb, hn, hlast, hsize, hpos, ?_⟩, ?_⟩
      · exact hwp ▸ hpos
      · change queue = contents b.cells n 0 (used n 0 s.dev.wp)
        have hempty : queue = [] := hqueue
        have hstart : s.dev.wp = 0 := hwp
        rw [hempty, hstart, used_self]
        rfl
  | count =>
      refine .within rfl rfl rfl fun ⟨b, n, hready, hqueue⟩ => ?_
      exact ⟨b, n, ⟨hready.1, hready.2, hready.3, hready.4, hready.5, hready.6⟩, hqueue⟩
  | up => exact .leave rfl rfl rfl fun hstored _ => Stored.congr hstored rfl

/-- `scull_p_release` frees the buffer only when nobody has the pipe open, and what is in it is lost
with it. -/
theorem ReleaseStep.sem (h : ReleaseStep t s k e s' k') :
    SemStep (s, queue) k (s', enqueue queue e) k' := by
  cases h with
  | call => exact semStep_outside rfl rfl rfl
  | down hfree => exact .enter rfl rfl hfree rfl fun hR => hR.congr rfl le_rfl
  | @count f =>
      refine .within rfl rfl rfl fun hR => Resource.congr hR rfl ?_
      change s.dev.nreaders - _ + (s.dev.nwriters - _) ≤ s.dev.nreaders + s.dev.nwriters
      have hread := Int.natCast_nonneg (s.files.has f Flags.read).toNat
      have hwrite := Int.natCast_nonneg (s.files.has f Flags.write).toNat
      omega
  | kfree hzero => exact .within rfl rfl rfl fun _ hpos => absurd hzero hpos.ne'
  | keep => exact .within rfl rfl rfl id
  | up => exact .leave rfl rfl rfl fun hR => Resource.congr hR rfl le_rfl

/-- `scull_p_poll` takes the semaphore and looks at the positions, and changes nothing. -/
theorem PollStep.sem (h : PollStep t s k e s' k') :
    SemStep (s, queue) k (s', enqueue queue e) k' := by
  cases h with
  | call => exact semStep_outside rfl rfl rfl
  | down hfree => exact .enter rfl rfl hfree rfl fun hR => hR.congr rfl le_rfl
  | test => exact .within rfl rfl rfl id
  | up => exact .leave rfl rfl rfl fun hR => Resource.congr hR rfl le_rfl

variable [DecidableEq ι]

/-- `scull_p_read` copies what is in front of the queue, and then moves over it. -/
theorem ReadStep.sem (h : ReadStep t s k e s' k') (hopened : Opened k (s, queue)) :
    SemStep (s, queue) k (s', enqueue queue e) k' := by
  cases h with
  | call | interrupted | again | block | prepare | checkTrue | checkFalse | awake | signalled
  | signal | wake => exact semStep_outside rfl rfl rfl
  | down hfree => exact .enter rfl rfl hfree rfl fun hR => (hR (hopened _ _ rfl)).congr rfl
  | empty => exact .within rfl rfl rfl id
  | data hne => exact .within rfl rfl rfl fun hstored => ⟨hstored, hne⟩
  | release | faultUp | up => exact .leave rfl rfl rfl fun hstored _ => Stored.congr hstored rfl
  | @copy f count =>
      refine .within rfl rfl rfl fun ⟨⟨b, n, hready, hqueue⟩, hne⟩ => ?_
      have hcopy : s.dev.copyOut s.dev.rp (readCount s.dev count) =
          slice b.cells s.dev.rp (readCount s.dev count) := by
        rw [ScullPipe.copyOut, hready.buffer, Option.map_some, Option.getD_some]
      obtain ⟨hend, hused⟩ := hready.readCount_le count hne
      exact ⟨b, n, hready, hqueue, by simpa [hcopy] using hend, by simpa [hcopy] using hused,
        by simp [hcopy]⟩
  | fault => exact .within rfl rfl rfl fun ⟨hstored, _⟩ => hstored
  | @advance f bytes =>
      refine .within rfl rfl rfl fun ⟨b, n, hready, hqueue, hend, hused, hbytes⟩ => ?_
      have hlt : (s.dev.rp + bytes.length) % n < n := Nat.mod_lt _ (Nat.zero_lt_of_lt hready.rp)
      refine ⟨b, n, ⟨hready.1, hready.2, hready.3, hready.4, hlt, hready.6⟩, hend, ?_⟩
      change queue.drop bytes.length = _
      rw [used_read hready.rp hready.wp hused, contents_advance hused]
      exact congrArg _ hqueue
  | wrap =>
      refine .within rfl rfl rfl fun ⟨b, n, hready, hle, hqueue⟩ => ?_
      have hmod : (if (s.dev.rp : ℤ) = s.dev.last then 0 else s.dev.rp) = s.dev.rp % n := by
        rw [← wrap_eq_mod hle, show s.dev.last = n from hready.last]
        simp only [Int.natCast_inj]
      simp only [Local, hmod]
      exact ⟨b, n, hready, hqueue⟩

/-- `scull_p_write` copies into the free part, and then moves over what it has copied. -/
theorem WriteStep.sem (h : WriteStep t s k e s' k') (hopened : Opened k (s, queue)) :
    SemStep (s, queue) k (s', enqueue queue e) k' := by
  cases h with
  | call | interrupted | again | block | prepare | checkTrue | checkFalse | awake | signal
  | finish | wake => exact semStep_outside rfl rfl rfl
  | down hfree => exact .enter rfl rfl hfree rfl fun hR => (hR (hopened _ _ rfl)).congr rfl
  | full | space => exact .within rfl rfl rfl id
  | release | faultUp | up => exact .leave rfl rfl rfl fun hstored _ => Stored.congr hstored rfl
  | @copy f data =>
      refine .within rfl rfl rfl fun ⟨b, n, hready, hqueue⟩ => ?_
      obtain ⟨hend, hfits⟩ := hready.writeCount_le data.length
      have hlen := List.length_take_le (writeCount s.dev data.length) data
      refine ⟨_, n, hready.copyIn, (Nat.add_le_add_left hlen _).trans hend,
        (Nat.add_le_add_left hlen _).trans_lt hfits, ?_⟩
      exact (congrArg (· ++ _) hqueue).trans
        (contents_store hready.rp (add_used_mod hready.rp hready.wp)
          ((Nat.add_le_add_left hlen _).trans hend)
          ((Nat.add_le_add_left hlen _).trans hfits.le)).symm
  | @fault f data j hj =>
      refine .within rfl rfl rfl fun ⟨b, n, hready, hqueue⟩ => ?_
      obtain ⟨hend, hfits⟩ := hready.writeCount_le data.length
      have hlen : (data.take j).length ≤ writeCount s.dev data.length :=
        (List.length_take_le j data).trans hj.le
      refine ⟨_, n, hready.copyIn, hqueue.trans ?_⟩
      exact (contents_store_free hready.rp (add_used_mod hready.rp hready.wp)
        ((Nat.add_le_add_left hlen _).trans hfits.le)).symm
  | @advance f bytes =>
      refine .within rfl rfl rfl fun ⟨b, n, hready, hend, hused, hqueue⟩ => ?_
      have hlt : (s.dev.wp + bytes.length) % n < n := Nat.mod_lt _ (Nat.zero_lt_of_lt hready.wp)
      refine ⟨b, n, ⟨hready.1, hready.2, hready.3, hready.4, hready.5, hlt⟩, hend, ?_⟩
      rw [used_write hready.rp hready.wp hused]
      exact hqueue
  | wrap =>
      refine .within rfl rfl rfl fun ⟨b, n, hready, hle, hqueue⟩ => ?_
      have hmod : (if (s.dev.wp : ℤ) = s.dev.last then 0 else s.dev.wp) = s.dev.wp % n := by
        rw [← wrap_eq_mod hle, show s.dev.last = n from hready.last]
        simp only [Int.natCast_inj]
      simp only [Local, hmod]
      exact ⟨b, n, hready, hqueue⟩

/-- **The semaphore guards the buffer**, in the sense of `Lib.Threads`: free, the buffer holds what
is pending; taken, one thread may rely on what `Local` says of its program point. -/
theorem buffer_guarded : Guarded (queuedPipe ι φ) (fun _ => Opened) (fun s => s.1.dev.sem) Pc.inside
    (fun s => Resource s.1.dev s.2) (fun k s => Local s.1.dev s.2 k) where
  start := rfl
  init := by
    rintro ⟨s, queue⟩ ⟨hs, -⟩
    have hs : s = .initial := hs
    subst hs
    exact ⟨rfl, fun hpos => absurd hpos (lt_irrefl 0)⟩
  step := by
    rintro t ⟨s, queue⟩ k e ⟨s', queue'⟩ k' ⟨⟨hfits, hstep⟩, hqueue⟩ hopened
    have hqueue : queue' = enqueue queue e := hqueue
    subst hqueue
    cases hstep with
    | open_ h => exact h.sem hfits
    | read h => exact h.sem hopened
    | write h => exact h.sem hopened
    | release h => exact h.sem
    | poll h => exact h.sem
    | ioctl => exact semStep_outside rfl rfl rfl

end Guard

section Results

variable {ι φ : Type} [DecidableEq ι] [DecidableEq φ]

/-- So in every reachable state one thread at most is inside, with what it may rely on, and without
one the pipe stores the queue. -/
theorem buffer_held {s : State ι (Shared ι φ × List UInt8) (Pc φ)}
    (h : (queuedPipe ι φ).lts.Reachable s) :
    Held (fun s => s.1.dev.sem) Pc.inside (fun s => Resource s.1.dev s.2)
      (fun k s => Local s.1.dev s.2 k) s := by
  refine buffer_guarded.held (fun s hs t f g hrole => ?_) h
  exact opened_of_calling (Reachable.of_restrict (Reachable.of_track hs)) (t := t) hrole

section Statements

variable {t : ι} {s s' : Shared ι φ} {k k' : Pc φ} {bytes : List UInt8} {p c : ℕ}

/-- Bytes are delivered at the statement that moves the read position, and at no other. -/
theorem Step.of_deliver (h : Step t s k (.deliver bytes) s' k') :
    ∃ f, k = .readAdvance f bytes := by
  cases h with
  | read h =>
      cases h with
      | advance => exact ⟨_, rfl⟩
  | open_ h | write h | release h | poll h => cases h

/-- A copy to user space is from the read position on, and as long as `readCount` says. -/
theorem Step.of_copyOut (h : Step t s k (.copyOut p c) s' k') :
    ∃ f count, k = .readCopy f count ∧ p = s.dev.rp ∧ c = readCount s.dev count := by
  cases h with
  | read h =>
      cases h with
      | copy | fault => exact ⟨_, _, rfl, rfl, rfl⟩
  | open_ h | write h | release h | poll h => cases h

/-- A copy from user space is to the write position, and as long as `writeCount` says. -/
theorem Step.of_copyIn (h : Step t s k (.copyIn p c) s' k') :
    ∃ f data, k = .writeCopy f data ∧ p = s.dev.wp ∧ c = writeCount s.dev data.length := by
  cases h with
  | write h =>
      cases h with
      | copy | fault => exact ⟨_, _, rfl, rfl, rfl⟩
  | open_ h | read h | release h | poll h => cases h

end Statements

/-- In every reachable state, each statement treats what is pending as a queue. -/
theorem queueStep_of_reachable {s s' : State ι (Shared ι φ × List UInt8) (Pc φ)} {l : ι × Event}
    (h : (queuedPipe ι φ).lts.Reachable s) (hstep : (queuedPipe ι φ).lts.step s l s') :
    QueueStep s.shared.2 l.2 s'.shared.2 := by
  obtain ⟨k', ⟨⟨-, hk'⟩, hqueue⟩, -⟩ := hstep
  obtain ⟨t, e⟩ := l
  rw [hqueue]
  cases e with
  | silent => exact .silent
  | copyOut => exact .copyOut
  | copyIn => exact .copyIn
  | accept => exact .accept
  | reset => exact .reset
  | ioctl => exact .ioctl
  | returned => exact .returned
  | deliver bytes =>
      obtain ⟨f, hk⟩ := Step.of_deliver hk'
      obtain ⟨-, hlocal, -⟩ := (buffer_held h).of_inside (t := t) (by rw [hk]; rfl)
      rw [hk] at hlocal
      obtain ⟨b, n, hready, hcontents, hend, hused, hbytes⟩ := hlocal
      have hfront : bytes ++ s.shared.2.drop bytes.length = s.shared.2 := by
        have htake : slice b.cells s.shared.1.dev.rp bytes.length = _ := slice_eq_take hend hused
        rw [← hbytes, ← hcontents] at htake
        nth_rewrite 1 [htake]
        exact List.take_append_drop _ _
      change QueueStep s.shared.2 _ (s.shared.2.drop bytes.length)
      nth_rewrite 1 [← hfront]
      exact .deliver

/-- **Every copy is inside the block**, which is there, and the thread that copies is alone with the
semaphore.  The run is one in which every open finds a size that fits (`Fits`); nothing is asked of
the calls, the signals or the copies that fail. -/
theorem copies_inside {s s' : State ι (Shared ι φ) (Pc φ)} {l : ι × Event} {p c : ℕ}
    (h : ((pipe ι φ).restrict Fits).lts.Reachable s)
    (hstep : ((pipe ι φ).restrict Fits).lts.step s l s')
    (hcopy : l.2 = .copyOut p c ∨ l.2 = .copyIn p c) :
    (∃ b, s.shared.dev.buffer = some b ∧ p + c ≤ b.size) ∧ s.shared.dev.sem = false ∧
      ∀ u, u ≠ l.1 → (s.pc u).inside = false := by
  obtain ⟨queue, hqueued⟩ : ∃ queue, (queuedPipe ι φ).lts.Reachable ⟨(s.shared, queue), s.pc⟩ :=
    Reachable.track h
  obtain ⟨t, e⟩ := l
  obtain ⟨k', ⟨-, hk'⟩, -⟩ := hstep
  rcases hcopy with he | he <;> rw [he] at hk'
  · obtain ⟨f, count, hk, rfl, rfl⟩ := Step.of_copyOut hk'
    obtain ⟨htaken, hlocal, halone⟩ := (buffer_held hqueued).of_inside (t := t) (by rw [hk]; rfl)
    rw [hk] at hlocal
    obtain ⟨⟨b, n, hready, -⟩, hne⟩ := hlocal
    exact ⟨⟨b, hready.buffer, (hready.readCount_le count hne).1.trans hready.size⟩, htaken, halone⟩
  · obtain ⟨f, data, hk, rfl, rfl⟩ := Step.of_copyIn hk'
    obtain ⟨htaken, hlocal, halone⟩ := (buffer_held hqueued).of_inside (t := t) (by rw [hk]; rfl)
    rw [hk] at hlocal
    obtain ⟨b, n, hready, -⟩ := hlocal
    have hinside := (hready.writeCount_le data.length).1.trans hready.size
    exact ⟨⟨b, hready.buffer, hinside⟩, htaken, halone⟩

/-- A byte is written to the pipe just opened, at the start of its buffer. -/
theorem copies_inside_write : ∃ (s s' : State Unit (Shared Unit Unit) (Pc Unit)) (p c : ℕ),
    ((pipe Unit Unit).restrict Fits).lts.step s ((), .copyIn p c) s' ∧
      (∃ b, s.shared.dev.buffer = some b ∧ p + c ≤ b.size) ∧ s.shared.dev.sem = false ∧
        ∀ u, u ≠ () → (s.pc u).inside = false := by
  obtain ⟨es, s, hopen, hdev, -, hfile⟩ := opened_run (n := 4000) (fun _ _ _ h _ => h) (by decide)
  have hwrite := hopen
    |>.next (Step.fits (.write (@WriteStep.call Unit Unit _ _ () s () _ [7] hfile rfl rfl))
      (by simp))
    |>.next (Step.fits (.write (.down (congrArg ScullPipe.sem hdev))) (by simp))
    |>.next (Step.fits (.write (.space ((congrArg spacefree hdev).trans_ne (by decide))))
      (by simp))
  have hreach := hwrite.reachable rfl
  have hcopy := step_of (T := (pipe Unit Unit).restrict Fits) (fun _ => .idle)
    (Step.fits (.write (@WriteStep.copy Unit Unit _ _ () ((s.enter ()).setSem false) () [7]))
      (by simp))
  exact ⟨_, _, _, _, hcopy, copies_inside hreach hcopy (.inr rfl)⟩

/-- **The pipe is a queue**: what its threads do, in any order, a queue does that delivers what was
accepted, in order.  Whenever the semaphore is free and the pipe is open, the queue is what lies in
the buffer, and `spacefree` says what else fits.  The run is one of `copies_inside`: with a size
that does not fit, what is stored past the block is not found again. -/
theorem runs_as_queue {s₀ s : State ι (Shared ι φ) (Pc φ)} {ls : List (ι × Event)}
    (hinit : (pipe ι φ).lts.init s₀) (h : ((pipe ι φ).restrict Fits).lts.Run s₀ ls s) :
    ∃ queue, fifo.Run [] (ls.map Prod.snd) queue ∧
      (s.shared.dev.sem = true → 0 < s.shared.dev.nreaders + s.shared.dev.nwriters →
        pending s.shared.dev = queue ∧
          spacefree s.shared.dev = s.shared.dev.buffersize - 1 - queue.length) := by
  have hrun : (queuedPipe ι φ).lts.Run ⟨(s₀.shared, []), s₀.pc⟩ ls
      ⟨(s.shared, (ls.map Prod.snd).foldl enqueue []), s.pc⟩ := run_track h []
  have hall : fifo.Run [] (ls.map Prod.snd) ((ls.map Prod.snd).foldl enqueue []) ∧
      (queuedPipe ι φ).lts.Reachable
        ⟨(s.shared, (ls.map Prod.snd).foldl enqueue []), s.pc⟩ := by
    refine hrun.invariant_trace (I := fun ls st => fifo.Run [] (ls.map Prod.snd) st.shared.2 ∧
      (queuedPipe ι φ).lts.Reachable st) ?_ ?_
    · exact ⟨.nil, .init ⟨⟨hinit.1, rfl⟩, hinit.2⟩⟩
    · rintro ls l st st' ⟨hqueue, hreach⟩ hstep
      rw [List.map_append]
      exact ⟨hqueue.snoc (queueStep_of_reachable hreach hstep), hreach.step hstep⟩
  generalize (ls.map Prod.snd).foldl enqueue [] = queue at hall
  refine ⟨queue, hall.1, fun hfree hopen => ?_⟩
  have hstored : Stored s.shared.dev queue := ((buffer_held hall.2).of_free hfree).1 hopen
  refine ⟨hstored.eq_pending.symm, ?_⟩
  obtain ⟨b, n, hready, hqueue⟩ := hstored
  rw [hready.spacefree_eq, hready.buffersize, hqueue, length_contents]

/-- A thread opens the pipe and writes a byte, which is in the queue from then on. -/
theorem runs_as_queue_write : ∃ (ls : List (Unit × Event)) (s : State Unit (Shared Unit Unit)
    (Pc Unit)) (queue : List UInt8), ((), .accept [7]) ∈ ls ∧ fifo.Run [] (ls.map Prod.snd) queue ∧
      (s.shared.dev.sem = true → 0 < s.shared.dev.nreaders + s.shared.dev.nwriters →
        pending s.shared.dev = queue ∧
          spacefree s.shared.dev = s.shared.dev.buffersize - 1 - queue.length) := by
  obtain ⟨es, s, hopen, hdev, -, hfile⟩ := opened_run (n := 4000) (fun _ _ _ h _ => h) (by decide)
  have hwrite := hopen
    |>.next (Step.fits (.write (@WriteStep.call Unit Unit _ _ () s () _ [7] hfile rfl rfl))
      (by simp))
    |>.next (Step.fits (.write (.down (congrArg ScullPipe.sem hdev))) (by simp))
    |>.next (Step.fits (.write (.space ((congrArg spacefree hdev).trans_ne (by decide))))
      (by simp))
    |>.next (Step.fits (.write .copy) (by simp))
    |>.next (Step.fits (.write .advance) (by simp))
    |>.next (Step.fits (.write .wrap) (by simp))
    |>.next (Step.fits (.write .up) (by simp))
    |>.next (Step.fits (.write .wake) (by simp))
  obtain ⟨queue, hqueue⟩ := runs_as_queue (by exact ⟨rfl, fun _ => rfl⟩) hwrite.run_start
  refine ⟨_, _, queue, ?_, hqueue⟩
  have hbytes : [(7 : UInt8)].take (writeCount ((s.enter ()).setSem false).dev 1) = [7] := by
    have hcount : writeCount s.dev 1 = 1 := by rw [hdev]; decide
    exact congrArg (List.take · [(7 : UInt8)]) hcount
  simp [hbytes]

end Results

end LeipoCode.Pipe
