import LeipoCode.Lib.WaitQueue
import LeipoCode.Pipe.Buffer

/-!
# Nobody sleeps for nothing

The two wait queues of `scull/pipe.c`.  Readers sleep on `inq` while the buffer is empty, and
writers on `outq` while it is full; both look at the positions without the semaphore, and so in
every state in between.

* `reader_sleeps` — a reader that sleeps finds the buffer empty, or a thread is about to wake it;
* `writer_sleeps` — the same for writers, if nobody waits to write while an open sets the buffer up:
  the open empties a full buffer, and wakes nobody;
* `not_both_asleep` — a reader and a writer never sleep for each other.

Both are about runs in which an open finds a size that fits (`Fits`), as in `Buffer`.  For the
readers this is a matter of the invariant only, that the thread at work knows the buffer (`Knows`);
for the writers it decides what `spacefree` says.

A thread **owes** a wake-up from the statement that has moved a position to the one that wakes the
queue.  That the write position has moved to the end of the buffer, and not yet to its start, is a
state that those who sleep can see: a reader finds the buffer not empty then, whatever it was
before, and for a writer it is as full as it will be (`spacefree_wrap`).

### How it is shown

For each queue there is one step lemma for each of the five calls (`ReaderStep`, `WriterStep`), in
the form that `Lib.WaitQueue` asks for: a statement that lets a thread go to sleep has seen on the
queue what it sleeps for, and one that changes the positions leaves what the sleepers wait for as it
is, or owes a wake-up from then on.  A thread goes onto the queue first, looks at the positions
again, and sleeps if it finds nothing; a wake-up in between takes it off the queue, and it does not
sleep then.

What a thread at work knows of the buffer (`Knows`) is used where it moves a position: then it can
be said whether those who sleep still do so rightly.
-/

namespace LeipoCode.Pipe

open RingBuffer Threads

variable {ι φ : Type} [DecidableEq ι] [DecidableEq φ]

/-- Nobody waits to write while an open sets the buffer up.  It is asked of the three statements
that could make room. -/
def NobodyWaits (s : Shared ι φ) : Pc φ → Prop
  | .openSize _ | .openWp _ | .openRp _ => ∀ u, s.outq u = false
  | _ => True

/-- The thread at work knows the buffer, if it has the semaphore: what `Local` says of its program
point. -/
def Knows (k : Pc φ) (s : Shared ι φ × List UInt8) : Prop :=
  k.inside = true → Local s.1.dev s.2 k

/-! ### Readers -/

/-- A reader in `wait_event_interruptible`, who has seen an empty buffer while on the queue. -/
def Pc.readerSleeps : Pc φ → Bool
  | readSleep _ _ => true
  | _ => false

/-- About to wake the readers, or to make the buffer empty again: an open that has set the write
position sets the read position next. -/
def Pc.readerOwes : Pc φ → Bool
  | openRp _ | writeWrap _ _ | writeUp _ _ | writeWake _ _ => true
  | _ => false

section Readers

variable {t : ι} {s s' : Shared ι φ} {k k' : Pc φ} {e : Event} {queue queue' : List UInt8}

/-- What a statement does about the readers: none of those that sleep is left with bytes to read,
unless somebody owes a wake-up. -/
abbrev ReaderStep (t : ι) (s : Shared ι φ × List UInt8) (k : Pc φ)
    (s' : Shared ι φ × List UInt8) (k' : Pc φ) : Prop :=
  WaitStep (fun s => s.1.inq) Pc.readerSleeps (fun k _ => k.readerOwes = true)
    (fun _ s => s.1.dev.rp = s.1.dev.wp) (fun _ _ => True) t s k s' k'

omit [DecidableEq ι] in
/-- An open empties the buffer, so a reader that sleeps does so rightly; in between it owes. -/
theorem OpenStep.reader (h : OpenStep t s k e s' k') (hK : Knows k (s, queue)) :
    ReaderStep t (s, queue) k (s', queue') k' := by
  cases h with
  | call | interrupted | down | present | kmalloc | noMem | noMemUp | size | last | count | up =>
      exact .idle rfl rfl (fun u _ => id) fun u _ => id
  | wp => exact .owing rfl rfl fun u _ => id
  | rp =>
      obtain ⟨-, hwp, -⟩ := hK rfl
      exact .paid rfl (fun u _ => id) fun _ _ _ _ _ => hwp.symm

/-- A reader goes to sleep on an empty buffer, and other readers only make it emptier. -/
theorem ReadStep.reader (h : ReadStep t s k e s' k') (hK : Knows k (s, queue)) :
    ReaderStep t (s, queue) k (s', queue') k' := by
  cases h with
  | call | interrupted | down | empty | data | release | again | block | awake | signalled | copy
  | fault | faultUp | up | wake =>
      exact .idle rfl rfl (fun u _ => id) fun u _ => id
  | prepare | checkTrue | signal =>
      refine .idle rfl rfl (fun u hu hq => ?_) fun u _ => id
      exact (Function.update_of_ne hu _ s.inq).symm.trans hq
  | checkFalse hempty => exact .asleep rfl (fun u _ => id) hempty fun u _ => id
  | @advance f bytes =>
      obtain ⟨b, n, hready, -, -, hused, -⟩ := hK rfl
      refine .idle rfl rfl (fun u _ => id) fun u _ hempty => ?_
      -- nothing is taken from an empty buffer
      rw [(used_eq_zero_iff hready.rp hready.wp).mpr hempty, Nat.le_zero] at hused
      change s.dev.rp + bytes.length = s.dev.wp
      rw [hused]
      exact hempty
  | wrap =>
      obtain ⟨b, n, hready, -, -⟩ := hK rfl
      refine .idle rfl rfl (fun u _ => id) fun u _ hempty => ?_
      have hwp : s.dev.wp < n := hready.wp
      have hlast : s.dev.last = n := hready.last
      have hinside : (s.dev.rp : ℤ) ≠ s.dev.last := by
        rw [hlast, show s.dev.rp = s.dev.wp from hempty]
        omega
      change (if _ then 0 else s.dev.rp) = s.dev.wp
      rw [if_neg hinside]
      exact hempty

/-- A writer owes the readers a wake-up from the move of its position on, until it has made it. -/
theorem WriteStep.reader (h : WriteStep t s k e s' k') :
    ReaderStep t (s, queue) k (s', queue') k' := by
  cases h with
  | call | interrupted | down | full | space | release | again | block | prepare | checkFalse
  | checkTrue | awake | signal | finish | copy | fault | faultUp =>
      exact .idle rfl rfl (fun u _ => id) fun u _ => id
  | advance | wrap | up => exact .owing rfl rfl fun u _ => id
  | wake => exact .paid rfl (fun u _ => by rintro ⟨⟩) fun u _ _ => by rintro ⟨⟩

omit [DecidableEq ι] in
/-- A release moves no position, so it makes no difference to the readers. -/
theorem ReleaseStep.reader (h : ReleaseStep t s k e s' k') :
    ReaderStep t (s, queue) k (s', queue') k' := by
  cases h <;> exact .idle rfl rfl (fun u _ => id) fun u _ => id

omit [DecidableEq ι] in
/-- Nor does a poll, which only looks at the positions. -/
theorem PollStep.reader (h : PollStep t s k e s' k') :
    ReaderStep t (s, queue) k (s', queue') k' := by
  cases h <;> exact .idle rfl rfl (fun u _ => id) fun u _ => id

end Readers

/-! ### Writers -/

/-- A writer in `schedule`, having found no space while on the queue. -/
def Pc.writerSleeps : Pc φ → Bool
  | writeSleep _ _ => true
  | _ => false

/-- About to wake the writers.  An open is not: it wakes nobody. -/
def Pc.writerOwes : Pc φ → Bool
  | readWrap _ _ | readUp _ _ | readWake _ _ => true
  | _ => false

section Writers

variable {t : ι} {s s' : Shared ι φ} {k k' : Pc φ} {e : Event} {queue queue' : List UInt8}

/-- What a statement does about the writers: none of those that sleep is left with room to write,
unless somebody owes a wake-up. -/
abbrev WriterStep (t : ι) (s : Shared ι φ × List UInt8) (k : Pc φ)
    (s' : Shared ι φ × List UInt8) (k' : Pc φ) : Prop :=
  WaitStep (fun s => s.1.outq) Pc.writerSleeps (fun k _ => k.writerOwes = true)
    (fun _ s => spacefree s.1.dev = 0) (fun _ _ => True) t s k s' k'

omit [DecidableEq ι] in
/-- An open that sets the buffer up makes room and wakes nobody, so there must be nobody who waits
for it (`hnobody`). -/
theorem OpenStep.writer (h : OpenStep t s k e s' k') (hnobody : NobodyWaits s k) :
    WriterStep t (s, queue) k (s', queue') k' := by
  cases h with
  | call | interrupted | down | present | kmalloc | noMem | noMemUp | last | count | up =>
      exact .idle rfl rfl (fun u _ => id) fun u _ => id
  | size | wp | rp =>
      exact .paid rfl (fun u _ => id) fun u _ _ hq => absurd ((hnobody u).symm.trans hq)
        Bool.false_ne_true

/-- A reader owes the writers a wake-up from the move of its position on, until it has made it. -/
theorem ReadStep.writer (h : ReadStep t s k e s' k') :
    WriterStep t (s, queue) k (s', queue') k' := by
  cases h with
  | call | interrupted | down | empty | data | release | again | block | awake | signalled | copy
  | fault | faultUp | prepare | checkTrue | signal | checkFalse =>
      exact .idle rfl rfl (fun u _ => id) fun u _ => id
  | advance | wrap | up => exact .owing rfl rfl fun u _ => id
  | wake => exact .paid rfl (fun u _ => by rintro ⟨⟩) fun u _ _ => by rintro ⟨⟩

/-- A full buffer whose write position is at the end is as full when the position is at the start.
-/
theorem spacefree_wrap {d : ScullPipe} {n : ℕ} (hsize : d.buffersize = n) (hrp : d.rp < n)
    (hwp : d.wp = n) (hfull : spacefree d = 0) : spacefree { d with wp := 0 } = 0 := by
  unfold spacefree at hfull ⊢
  rw [hsize, hwp] at hfull
  rw [if_neg (by omega), Int.add_sub_cancel] at hfull
  rw [Int.tmod_eq_of_lt (by omega) (by omega)] at hfull
  have hone : d.rp = 1 := by omega
  simp only [hsize, hone]
  have hround : ((1 : ℕ) : ℤ) + n - (0 : ℕ) = 1 + n := by omega
  rw [if_neg one_ne_zero, hround, Int.tmod_eq_emod_of_nonneg (by omega), Int.add_emod_right,
    Int.emod_eq_of_lt (by omega) (by omega), sub_self]

/-- A writer goes to sleep when it has seen, on the queue, that there is no room, and other writers
only take room. -/
theorem WriteStep.writer (h : WriteStep t s k e s' k') (hK : Knows k (s, queue)) :
    WriterStep t (s, queue) k (s', queue') k' := by
  cases h with
  | call | interrupted | down | full | space | release | again | block | checkFalse | awake
  | signal | copy | fault | faultUp | up | wake =>
      exact .idle rfl rfl (fun u _ => id) fun u _ => id
  | prepare | finish =>
      refine .idle rfl rfl (fun u hu hq => ?_) fun u _ => id
      exact (Function.update_of_ne hu _ s.outq).symm.trans hq
  | checkTrue hfull => exact .asleep rfl (fun u _ => id) hfull fun u _ => id
  | @advance f bytes =>
      obtain ⟨b, n, hready, -, hused, -⟩ := hK rfl
      refine .idle rfl rfl (fun u _ => id) fun u _ hfull => ?_
      -- nothing is put into a full buffer
      have hfull : spacefree s.dev = 0 := hfull
      have hzero : bytes.length = 0 := by
        rw [hready.spacefree_eq] at hfull
        omega
      change spacefree { s.dev with wp := s.dev.wp + bytes.length } = 0
      rw [hzero]
      exact hfull
  | wrap =>
      obtain ⟨b, n, hready, hle, -⟩ := hK rfl
      refine .idle rfl rfl (fun u _ => id) fun u _ hfull => ?_
      have hlast : s.dev.last = n := hready.last
      change spacefree { s.dev with wp := if (s.dev.wp : ℤ) = s.dev.last then 0 else s.dev.wp } = 0
      split_ifs with hend
      · exact spacefree_wrap hready.buffersize hready.rp (by omega) hfull
      · exact hfull

omit [DecidableEq ι] in
/-- A release moves no position, so it makes no difference to the writers. -/
theorem ReleaseStep.writer (h : ReleaseStep t s k e s' k') :
    WriterStep t (s, queue) k (s', queue') k' := by
  cases h <;> exact .idle rfl rfl (fun u _ => id) fun u _ => id

omit [DecidableEq ι] in
/-- Nor does a poll, which only looks at the positions. -/
theorem PollStep.writer (h : PollStep t s k e s' k') :
    WriterStep t (s, queue) k (s', queue') k' := by
  cases h <;> exact .idle rfl rfl (fun u _ => id) fun u _ => id

end Writers

/-! ### Results -/

section Results

variable {s : State ι (Shared ι φ) (Pc φ)}

/-- In every reachable state the thread at work knows the buffer, as the semaphore guards it. -/
theorem knows_of_reachable {s : State ι (Shared ι φ × List UInt8) (Pc φ)}
    (h : (queuedPipe ι φ).lts.Reachable s) (t : ι) : Knows (s.pc t) s.shared :=
  fun hin => ((buffer_held h).of_inside hin).2.1

/-- The readers' queue is kept, as `Lib.WaitQueue` asks: who sleeps on it waits for bytes, and who
brings some owes a wake-up. -/
theorem readers_queue : WaitQueue (queuedPipe ι φ) (fun _ => Knows) (fun s => s.1.inq)
    Pc.readerSleeps (fun k _ => k.readerOwes = true) (fun _ s => s.1.dev.rp = s.1.dev.wp)
    (fun _ _ => True) where
  start := rfl
  step := by
    rintro t ⟨s, queue⟩ k e ⟨s', queue'⟩ k' ⟨⟨-, hstep⟩, -⟩ hK
    cases hstep with
    | open_ h => exact h.reader hK
    | read h => exact h.reader hK
    | write h => exact h.reader
    | release h => exact h.reader
    | poll h => exact h.reader
    | ioctl => exact .idle rfl rfl (fun u _ => id) fun u _ => id

/-- **No reader sleeps for nothing.**  A reader that sleeps and has not been woken finds the buffer
empty, or another thread has just put bytes in and is about to wake it.  The run is one in which
every open finds a size that fits (`Fits`); one that has been woken (`hqueued` is false) looks again
by itself. -/
theorem reader_sleeps (h : ((pipe ι φ).restrict Fits).lts.Reachable s) (u : ι)
    (hsleeps : (s.pc u).readerSleeps = true) (hqueued : s.shared.inq u = true) :
    s.shared.dev.rp = s.shared.dev.wp ∨ ∃ v, (s.pc v).readerOwes = true := by
  obtain ⟨queue, hreach⟩ : ∃ queue, (queuedPipe ι φ).lts.Reachable ⟨(s.shared, queue), s.pc⟩ :=
    Reachable.track h
  exact readers_queue.no_lost_wakeup (fun _ hs t => knows_of_reachable hs t)
    (fun _ _ _ _ _ => trivial) hreach u ⟨hsleeps, hqueued⟩

/-- A reader of the pipe just opened goes to sleep, for there is nothing in it. -/
theorem reader_sleeps_empty : ∃ s : State Unit (Shared Unit Unit) (Pc Unit),
    (s.pc ()).readerSleeps = true ∧ s.shared.inq () = true ∧
      (s.shared.dev.rp = s.shared.dev.wp ∨ ∃ v, (s.pc v).readerOwes = true) := by
  obtain ⟨es, s, hopen, hdev, -, hfile⟩ :=
    opened_run (n := 4000) (fun _ _ _ h _ => h) (by decide)
  have hempty : s.dev.rp = s.dev.wp := by rw [hdev]
  have hread := hopen
    |>.next (Step.fits (.read (@ReadStep.call Unit Unit _ _ () s () _ 1 hfile rfl rfl))
      (by simp))
    |>.next (Step.fits (.read (.down (congrArg ScullPipe.sem hdev))) (by simp))
    |>.next (Step.fits (.read (.empty hempty)) (by simp))
    |>.next (Step.fits (.read .release) (by simp))
    |>.next (Step.fits (.read (.block (by simp [Shared.setSem, Shared.enter, OpenFiles.Files.has,
      OpenFiles.Files.enter, hfile]))) (by simp))
    |>.next (Step.fits (.read .prepare) (by simp))
    |>.next (Step.fits (.read (.checkFalse hempty)) (by simp))
  have hreach := hread.reachable rfl
  exact ⟨_, rfl, rfl, reader_sleeps hreach () rfl rfl⟩

/-- No open sets the buffer up with a size that does not fit, or while somebody waits to
write. -/
def Quiet (s : Shared ι φ) (k : Pc φ) (e : Event) : Prop := Fits s k e ∧ NobodyWaits s k

/-- The writers' queue is kept in quiet runs, as `Lib.WaitQueue` asks: who sleeps on it waits for
room, and who makes some owes a wake-up. -/
theorem writers_queue : WaitQueue (((pipe ι φ).restrict Quiet).track enqueue [])
    (fun _ => Knows) (fun s => s.1.outq) Pc.writerSleeps (fun k _ => k.writerOwes = true)
    (fun _ s => spacefree s.1.dev = 0) (fun _ _ => True) where
  start := rfl
  step := by
    rintro t ⟨s, queue⟩ k e ⟨s', queue'⟩ k' ⟨⟨⟨-, hnobody⟩, hstep⟩, -⟩ hK
    cases hstep with
    | open_ h => exact h.writer hnobody
    | read h => exact h.writer
    | write h => exact h.writer hK
    | release h => exact h.writer
    | poll h => exact h.writer
    | ioctl => exact .idle rfl rfl (fun u _ => id) fun u _ => id

/-- **No writer sleeps for nothing**: one that sleeps and has not been woken finds no room, or
another thread is about to wake it.  Two things are asked of the run (`Quiet`): every open finds a
size that fits, and none sets the buffer up under the writers that wait. -/
theorem writer_sleeps (h : ((pipe ι φ).restrict Quiet).lts.Reachable s) (u : ι)
    (hsleeps : (s.pc u).writerSleeps = true) (hqueued : s.shared.outq u = true) :
    spacefree s.shared.dev = 0 ∨ ∃ v, (s.pc v).writerOwes = true := by
  obtain ⟨queue, hreach⟩ : ∃ queue, (((pipe ι φ).restrict Quiet).track enqueue []).lts.Reachable
      ⟨(s.shared, queue), s.pc⟩ := Reachable.track h
  have hknows {s : State ι (Shared ι φ × List UInt8) (Pc φ)}
      (hs : (((pipe ι φ).restrict Quiet).track enqueue []).lts.Reachable s) (t : ι) :
      Knows (s.pc t) s.shared :=
    knows_of_reachable (Reachable.weaken (fun _ _ _ h => h.1) hs) t
  exact writers_queue.no_lost_wakeup (fun _ hs t => hknows hs t) (fun _ _ _ _ _ => trivial) hreach u
    ⟨hsleeps, hqueued⟩

/-- A writer of a pipe whose buffer has one byte goes to sleep: that byte is the one kept free. -/
theorem writer_sleeps_full : ∃ s : State Unit (Shared Unit Unit) (Pc Unit),
    (s.pc ()).writerSleeps = true ∧ s.shared.outq () = true ∧
      (spacefree s.shared.dev = 0 ∨ ∃ v, (s.pc v).writerOwes = true) := by
  have hquiet : ∀ (s : Shared Unit Unit) (k : Pc Unit) (e : Event), Fits s k e →
      (∀ u, s.outq u = false) → Quiet s k e := by
    intro s k e hfits hq
    exact ⟨hfits, by cases k <;> first | exact hq | trivial⟩
  obtain ⟨es, s, hopen, hdev, -, hfile⟩ := opened_run (n := 1) hquiet (by decide)
  have hfull : spacefree s.dev = 0 := by rw [hdev]; rfl
  have hwrite := hopen
    |>.next ⟨⟨by simp [Fits], trivial⟩,
      .write (@WriteStep.call Unit Unit _ _ () s () _ [7] hfile rfl rfl)⟩
    |>.next ⟨⟨by simp [Fits], trivial⟩, .write (.down (congrArg ScullPipe.sem hdev))⟩
    |>.next ⟨⟨by simp [Fits], trivial⟩, .write (.full hfull)⟩
    |>.next ⟨⟨by simp [Fits], trivial⟩, .write .release⟩
    |>.next ⟨⟨by simp [Fits], trivial⟩, .write (.block (by simp [Shared.setSem, Shared.enter,
      OpenFiles.Files.has, OpenFiles.Files.enter, hfile]))⟩
    |>.next ⟨⟨by simp [Fits], trivial⟩, .write .prepare⟩
    |>.next ⟨⟨by simp [Fits], trivial⟩, .write (.checkTrue hfull)⟩
  have hreach := hwrite.reachable rfl
  exact ⟨_, rfl, rfl, writer_sleeps hreach () rfl rfl⟩

/-- **A reader and a writer never sleep for each other**: with a buffer that holds a byte, one
of them is about to be woken. -/
theorem not_both_asleep (h : ((pipe ι φ).restrict Quiet).lts.Reachable s) {u v : ι}
    (hreader : (s.pc u).readerSleeps = true) (hinq : s.shared.inq u = true)
    (hwriter : (s.pc v).writerSleeps = true) (houtq : s.shared.outq v = true)
    (hsize : s.shared.dev.buffersize ≠ 1) :
    ∃ w, (s.pc w).readerOwes = true ∨ (s.pc w).writerOwes = true := by
  have hfits : ((pipe ι φ).restrict Fits).lts.Reachable s := by
    obtain ⟨queue, hreach⟩ : ∃ queue,
        (((pipe ι φ).restrict Quiet).track enqueue []).lts.Reachable ⟨(s.shared, queue), s.pc⟩ :=
      Reachable.track h
    exact Reachable.of_track (Reachable.weaken (fun _ _ _ h => h.1) hreach)
  rcases reader_sleeps hfits u hreader hinq with hempty | ⟨w, hw⟩
  · rcases writer_sleeps h v hwriter houtq with hfull | ⟨w, hw⟩
    · -- an empty buffer has room
      rw [spacefree, if_pos hempty] at hfull
      omega
    · exact ⟨w, .inr hw⟩
  · exact ⟨w, .inl hw⟩

end Results

end LeipoCode.Pipe
