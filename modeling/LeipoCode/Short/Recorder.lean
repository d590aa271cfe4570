import LeipoCode.Short.Buffer

/-!
# Who prints into the buffer of times, and who reads it

What both drivers do with the buffer, whatever else they do: one thread at a time prints records
into it, each in two steps, and wakes the readers.  `recorder` is this program, and the drivers are
shown to be recorders (`Short.Step.records`, `Shortprint.Step.records`), whatever they do between
two records and whichever thread does it.  What is proved of a recorder here therefore holds of
`short.c` with each of its four handlers and of `shortprint.c`.

* `delivered_in_order` — **readers get what was printed**, every byte once;
* `sprintf_place` — where a record is printed, from which it follows that the zero behind it lies
  behind the page exactly for every 256th record;
* `reader_waits` — no reader waits for nothing.

### What is asked of a run

Nothing keeps a record from running over what nobody has read; the comment in the source has it that
the buffer "is allowed to overrun if the reader isn't fast enough".  Nothing keeps two processes
from reading at a time either, and then both get the same bytes.  `Orderly` says that neither
happens, and that the records are of 16 bytes.  It is a condition on single steps, so a run is
orderly as long as each of its steps is, and a driver that is a recorder has only its own steps to
look at.

### How the proof goes

There is no lock, but there are two parties that each have something to themselves: the one that
prints has the head and the cells it prints to, and the one that reads has the tail.  `Part` has one
case for each of them and one for the page itself, and `Minds` says of a statement what
`Lib.Threads` asks of locks: that it keeps what each part protects.  The invariant is that what was
printed is what was delivered, followed by what is stored; the printer may be ahead of it by the one
record it has printed and not yet moved the head over (`Printing`).

Neither party waits for the other.  What the reader has computed stays true while records are added,
for they go behind what is stored (`minds_reader`), and what the printer relies on stays true while
the reader takes from the front (`Printing.of_settled`).  The buffer goes round at the end of the
page, and a read stops there, so a reader gets what is stored in two pieces at most; a record never
does, because the page has room for a whole number of records.

Who waits is a matter of its own, by `Lib.WaitQueue`: a reader goes to sleep when the positions are
equal, and the one who has moved the head owes a wake-up until it has made it.
-/

namespace LeipoCode.Short

open RingBuffer Threads

variable {ι : Type}

/-! ### The program -/

/-- The buffer, and whether nobody prints into it.  In the drivers `quiet` is what keeps printing to
one thread at a time: that no interrupt is being handled, or that no bottom half is at work. -/
structure Tape (ι : Type) where
  buffer : Buffer ι
  quiet : Bool

/-- What a statement of the recorder shows of itself: that a read begins, what the read shows, or
what is printed and where. -/
inductive RecorderEvent
  | silent
  | reading
  | read (e : ReadEvent)
  | sprintf (p : ℕ) (text : List UInt8)

/-- The program points.  `print` is any point between two records, and with `owes` the thread has
printed something and has not woken the readers since; `advance` is the point between `sprintf` and
the move of the head. -/
inductive RecorderPc
  | idle
  | read (k : ReadPc)
  | print (owes : Bool)
  | advance (owes : Bool) (written : ℕ)

/-- The statements of the recorder.  Printing begins only while nobody prints (`start`), and ends
only when nothing is owed to the readers (`finish`); in between, records are printed and readers are
woken in any order. -/
inductive RecorderStep [DecidableEq ι] (t : ι) :
    Tape ι → RecorderPc → RecorderEvent → Tape ι → RecorderPc → Prop
  | start {s : Tape ι} :
      s.quiet = true → RecorderStep t s .idle .silent { s with quiet := false } (.print false)
  | sprintf {s : Tape ι} {owes : Bool} {text : List UInt8} :
      RecorderStep t s (.print owes) (.sprintf s.buffer.head text)
        { s with buffer := s.buffer.sprintf text } (.advance owes text.length)
  | advance {s : Tape ι} {owes : Bool} {written : ℕ} :
      RecorderStep t s (.advance owes written) .silent
        { s with buffer := s.buffer.advance written } (.print true)
  | wake {s : Tape ι} {owes : Bool} :
      RecorderStep t s (.print owes) .silent { s with buffer := s.buffer.wake } (.print false)
  | finish {s : Tape ι} :
      RecorderStep t s (.print false) .silent { s with quiet := true } .idle
  | readCall {s : Tape ι} {count : ℕ} :
      RecorderStep t s .idle .reading { s with buffer := { s.buffer with unread := false } }
        (.read (.test count))
  | read {s : Tape ι} {b : Buffer ι} {k : ReadPc} {k' : Option ReadPc} {e : ReadEvent} :
      ReadStep t s.buffer k e b k' →
      RecorderStep t s (.read k) (.read e) { s with buffer := b } (k'.elim .idle .read)

/-- The recorder, for any number of threads of which each may print and read. -/
def recorder (ι : Type) [DecidableEq ι] : Threads ι (Tape ι) RecorderPc RecorderEvent where
  init s := ∃ cells, s = ⟨.initial cells, true⟩
  start := .idle
  step := RecorderStep

/-- How many bytes nobody has read: the distance from the tail to the head, going round. -/
def Buffer.used (b : Buffer ι) : ℕ := RingBuffer.used PAGE_SIZE b.tail b.head

/-- The bytes that nobody has read, the oldest first: from the tail to the head, going round. -/
def Buffer.stored (b : Buffer ι) : List UInt8 := contents b.cells PAGE_SIZE b.tail b.used

/-- One process reads at a time, records have 16 bytes, and there is space for them.  The last is
about the moment of `sprintf`: a byte less than the page must be left, since a full page would look
like an empty one. -/
def Orderly (s : Tape ι) (_ : RecorderPc) : RecorderEvent → Prop
  | .reading => s.buffer.unread = true
  | .sprintf _ text => text.length = 16 ∧ s.buffer.used + 16 < PAGE_SIZE
  | _ => True

/-! ### What the events say -/

namespace RecorderEvent

/-- What the event adds to what was printed. -/
def printed : RecorderEvent → List UInt8
  | sprintf _ text => text
  | _ => []

/-- What the event adds to what readers have got. -/
def delivered : RecorderEvent → List UInt8
  | read (.deliver bytes) => bytes
  | _ => []

end RecorderEvent

/-- What was printed, and what readers have got: the history of a run, kept beside its state. -/
structure Tally where
  printed : List UInt8
  delivered : List UInt8

/-- The history after one more event. -/
def Tally.note (g : Tally) (e : RecorderEvent) : Tally :=
  ⟨g.printed ++ e.printed, g.delivered ++ e.delivered⟩

/-- The history that goes along with a run, read off the events of the run. -/
theorem foldl_tally (es : List RecorderEvent) (g : Tally) :
    es.foldl Tally.note g = ⟨g.printed ++ es.flatMap RecorderEvent.printed,
      g.delivered ++ es.flatMap RecorderEvent.delivered⟩ := by
  induction es generalizing g with
  | nil => simp only [List.foldl_nil, List.flatMap_nil, List.append_nil]
  | cons e es ih =>
      simp only [List.foldl_cons, ih, Tally.note, List.flatMap_cons, List.append_assoc]

/-! ### The buffer -/

/-- The positions are inside the page, and records begin where they can: as the head is a multiple
of 16 and so is the page, no record is cut in two by its end. -/
structure Buffer.Ordered (b : Buffer ι) : Prop where
  head : b.head < PAGE_SIZE
  tail : b.tail < PAGE_SIZE
  aligned : 16 ∣ b.head

/-- So many bytes can be read in one piece: they lie before the end of the page, and all of them are
stored. -/
structure Buffer.Readable (b : Buffer ι) (count : ℕ) : Prop where
  fits : b.tail + count ≤ PAGE_SIZE
  stored : count ≤ b.used

section Positions

variable {b b' : Buffer ι} {count : ℕ}

/-- Where the text ends with the page or before it, the position goes on modulo the size of the
page, as `Lib.RingBuffer` has it. -/
theorem incrBp_eq_mod {index delta : ℕ} (h : index + delta ≤ PAGE_SIZE) :
    incrBp index delta = (index + delta) % PAGE_SIZE := by
  unfold incrBp
  split_ifs with hle
  · rw [le_antisymm h hle, Nat.mod_self]
  · rw [Nat.mod_eq_of_lt (Nat.not_le.mp hle)]

theorem Buffer.Ordered.used_lt (h : b.Ordered) : b.used < PAGE_SIZE :=
  RingBuffer.used_lt (Nat.zero_lt_of_lt h.head)

theorem Buffer.Ordered.add_used (h : b.Ordered) : (b.tail + b.used) % PAGE_SIZE = b.head :=
  add_used_mod h.tail h.head

/-- A record fits behind the head: the head is a multiple of 16 inside the page, and the page has
room for a whole number of records. -/
theorem Buffer.Ordered.fits (h : b.Ordered) : b.head + 16 ≤ PAGE_SIZE := by
  obtain ⟨m, hm⟩ := h.aligned
  have hhead := h.head
  have hpage : PAGE_SIZE = 16 * 256 := rfl
  omega

/-- The head goes on by a record, and stays at a place where a record can begin; so much more is
used.  That there is room (`hroom`) is needed for the second, since a full page would count as an
empty one. -/
theorem Buffer.Ordered.advance (h : b.Ordered) (hroom : b.used + 16 < PAGE_SIZE) :
    (b.advance 16).Ordered ∧ (b.advance 16).used = b.used + 16 := by
  have hhead : (b.advance 16).head = (b.head + 16) % PAGE_SIZE := incrBp_eq_mod h.fits
  refine ⟨⟨?_, h.tail, ?_⟩, ?_⟩
  · rw [hhead]
    exact Nat.mod_lt _ (Nat.zero_lt_of_lt h.head)
  · rw [hhead]
    exact (Nat.dvd_mod_iff (show 16 ∣ PAGE_SIZE from ⟨256, rfl⟩)).mpr
      ((Nat.dvd_add_right h.aligned).mpr dvd_rfl)
  · unfold Buffer.used
    rw [hhead]
    exact used_write h.tail h.head hroom

/-- What is stored grows at its end by the record the head moves over, which `sprintf` has put
there. -/
theorem Buffer.Ordered.stored_advance (h : b.Ordered) (hroom : b.used + 16 < PAGE_SIZE) :
    (b.advance 16).stored = b.stored ++ slice b.cells b.head 16 := by
  unfold Buffer.stored
  rw [(h.advance hroom).2]
  exact contents_add h.add_used h.fits

/-- A record in the making touches nothing that is stored, and neither does the zero behind it:
`hroom` leaves 17 bytes. -/
theorem Buffer.Ordered.stored_sprintf (h : b.Ordered) (hroom : b.used + 16 < PAGE_SIZE)
    {text : List UInt8} (hlen : text.length = 16) : (b.sprintf text).stored = b.stored := by
  refine contents_store_free h.tail h.add_used ?_
  rw [List.length_append, hlen]
  exact hroom

/-- What is read from the tail on is what is stored first, as long as it lies in one piece. -/
theorem Buffer.Readable.slice_eq (h : b.Readable count) :
    slice b.cells b.tail count = b.stored.take count := slice_eq_take h.fits h.stored

/-- The tail goes on by what was read, and so much less is used.  The head stays, so records go on
to begin where they can. -/
theorem Buffer.Readable.advance (h : b.Readable count) (hb : b.Ordered) (hhead : b'.head = b.head)
    (htail : b'.tail = incrBp b.tail count) :
    b'.Ordered ∧ b'.used = b.used - count ∧ b'.tail = (b.tail + count) % PAGE_SIZE := by
  have htail' : b'.tail = (b.tail + count) % PAGE_SIZE := htail.trans (incrBp_eq_mod h.fits)
  refine ⟨⟨hhead ▸ hb.head, ?_, hhead ▸ hb.aligned⟩, ?_, htail'⟩
  · rw [htail']
    exact Nat.mod_lt _ (Nat.zero_lt_of_lt hb.head)
  · unfold Buffer.used
    rw [htail', hhead]
    exact used_read hb.tail hb.head h.stored

/-- What is stored loses at its front what the tail moves over, and nothing else. -/
theorem Buffer.Readable.stored_advance (h : b.Readable count) (hb : b.Ordered)
    (hcells : b'.cells = b.cells) (hhead : b'.head = b.head)
    (htail : b'.tail = incrBp b.tail count) : b'.stored = b.stored.drop count := by
  obtain ⟨-, hused, htail'⟩ := h.advance hb hhead htail
  rw [Buffer.stored, hcells, hused, htail']
  exact contents_advance h.stored

/-- `count0` bytes can be read: what is stored, or, if that goes round, the part before the end of
the page. -/
theorem Buffer.Ordered.readable (h : b.Ordered) :
    b.Readable (wrapped b ((b.head : ℤ) - b.tail)).toNat := by
  have hhead := h.head
  have htail := h.tail
  have hused : b.used = _ := used_eq htail hhead
  constructor <;> unfold wrapped <;> split_ifs at hused ⊢ <;> omega

/-- If so many bytes can be read, so can fewer, as when a caller asks for less than there is. -/
theorem Buffer.Readable.mono {count' : ℕ} (h : b.Readable count) (hle : count' ≤ count) :
    b.Readable count' :=
  ⟨(Nat.add_le_add_left hle _).trans h.fits, hle.trans h.stored⟩

/-- What could be read can be read in a buffer with the same tail in which more is used. -/
theorem Buffer.Readable.more (h : b.Readable count) (htail : b'.tail = b.tail)
    (hused : b.used ≤ b'.used) : b'.Readable count :=
  ⟨htail ▸ h.fits, h.stored.trans hused⟩

end Positions

/-! ### The printer and the reader -/

/-- What is kept in order: the page, and what each of the two parties may rely on.  `page` has
nobody inside, and is a plain invariant. -/
inductive Part
  | page
  | printer
  | reader

namespace RecorderPc

/-- The thread is the one that prints, from where it begins to where it owes nothing. -/
def printing : RecorderPc → Bool
  | print _ | advance _ _ => true
  | _ => false

/-- The thread is in a read, from its call to its end. -/
def reading : RecorderPc → Bool
  | read _ => true
  | _ => false

end RecorderPc

/-- What was delivered and what is stored: all that was printed, up to the record that is in the
making. -/
def Tally.settled (g : Tally) (b : Buffer ι) : List UInt8 := g.delivered ++ b.stored

/-- What the printer may rely on.  Between `sprintf` and the move of the head, the record is in the
page behind what is stored. -/
def Printing (s : Tape ι × Tally) : RecorderPc → Prop
  | .advance _ written => written = 16 ∧ s.1.buffer.used + 16 < PAGE_SIZE ∧
      s.2.printed = s.2.settled s.1.buffer ++ slice s.1.buffer.cells s.1.buffer.head 16
  | _ => s.2.printed = s.2.settled s.1.buffer

/-- What the reader may rely on: from the moment it has computed how much it can read, so much stays
readable, for the printer only adds to it. -/
def Reading (b : Buffer ι) : RecorderPc → Prop
  | .read (.wrap _ count0) => b.Readable (wrapped b count0).toNat
  | .read (.copy count) => b.Readable count
  | .read (.advance bytes) => b.Readable bytes.length ∧ bytes = b.stored.take bytes.length
  | _ => True

namespace Part

/-- The part has nobody inside. -/
def free : Part → Tape ι × Tally → Bool
  | page, _ => true
  | printer, s => s.1.quiet
  | reader, s => s.1.buffer.unread

/-- The thread at that point is inside the part. -/
def inside : Part → RecorderPc → Bool
  | page => fun _ => false
  | printer => RecorderPc.printing
  | reader => RecorderPc.reading

/-- What holds of a part while nobody is inside, and is what the next one finds. -/
def protects : Part → Tape ι × Tally → Prop
  | page, s => s.1.buffer.Ordered ∧ s.1.buffer.tail = s.2.delivered.length % PAGE_SIZE
  | printer, s => s.2.printed = s.2.settled s.1.buffer
  | reader, _ => True

/-- What the thread that is inside may rely on. -/
def allows : Part → RecorderPc → Tape ι × Tally → Prop
  | page, _, _ => True
  | printer, k, s => Printing s k
  | reader, k, s => Reading s.1.buffer k

end Part

/-- What a thread at that point may rely on, of all parts that it is inside of. -/
abbrev Aware (k : RecorderPc) (s : Tape ι × Tally) : Prop :=
  Sees Part.free Part.inside Part.protects Part.allows k s

/-- A statement does right by a part: who enters finds what the part protects, who is inside keeps
what it may rely on, and who leaves gives back what is protected. -/
abbrev Minds (x : Part) (s : Tape ι × Tally) (k : RecorderPc) (s' : Tape ι × Tally)
    (k' : RecorderPc) : Prop :=
  LockStep x.free x.inside x.protects x.allows s k s' k'

section Statements

variable {t : ι} {b b' : Buffer ι} {q q' : Bool} {k k' : RecorderPc} {e : RecorderEvent} {g : Tally}

/-- What the page looks like to both, apart from who waits. -/
def Buffer.content (b : Buffer ι) : (ℕ → UInt8) × ℕ × ℕ := (b.cells, b.head, b.tail)

/-- That the positions are in order is a matter of the page alone, not of who waits. -/
theorem Buffer.Ordered.of_content (h : b.Ordered) (hcontent : b'.content = b.content) :
    b'.Ordered := by
  simp only [Buffer.content, Prod.mk.injEq] at hcontent
  obtain ⟨-, hhead, htail⟩ := hcontent
  exact ⟨hhead ▸ h.head, htail ▸ h.tail, hhead ▸ h.aligned⟩

/-- What is stored is a matter of the page alone, not of who waits. -/
theorem Buffer.stored_of_content (hcontent : b'.content = b.content) : b'.stored = b.stored := by
  simp only [Buffer.content, Prod.mk.injEq] at hcontent
  obtain ⟨hcells, hhead, htail⟩ := hcontent
  rw [Buffer.stored, Buffer.stored, Buffer.used, Buffer.used, hcells, hhead, htail]

theorem Buffer.length_stored : b.stored.length = b.used := length_contents

/-- What the reader relies on stays as long as nothing is taken from the front. -/
theorem Reading.of_stored (xs : List UInt8) (h : Reading b k) (htail : b'.tail = b.tail)
    (hstored : b'.stored = b.stored ++ xs) : Reading b' k := by
  have hused : b.used ≤ b'.used := by
    rw [← Buffer.length_stored, ← Buffer.length_stored, hstored, List.length_append]
    exact Nat.le_add_right _ _
  have hwrapped (count0 : ℤ) : wrapped b' count0 = wrapped b count0 := by
    rw [wrapped, wrapped, htail]
  cases k with
  | read k =>
      cases k with
      | wrap count count0 =>
          change b'.Readable (wrapped b' count0).toNat
          rw [hwrapped]
          exact Buffer.Readable.more h htail hused
      | copy count => exact Buffer.Readable.more h htail hused
      | advance bytes =>
          obtain ⟨hreadable, hbytes⟩ := h
          refine ⟨hreadable.more htail hused, ?_⟩
          rw [hstored, List.take_append_of_le_length]
          · exact hbytes
          · rw [Buffer.length_stored]
            exact hreadable.stored
      | _ => trivial
  | _ => trivial

theorem Reading.of_content (h : Reading b k) (hcontent : b'.content = b.content) :
    Reading b' k := by
  refine h.of_stored [] (congrArg (fun c => c.2.2) hcontent) ?_
  rw [Buffer.stored_of_content hcontent, List.append_nil]

/-- What the printer relies on survives what a reader does: it leaves the head and the cells alone,
frees places, and what it takes from the stored bytes it delivers. -/
theorem Printing.of_settled {g' : Tally} (h : Printing (⟨b, q⟩, g) k)
    (hplace : (b'.cells, b'.head) = (b.cells, b.head)) (hused : b'.used ≤ b.used)
    (hprinted : g'.printed = g.printed) (hsettled : g'.settled b' = g.settled b) :
    Printing (⟨b', q⟩, g') k := by
  simp only [Prod.mk.injEq] at hplace
  cases k with
  | advance owes written =>
      obtain ⟨hwritten, hroom, h⟩ := h
      refine ⟨hwritten, (Nat.add_le_add_right hused 16).trans_lt hroom, ?_⟩
      change g'.printed = g'.settled b' ++ slice b'.cells b'.head 16
      rw [hprinted, hsettled, hplace.1, hplace.2]
      exact h
  | _ => exact hprinted.trans (Eq.trans h hsettled.symm)

/-! ### The printer -/

/-- A statement that leaves the tail alone and delivers nothing does right by the page, if it keeps
the positions in order. -/
theorem minds_page (h : b.Ordered → b'.Ordered) (htail : b'.tail = b.tail)
    (hevent : e.delivered = []) : Minds .page (⟨b, q⟩, g) k (⟨b', q'⟩, g.note e) k' := by
  refine .outside rfl rfl rfl (fun ⟨hordered, hdelivered⟩ => ⟨h hordered, ?_⟩) fun j hj => by
    cases hj
  change b'.tail = (g.delivered ++ e.delivered).length % PAGE_SIZE
  rw [htail, hevent, List.append_nil]
  exact hdelivered

/-- A statement of another thread does right by the reader, if it only adds to what is stored. -/
theorem minds_reader (xs : List UInt8) (hk : k.reading = false) (hk' : k'.reading = false)
    (hunread : b'.unread = b.unread) (htail : b'.tail = b.tail)
    (hstored : b'.stored = b.stored ++ xs) :
    Minds .reader (⟨b, q⟩, g) k (⟨b', q'⟩, g.note e) k' :=
  .outside hk hk' hunread id fun _ _ h => h.of_stored xs htail hstored

/-- A silent statement adds nothing to the history. -/
theorem note_silent : g.note .silent = g := by
  simp only [Tally.note, RecorderEvent.printed, RecorderEvent.delivered, List.append_nil]

/-- A statement that leaves the page alone, as far as the page is concerned. -/
theorem minds_page_same (hcontent : b'.content = b.content) (hevent : e.delivered = []) :
    Minds .page (⟨b, q⟩, g) k (⟨b', q'⟩, g.note e) k' :=
  minds_page (fun h => h.of_content hcontent) (congrArg (fun c => c.2.2) hcontent) hevent

/-- A statement of another thread that leaves the page alone does right by the reader. -/
theorem minds_reader_same (hk : k.reading = false) (hk' : k'.reading = false)
    (hunread : b'.unread = b.unread) (hcontent : b'.content = b.content) :
    Minds .reader (⟨b, q⟩, g) k (⟨b', q'⟩, g.note e) k' := by
  refine minds_reader [] hk hk' hunread (congrArg (fun c => c.2.2) hcontent) ?_
  rw [Buffer.stored_of_content hcontent, List.append_nil]

/-- Nor does a statement that leaves the page alone and delivers nothing change what the printer
compares with what was printed. -/
theorem settled_same (hcontent : b'.content = b.content) (hevent : e.delivered = []) :
    (g.note e).settled b' = g.settled b := by
  rw [Tally.settled, Tally.note, hevent, List.append_nil, Buffer.stored_of_content hcontent]
  rfl

/-! ### The reader -/

/-- What a reader gets is what was stored first, so that what was delivered and what is stored are
the same together as before. -/
theorem Buffer.Readable.settled {bytes : List UInt8} (h : b.Readable bytes.length)
    (hbytes : bytes = b.stored.take bytes.length) (hb : b.Ordered) (hcells : b'.cells = b.cells)
    (hhead : b'.head = b.head) (htail : b'.tail = incrBp b.tail bytes.length) :
    (g.note (.read (.deliver bytes))).settled b' = g.settled b := by
  change (g.delivered ++ bytes) ++ b'.stored = g.delivered ++ b.stored
  rw [h.stored_advance hb hcells hhead htail, List.append_assoc]
  congr 1
  nth_rewrite 1 [hbytes]
  exact List.take_append_drop ..

variable [DecidableEq ι]

/-- What a statement of the reader does to the page. -/
theorem ReadStep.content {r : ReadPc} {r' : Option ReadPc} {e : ReadEvent}
    (h : ReadStep t b r e b' r') :
    b'.content = b.content ∧ (RecorderEvent.read e).delivered = [] ∨
      ∃ bytes, r = .advance bytes ∧ e = .deliver bytes ∧
        b'.cells = b.cells ∧ b'.head = b.head ∧ b'.tail = incrBp b.tail bytes.length := by
  cases h with
  | @advance bytes => exact .inr ⟨bytes, rfl, rfl, rfl, rfl, rfl⟩
  | _ => exact .inl ⟨rfl, rfl⟩

/-- A statement of the reader does right by all three parts.  Only the last one moves anything, the
tail; it needs that the bytes were the first of those stored, which `Reading` has kept since they
were counted. -/
theorem ReadStep.minds {r : ReadPc} {r' : Option ReadPc} {e : ReadEvent}
    (h : ReadStep t b r e b' r') (hK : Aware (.read r) (⟨b, q⟩, g)) (x : Part) :
    Minds x (⟨b, q⟩, g) (.read r) (⟨b', q⟩, g.note (.read e)) (r'.elim .idle .read) := by
  have hordered : b.Ordered := ((hK .page).2 rfl).1
  have hreading : Reading b (.read r) := (hK .reader).1 rfl
  have hout : (r'.elim RecorderPc.idle .read).printing = false := by cases r' <;> rfl
  cases x with
  | page =>
      rcases h.content with ⟨hcontent, hevent⟩ | ⟨bytes, rfl, rfl, hcells, hhead, htail⟩
      · exact minds_page_same hcontent hevent
      · obtain ⟨hordered', -, hmod⟩ := hreading.1.advance hordered hhead htail
        refine .outside rfl rfl rfl (fun ⟨_, hdelivered⟩ => ⟨hordered', ?_⟩) fun j hj => by
          cases hj
        change b'.tail = (g.delivered ++ bytes).length % PAGE_SIZE
        rw [hmod, show b.tail = _ from hdelivered, Nat.mod_add_mod, List.length_append]
  | printer =>
      have hprinted : (g.note (.read e)).printed = g.printed := List.append_nil _
      rcases h.content with ⟨hcontent, hevent⟩ | ⟨bytes, rfl, rfl, hcells, hhead, htail⟩
      · have hsettled := settled_same (g := g) hcontent hevent
        have hused : b'.used ≤ b.used := by
          rw [← Buffer.length_stored, Buffer.stored_of_content hcontent, Buffer.length_stored]
        simp only [Buffer.content, Prod.mk.injEq] at hcontent
        refine .outside rfl hout rfl (fun hR => hprinted.trans (Eq.trans hR hsettled.symm))
          fun j _ hj => hj.of_settled ?_ hused hprinted hsettled
        rw [hcontent.1, hcontent.2.1]
      · have hsettled := hreading.1.settled (g := g) hreading.2 hordered hcells hhead htail
        have hused := (hreading.1.advance hordered hhead htail).2.1
        refine .outside rfl hout rfl (fun hR => hprinted.trans (Eq.trans hR hsettled.symm))
          fun j _ hj => hj.of_settled ?_ (hused ▸ Nat.sub_le _ _) hprinted hsettled
        rw [hcells, hhead]
  | reader =>
      cases h with
      | empty | data | prepare | checkTrue | checkFalse | awake | signalled | finish | again =>
          exact .within rfl rfl rfl fun _ => trivial
      | signal | fault | advance => exact .leave rfl rfl rfl fun _ => trivial
      | count0 => exact .within rfl rfl rfl fun _ => hordered.readable
      | wrap => exact .within rfl rfl rfl fun h => Buffer.Readable.mono h (min_le_right _ _)
      | @copy count =>
          refine .within rfl rfl rfl fun (h : b.Readable count) => ?_
          have hlen : (slice b.cells b.tail count).length = count := length_slice
          refine ⟨?_, ?_⟩ <;> rw [hlen]
          · exact h
          · exact h.slice_eq

/-! ### A statement of any of them -/

/-- **Every statement does right by every part**, if it is an orderly one: the step lemma of the
invariant. -/
theorem RecorderStep.minds {s s' : Tape ι} (h : RecorderStep t s k e s' k')
    (horderly : Orderly s k e) (hK : Aware k (s, g)) (x : Part) :
    Minds x (s, g) k (s', g.note e) k' := by
  have hordered : s.buffer.Ordered := ((hK .page).2 rfl).1
  cases h with
  | start hquiet =>
      cases x with
      | page => exact minds_page_same rfl rfl
      | printer => exact .enter rfl rfl hquiet rfl fun hR => note_silent.symm ▸ hR
      | reader => exact minds_reader_same rfl rfl rfl rfl
  | @sprintf owes text =>
      obtain ⟨hlen, hroom⟩ : text.length = 16 ∧ s.buffer.used + 16 < PAGE_SIZE := horderly
      have hstored := hordered.stored_sprintf hroom hlen
      cases x with
      | page => exact minds_page (fun h => ⟨h.head, h.tail, h.aligned⟩) rfl rfl
      | printer =>
          refine .within rfl rfl rfl fun hprinted => ⟨hlen, hroom, ?_⟩
          have hslice := slice_store s.buffer.cells s.buffer.head text [0]
          rw [hlen] at hslice
          change g.printed ++ text = (g.delivered ++ []) ++ (s.buffer.sprintf text).stored ++
            slice (store s.buffer.cells s.buffer.head (text ++ [0])) s.buffer.head 16
          rw [hstored, hslice, List.append_nil]
          exact congrArg (· ++ text) hprinted
      | reader =>
          refine minds_reader [] rfl rfl rfl rfl ?_
          rw [hstored, List.append_nil]
  | @advance owes written =>
      obtain ⟨rfl, hroom, hprinted⟩ := (hK .printer).1 rfl
      have hstored := hordered.stored_advance hroom
      cases x with
      | page => exact minds_page (fun h => (h.advance hroom).1) rfl rfl
      | printer =>
          refine .within rfl rfl rfl fun _ => ?_
          rw [note_silent]
          change g.printed = g.delivered ++ (s.buffer.advance 16).stored
          rw [hstored, ← List.append_assoc]
          exact hprinted
      | reader => exact minds_reader _ rfl rfl rfl rfl hstored
  | wake =>
      cases x with
      | page => exact minds_page_same rfl rfl
      | printer => exact .within rfl rfl rfl fun hR => note_silent.symm ▸ hR
      | reader => exact minds_reader_same rfl rfl rfl rfl
  | finish =>
      cases x with
      | page => exact minds_page_same rfl rfl
      | printer => exact .leave rfl rfl rfl fun hR => note_silent.symm ▸ hR
      | reader => exact minds_reader_same rfl rfl rfl rfl
  | readCall =>
      cases x with
      | page => exact minds_page_same rfl rfl
      | printer =>
          have hsettled : (g.note .reading).settled { s.buffer with unread := false } =
              g.settled s.buffer := settled_same rfl rfl
          refine .outside rfl rfl rfl (fun hR => ?_) fun j _ hj =>
            hj.of_settled rfl le_rfl (List.append_nil _) hsettled
          exact (List.append_nil _).trans (Eq.trans hR hsettled.symm)
      | reader => exact .enter rfl rfl horderly rfl fun _ => trivial
  | read h => exact h.minds hK x

end Statements

/-! ### Who waits for a record -/

def RecorderPc.sleeps : RecorderPc → Bool
  | read (.sleep _) => true
  | _ => false

/-- About to wake the readers: it has printed something, and has not woken them since. -/
def RecorderPc.owes : RecorderPc → Bool
  | print owes | advance owes _ => owes
  | _ => false

section Waiting

variable {t : ι} {b b' : Buffer ι} {q : Bool} {k k' : RecorderPc} {e : RecorderEvent} {g : Tally}

/-- What a statement does about those who wait: nobody goes to sleep while there is something to
read, and who makes the buffer non-empty owes a wake-up until it has woken everybody. -/
abbrev Waits (t : ι) (b : Buffer ι) (k : RecorderPc) (b' : Buffer ι) (k' : RecorderPc) : Prop :=
  WaitStep Buffer.queue RecorderPc.sleeps (fun k _ => k.owes = true) (fun _ b => b.head = b.tail)
    (fun _ _ => True) t b k b' k'

variable [DecidableEq ι]

/-- A reader goes to sleep only after it has seen, on the queue, that there is nothing to read; and
the move of its tail leaves an empty buffer empty. -/
theorem ReadStep.waits {r : ReadPc} {r' : Option ReadPc} {e : ReadEvent}
    (h : ReadStep t b r e b' r') (hK : Aware (.read r) (⟨b, q⟩, g)) :
    Waits t b (.read r) b' (r'.elim .idle .read) := by
  cases h with
  | prepare | finish =>
      refine .idle rfl rfl (fun u hu hq => ?_) fun _ _ => id
      exact (Function.update_of_ne hu _ b.queue).symm.trans hq
  | checkTrue hempty => exact .asleep rfl (fun _ _ => id) hempty fun _ _ => id
  | @advance bytes =>
      -- from an empty buffer nothing was read
      refine .idle rfl rfl (fun _ _ => id) fun _ _ hempty => ?_
      have hreadable : b.Readable bytes.length := ((hK .reader).1 rfl).1
      have hnone : bytes.length = 0 := by
        have hle := hreadable.stored
        rw [Buffer.used, hempty, used_self] at hle
        exact Nat.le_zero.mp hle
      have htail : b.tail < PAGE_SIZE := ((hK .page).2 rfl).1.tail
      change b.head = incrBp b.tail bytes.length
      rw [hnone, incrBp, Nat.add_zero, if_neg (Nat.not_le.mpr htail)]
      exact hempty
  | _ => exact .idle rfl rfl (fun _ _ => id) fun _ _ => id

/-- Who prints owes the readers a wake-up from the move of the head on, and is rid of it when it
wakes them. -/
theorem RecorderStep.waits {s s' : Tape ι} (h : RecorderStep t s k e s' k')
    (hK : Aware k (s, g)) : Waits t s.buffer k s'.buffer k' := by
  cases h with
  | start | finish | readCall => exact .idle rfl rfl (fun _ _ => id) fun _ _ => id
  | @sprintf owes text =>
      cases owes with
      | false => exact .idle rfl rfl (fun _ _ => id) fun _ _ => id
      | true => exact .owing rfl rfl fun _ _ => id
  | advance => exact .owing rfl rfl fun _ _ => id
  | wake => exact .paid rfl (fun _ _ => nofun) fun _ _ _ => nofun
  | read h => exact h.waits hK

end Waiting

/-! ### Results -/

section Results

variable [DecidableEq ι]

/-- The recorder as long as it is orderly, with what was printed and what was read as a history
beside the state. -/
def orderly (ι : Type) [DecidableEq ι] : Threads ι (Tape ι × Tally) RecorderPc RecorderEvent :=
  ((recorder ι).restrict Orderly).track Tally.note ⟨[], []⟩

/-- The parts are kept, in the sense of `Lib.Threads`: initially, and by every statement. -/
theorem parts_guarded (x : Part) :
    Guarded (orderly ι) (fun _ => Aware) x.free x.inside x.protects x.allows where
  start := by cases x <;> rfl
  init := by
    rintro ⟨s, g⟩ ⟨⟨cells, hs⟩, hg⟩
    have hs : s = ⟨.initial cells, true⟩ := hs
    have hg : g = ⟨[], []⟩ := hg
    subst hs hg
    have hpos : 0 < PAGE_SIZE := by decide
    cases x with
    | page => exact ⟨rfl, ⟨hpos, hpos, dvd_zero 16⟩, rfl⟩
    | printer =>
        refine ⟨rfl, ?_⟩
        change [] = [] ++ contents cells PAGE_SIZE 0 (RingBuffer.used PAGE_SIZE 0 0)
        rw [used_self]
        rfl
    | reader => exact ⟨rfl, trivial⟩
  step := by
    rintro t ⟨s, g⟩ k e ⟨s', g'⟩ k' ⟨⟨horderly, hstep⟩, hg⟩ hK
    have hg : g' = g.note e := hg
    subst hg
    exact hstep.minds horderly hK x

variable {s : State ι (Tape ι × Tally) RecorderPc}

/-- In every reachable state each part is free and its protection holds, or one thread is inside and
may rely on what the part allows. -/
theorem parts_held (h : (orderly ι).lts.Reachable s) (x : Part) :
    Held x.free x.inside x.protects x.allows s := Guarded.held_all parts_guarded h x

/-- **Readers get what was printed**, every byte once and in order: what was printed is what readers
have got, followed by what is stored, followed by at most one record, which a thread has printed and
has yet to move the head over. -/
theorem delivered_in_order (h : (orderly ι).lts.Reachable s) :
    ∃ current, s.shared.2.printed =
        s.shared.2.delivered ++ s.shared.1.buffer.stored ++ current ∧
      (current = [] ∨ current.length = 16 ∧ ∃ t owes, s.pc t = .advance owes 16) := by
  rcases parts_held h .printer with ⟨-, hsettled, -⟩ | ⟨-, t, ht, hprinting, -⟩
  · exact ⟨[], by rw [List.append_nil]; exact hsettled, .inl rfl⟩
  · change Printing s.shared (s.pc t) at hprinting
    generalize hk : s.pc t = k at ht hprinting
    cases k with
    | idle | read => cases ht
    | print => exact ⟨[], by rw [List.append_nil]; exact hprinting, .inl rfl⟩
    | advance owes written =>
        obtain ⟨rfl, -, hprinted⟩ := hprinting
        exact ⟨_, hprinted, .inr ⟨length_slice, t, owes, hk⟩⟩

/-- The queue of the readers is kept as `Lib.WaitQueue` asks it of a queue: whoever sleeps on it
waits for the buffer not to be empty, and whoever fills it owes a wake-up. -/
theorem readers_waitQueue : WaitQueue (orderly ι) (fun _ => Aware) (fun s => s.1.buffer.queue)
    RecorderPc.sleeps (fun k _ => k.owes = true) (fun _ s => s.1.buffer.head = s.1.buffer.tail)
    (fun _ _ => True) where
  start := rfl
  step := by
    rintro t ⟨s, g⟩ k e ⟨s', g'⟩ k' ⟨⟨-, hstep⟩, -⟩ hK
    have hwaits := hstep.waits hK
    exact ⟨hwaits.1, hwaits.2, hwaits.3, hwaits.4, hwaits.5⟩

/-- **No reader waits for nothing**, in any reachable state: one that sleeps and that nobody has
woken (`hqueued`) finds the buffer empty, or a thread has printed and is about to wake it.  The look
at the buffer comes after the reader has put itself on the queue, which is why no wake-up falls
between. -/
theorem reader_waits (h : (orderly ι).lts.Reachable s) (u : ι) {count : ℕ}
    (hsleeps : s.pc u = .read (.sleep count)) (hqueued : s.shared.1.buffer.queue u = true) :
    s.shared.1.buffer.stored = [] ∨ ∃ v, (s.pc v).owes = true := by
  have hasleep : Asleep (fun s : Tape ι × Tally => s.1.buffer.queue) RecorderPc.sleeps s u :=
    ⟨by rw [hsleeps]; rfl, hqueued⟩
  refine (readers_waitQueue.no_lost_wakeup (fun _ hs t => sees_of_held (parts_held hs) t)
    (fun _ _ _ _ _ => trivial) h u hasleep).imp_left fun hempty => ?_
  rw [Buffer.stored, Buffer.used, show s.shared.1.buffer.head = _ from hempty, used_self]
  rfl

end Results

end LeipoCode.Short
