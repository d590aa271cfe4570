import LeipoCode.Short.Model

/-!
# The times that can be read

The driver is a recorder (`Short.Recorder`), whichever handler it has: the handler prints, or the
bottom half does.  `Shared.tape`, `Pc.recorder` and `Event.recorder` say how a state, a program
point and an event of the driver are seen by the recorder, and `Step.records` that each statement of
the driver is one of the recorder, or is nothing to it.  The results are those of the recorder, read
back.

* `readers_get_records` — readers get what was printed, in order;
* `overruns_iff` — the zero behind a record lies behind the page exactly for every 256th of them;
* `waits_for_records` — nobody waits in `short_i_read` for nothing.

### What is asked of a run

`Unhurried` is one condition for all four handlers.  That one process reads at a time, and that a
record does not run over unread ones, are what a recorder asks (`Orderly`).  Two more are for the
bottom half: its line has 16 bytes only if it comes after less than a million interrupts, and no
other one begins while it is at work.  A tasklet meets the latter by itself; the function of a work
queue would need one processor, or luck.  Without it two bottom halves print to the same place, and
records are lost.

### How the results come back

A statement of the driver that has to do with the buffer is a statement of the recorder under the
same conditions, and all others are nothing to it (`Records`).  So a run of the driver is one of the
recorder with the silent statements left out (`recorded_run`), with the same records printed and the
same bytes read.  For the two handlers that print at once the one who prints is the handler, and the
recorder's `quiet` says that no interrupt is handled; for the two with a bottom half it is the
bottom half that prints, and `quiet` says that none is at work.

`overruns_iff` then is arithmetic: the records have 16 bytes, the page 4096, and the zero behind a
record lies behind the page just when the record ends with it.  That such a record is come to is the
run of `overruns_page`, in which each record is read before the next one is printed.
-/

namespace LeipoCode.Short

open Printf Threads

variable {ι : Type}

/-- The line of the bottom half is a record like the others, as long as the count has six digits. -/
theorem length_bhAfter {savecount : ℕ} (h : savecount < 1000000) :
    (bhAfter savecount).length = 16 := by
  have hlen : (padLeft 6 (dec savecount)).length = 6 := by
    refine length_padLeft ?_
    unfold dec
    rw [if_neg (Int.not_lt.mpr (Int.natCast_nonneg _))]
    exact Nat.toDigits_length 10 savecount 6 (by decide) h
  rw [bhAfter, bytes, List.length_map, List.length_append, List.length_append, hlen]
  rfl

/-! ### As a recorder -/

/-- The driver as a tape: nobody prints while the bottom half rests, or while no interrupt is
handled if the handler is the one that prints. -/
def Shared.tape (h : Handler) (s : Shared ι) : Tape ι :=
  ⟨s.buffer, if h.halves then s.resting else s.irq⟩

/-- The program point as one of the recorder.  The top half does not print, and is idle to the
recorder. -/
def Pc.recorder : Pc → RecorderPc
  | irqValue | irqTime | irqSprintf _ | irqEnd | bhCount | bhZero _ | bhSprintf _ | bhEnd =>
      .print false
  | irqAdvance written | bhAdvance written => .advance false written
  | irqWake | bhStamp | bhIncr | bhTest | bhWake => .print true
  | bhStampAdvance written => .advance true written
  | read k => .read k
  | _ => .idle

namespace Event

/-- The record that a statement prints, if it prints one. -/
def record : Event → Option (List UInt8)
  | stamp _ tv => some (Short.stamp tv)
  | after _ savecount => some (bhAfter savecount)
  | _ => none

/-- What a reader gets from a statement. -/
def got : Event → List UInt8
  | read (.deliver bytes) => bytes
  | _ => []

/-- The event as one of the recorder. -/
def recorder : Event → RecorderEvent
  | reading => .reading
  | read e => .read e
  | stamp p tv => .sprintf p (Short.stamp tv)
  | after p savecount => .sprintf p (bhAfter savecount)
  | _ => .silent

theorem printed_recorder (e : Event) : e.recorder.printed = e.record.getD [] := by
  cases e <;> rfl

theorem delivered_recorder (e : Event) : e.recorder.delivered = e.got := by
  cases e with
  | read e => cases e <;> rfl
  | _ => rfl

end Event

/-- A run in which nobody is in a hurry: one process reads at a time (`reading`), the next record
does not run over the unread ones (`stamp`, `after`), a bottom half comes after less than a million
interrupts, so that its line has 16 bytes (`after`), and no bottom half begins while another one is
at work (`bottom`), which only a work function could. -/
def Unhurried (s : Shared ι) (_ : Pc) : Event → Prop
  | .reading => s.buffer.unread = true
  | .bottom => s.resting = true
  | .stamp _ _ => s.buffer.used + 16 < PAGE_SIZE
  | .after _ savecount => savecount < 1000000 ∧ s.buffer.used + 16 < PAGE_SIZE
  | _ => True

section Statements

variable [DecidableEq ι] {h : Handler} {t : ι} {s s' : Shared ι} {k k' : Pc} {e : Event}

/-- A statement of the driver is one of the recorder, and an orderly one; or it is nothing to the
recorder, which then notices neither a change nor an event. -/
abbrev Records (h : Handler) (t : ι) (s : Shared ι) (k : Pc) (e : Event) (s' : Shared ι)
    (k' : Pc) : Prop :=
  Orderly (s.tape h) k.recorder e.recorder ∧
      RecorderStep t (s.tape h) k.recorder e.recorder (s'.tape h) k'.recorder ∨
    s'.tape h = s.tape h ∧ k'.recorder = k.recorder ∧ ∀ g : Tally, g.note e.recorder = g

/-- A statement that leaves the buffer alone, shows nothing and stays at the same point of the
recorder is nothing to it. -/
theorem records_none (htape : s'.tape h = s.tape h) (hpc : k'.recorder = k.recorder)
    (hevent : e.recorder = .silent) : Records h t s k e s' k' :=
  .inr ⟨htape, hpc, fun _ => hevent ▸ note_silent⟩

/-- The two handlers that print at once are recorders: an interrupt that is being handled is one
that prints. -/
theorem InterruptStep.records (hstep : InterruptStep h s k e s' k') (hh : h.halves = false)
    (hunhurried : Unhurried s k e) : Records h t s k e s' k' := by
  have hquiet (s : Shared ι) : s.tape h = ⟨s.buffer, s.irq⟩ := by
    rw [Shared.tape, if_neg (Bool.not_eq_true _ ▸ hh)]
  unfold Records
  rw [hquiet, hquiet]
  cases hstep with
  | call _ hfree | shared _ hfree => exact .inl ⟨trivial, .start hfree⟩
  | none | handled | time => exact .inr ⟨rfl, rfl, fun _ => note_silent⟩
  | @sprintf tv => exact .inl ⟨⟨length_stamp tv, hunhurried⟩, .sprintf⟩
  | advance => exact .inl ⟨trivial, .advance⟩
  | wake => exact .inl ⟨trivial, .wake⟩
  | done => exact .inl ⟨trivial, .finish⟩

/-- The top half is nothing to the recorder: it neither prints nor wakes a reader. -/
theorem TopStep.records (hstep : TopStep s k e s' k') (hh : h.halves = true) :
    Records h t s k e s' k' := by
  have hquiet (s : Shared ι) : s.tape h = ⟨s.buffer, s.resting⟩ := by rw [Shared.tape, if_pos hh]
  unfold Records
  rw [hquiet, hquiet]
  cases hstep <;> exact .inr ⟨rfl, rfl, fun _ => note_silent⟩

/-- The bottom half is a recorder, if no other one is at work and its own line has 16 bytes. -/
theorem BottomStep.records (hstep : BottomStep h s k e s' k') (hh : h.halves = true)
    (hunhurried : Unhurried s k e) : Records h t s k e s' k' := by
  have hquiet (s : Shared ι) : s.tape h = ⟨s.buffer, s.resting⟩ := by rw [Shared.tape, if_pos hh]
  unfold Records
  rw [hquiet, hquiet]
  cases hstep with
  | call => exact .inl ⟨trivial, .start hunhurried⟩
  | @sprintf savecount => exact .inl ⟨⟨length_bhAfter hunhurried.1, hunhurried.2⟩, .sprintf⟩
  | stamp => exact .inl ⟨⟨length_stamp _, hunhurried⟩, .sprintf⟩
  | advance | stampAdvance => exact .inl ⟨trivial, .advance⟩
  | wake => exact .inl ⟨trivial, .wake⟩
  | done => exact .inl ⟨trivial, .finish⟩
  | count | zero | incr | more | last => exact .inr ⟨rfl, rfl, fun _ => note_silent⟩

/-- **The driver is a recorder**, statement by statement and whichever handler it has. -/
theorem Step.records (hstep : Step h t s k e s' k') (hunhurried : Unhurried s k e) :
    Records h t s k e s' k' := by
  cases hstep with
  | interrupt hh hstep => exact hstep.records hh hunhurried
  | top hh hstep => exact hstep.records hh
  | bottom hh hstep => exact hstep.records hh hunhurried
  | readCall => exact .inl ⟨hunhurried, .readCall⟩
  | @read b k k' e hstep =>
      refine .inl ⟨trivial, ?_⟩
      have hread := RecorderStep.read (s := s.tape h) hstep
      cases k' <;> exact hread

/-- Where in the page a record is put, if the statement prints one. -/
def Event.place : Event → Option ℕ
  | stamp p _ | after p _ => some p
  | _ => none

/-- A record is put at the head, by a thread that the recorder sees printing. -/
theorem Step.place {p : ℕ} (hstep : Step h t s k e s' k') (hplace : e.place = some p) :
    p = s.buffer.head ∧ ∃ owes, k.recorder = .print owes := by
  cases hstep with
  | interrupt _ hstep =>
      cases hstep with
      | sprintf => exact ⟨(Option.some.inj hplace).symm, _, rfl⟩
      | _ => cases hplace
  | top _ hstep => cases hstep <;> cases hplace
  | bottom _ hstep =>
      cases hstep with
      | sprintf | stamp => exact ⟨(Option.some.inj hplace).symm, _, rfl⟩
      | _ => cases hplace
  | readCall | read => cases hplace

end Statements

/-! ### Results -/

section Results

variable [DecidableEq ι] {h : Handler} {s s₀ s' : State ι (Shared ι) Pc} {ls : List (ι × Event)}

/-- The records that are printed in a run, in order. -/
def records (ls : List (ι × Event)) : List (List UInt8) := ls.filterMap fun l => l.2.record

/-- What readers get in a run. -/
def got (ls : List (ι × Event)) : List UInt8 := ls.flatMap fun l => l.2.got

omit [DecidableEq ι] in
/-- The records of a run, one behind the other, are what the recorder has printed in it. -/
theorem flatten_records (ls : List (ι × Event)) :
    (records ls).flatten = ls.flatMap fun l => l.2.recorder.printed := by
  induction ls with
  | nil => rfl
  | cons l ls ih =>
      rw [List.flatMap_cons, ← ih, Event.printed_recorder, records, List.filterMap_cons]
      cases l.2.record <;> rfl

/-- An unhurried run of the driver as one of the recorder: its last state is a reachable one, with
the records and what readers have got for a history. -/
theorem recorded_run (hinit : (short h ι).lts.init s₀)
    (hrun : ((short h ι).restrict Unhurried).lts.Run s₀ ls s) :
    (orderly ι).lts.Reachable
      ⟨(s.shared.tape h, ⟨(records ls).flatten, got ls⟩), fun t => (s.pc t).recorder⟩ := by
  have htape (cells : ℕ → UInt8) :
      (Shared.initial cells : Shared ι).tape h = ⟨.initial cells, true⟩ := by
    unfold Shared.tape
    split <;> rfl
  have hseen : (orderly ι).lts.Reachable _ := run_seen Tally.note ⟨[], []⟩
    (Shared.tape h) Pc.recorder Event.recorder
    (by rintro s ⟨cells, rfl⟩; exact ⟨cells, htape cells⟩) rfl
    (fun _ _ _ _ _ _ hunhurried hstep => Step.records hstep hunhurried) hinit hrun
  rw [foldl_tally] at hseen
  simp only [List.nil_append, List.flatMap_map, Event.delivered_recorder] at hseen
  rwa [flatten_records]

/-- **Readers get what was printed**, in order and every byte once: the records of the run are what
readers have got, what is still in the buffer, and at most one record that is being printed.
`hinit` is for the empty buffer the driver starts with; `hrun` says that the run is `Unhurried`, and
each of its four conditions is needed here: two readers would both get a byte, a record over unread
ones loses them, a line of 17 bytes is cut off at the end of the page, and two bottom halves would
print to one place. -/
theorem readers_get_records (hinit : (short h ι).lts.init s₀)
    (hrun : ((short h ι).restrict Unhurried).lts.Run s₀ ls s) :
    ∃ current, (records ls).flatten = got ls ++ s.shared.buffer.stored ++ current ∧
      (current = [] ∨ current.length = 16 ∧ ∃ t owes, (s.pc t).recorder = .advance owes 16) :=
  delivered_in_order (recorded_run hinit hrun)

/-- **Nobody waits in `short_i_read` for nothing.**  Who sleeps there (`hsleeps`) and has not been
woken (`hqueued`) finds nothing to read, or who has printed something is about to wake it.  That the
run is `Unhurried` is for the buffer, whose two positions would be equal if a record filled it. -/
theorem waits_for_records (hreach : ((short h ι).restrict Unhurried).lts.Reachable s) (u : ι)
    (count : ℕ) (hsleeps : s.pc u = .read (.sleep count))
    (hqueued : s.shared.buffer.queue u = true) :
    s.shared.buffer.stored = [] ∨ ∃ v, (s.pc v).recorder.owes = true := by
  obtain ⟨s₀, ls, hinit, hrun⟩ := hreach.exists_run
  exact reader_waits (recorded_run hinit hrun) u (congrArg Pc.recorder hsleeps) hqueued

end Results

/-! ### Runs -/

section Runs

/-- The driver that prints in its handler, in unhurried runs of a single thread, which both handles
the interrupts and reads. -/
abbrev unhurried : Threads Unit (Shared Unit) Pc Event :=
  (short .interrupt Unit).restrict Unhurried

variable {s : Shared Unit} {k k' : Pc} {e : Event}

/-- A statement of the handler, as one under the condition. -/
theorem InterruptStep.unhurried {s s' : Shared Unit} (h : InterruptStep .interrupt s k e s' k')
    (hunhurried : Unhurried s k e) : Short.unhurried.step () s k e s' k' :=
  ⟨hunhurried, .interrupt rfl h⟩

/-- A statement of a read, as one under the condition, which asks nothing of it. -/
theorem ReadStep.unhurried {b : Buffer Unit} {r : ReadPc} {r' : Option ReadPc} {e : ReadEvent}
    (h : ReadStep () s.buffer r e b r') :
    Short.unhurried.step () s (.read r) (.read e) { s with buffer := b } (r'.elim .idle .read) :=
  ⟨trivial, .read h⟩

/-- All that was printed is read, after `n` records: both positions are where the next one is
printed. -/
structure AllRead (s : Shared Unit) (n : ℕ) : Prop where
  irq : s.irq = true
  unread : s.buffer.unread = true
  head : s.buffer.head = 16 * (n % 256)
  tail : s.buffer.tail = 16 * (n % 256)

/-- If the head is a record ahead of the tail, one record can be read, also where the head has come
round to the start of the page. -/
theorem wrapped_one {b : Buffer Unit} {m : ℕ} (hm : m < 256) (htail : b.tail = 16 * m)
    (hhead : b.head = incrBp b.tail 16) :
    b.head ≠ b.tail ∧ min 16 (wrapped b ((b.head : ℤ) - b.tail)).toNat = 16 := by
  have hpage : PAGE_SIZE = 4096 := rfl
  rw [htail] at hhead
  unfold wrapped
  unfold incrBp at hhead
  split_ifs at hhead ⊢ <;> omega

/-- An interrupt comes and its time is read, which moves both positions on to the next place. -/
theorem AllRead.round {n : ℕ} (h : AllRead s n) : ∃ es s',
    Solo unhurried () s .idle es s' .idle ∧ es.filterMap Event.record = [stamp .zero] ∧
      AllRead s' (n + 1) := by
  have hroom : s.buffer.used + 16 < PAGE_SIZE := by
    rw [Buffer.used, h.head, h.tail, RingBuffer.used_self]
    decide
  have hprinted : ∃ es s', Solo unhurried () s .idle es s' .idle ∧
      es.filterMap Event.record = [stamp .zero] ∧ s'.irq = true ∧ s'.buffer.unread = true ∧
        s'.buffer.tail = s.buffer.tail ∧ s'.buffer.head = incrBp s.buffer.head 16 := by
    have hrun := Solo.start (T := unhurried) (t := ()) (s := s) (k := .idle)
      |>.next (InterruptStep.unhurried (.call rfl h.irq) trivial)
      |>.next (InterruptStep.unhurried (@InterruptStep.time _ _ _ .zero) trivial)
      |>.next (InterruptStep.unhurried .sprintf hroom)
      |>.next (InterruptStep.unhurried .advance trivial)
      |>.next (InterruptStep.unhurried .wake trivial)
      |>.next (InterruptStep.unhurried .done trivial)
    refine ⟨_, _, hrun, rfl, rfl, h.unread, rfl, ?_⟩
    exact congrArg (incrBp s.buffer.head) (length_stamp _)
  obtain ⟨es, s', hrun, hrecords, hirq, hunread, htail, hhead⟩ := hprinted
  have hm : n % 256 < 256 := Nat.mod_lt n (by decide)
  rw [h.head, ← h.tail, ← htail] at hhead
  rw [h.tail] at htail
  obtain ⟨hdata, hcount⟩ := wrapped_one hm htail hhead
  have hnext : s'.buffer.head = 16 * ((n + 1) % 256) := by
    have hpage : PAGE_SIZE = 4096 := rfl
    rw [hhead, htail]
    unfold incrBp
    split_ifs <;> omega
  have hread := hrun
    |>.next ⟨show Unhurried s' .idle .reading from hunread, @Step.readCall _ _ _ _ _ 16⟩
    |>.next (ReadStep.unhurried (.data hdata))
    |>.next (ReadStep.unhurried .count0)
    |>.next (ReadStep.unhurried .wrap)
    |>.next (ReadStep.unhurried .copy)
    |>.next (ReadStep.unhurried .advance)
  refine ⟨_, _, hread, ?_, hirq, rfl, ?_, ?_⟩
  · simp only [List.filterMap_append, hrecords]
    rfl
  · exact hnext
  · change incrBp s'.buffer.tail (RingBuffer.slice s'.buffer.cells s'.buffer.tail (min 16
      (wrapped s'.buffer ((s'.buffer.head : ℤ) - s'.buffer.tail)).toNat)).length = _
    rw [RingBuffer.length_slice, hcount, ← hhead]
    exact hnext

/-- Any number of records can be printed and read, so the 256th is one that a run comes to. -/
theorem exists_allRead (n : ℕ) : ∃ es s, Solo unhurried () (.initial fun _ => 0) .idle es s .idle ∧
    (es.filterMap Event.record).length = n ∧ AllRead s n := by
  induction n with
  | zero => exact ⟨[], _, .start, rfl, rfl, rfl, rfl, rfl⟩
  | succ n ih =>
      obtain ⟨es, s, hrun, hlen, hread⟩ := ih
      obtain ⟨es', s', hround, hrecords, hread'⟩ := hread.round
      refine ⟨es ++ es', s', hrun.trans hround, ?_, hread'⟩
      rw [List.filterMap_append, List.length_append, hlen, hrecords]
      rfl

/-- The records of a run of a single thread, read off its events. -/
theorem records_map (es : List Event) :
    records (es.map fun e => ((), e)) = es.filterMap Event.record := List.filterMap_map

/-- A time is printed, and read: the run of one record, in which nothing is left in the buffer. -/
theorem readers_get_records_one :
    ∃ (s : State Unit (Shared Unit) Pc) (ls : List (Unit × Event)), (records ls).length = 1 ∧
      ∃ current, (records ls).flatten = got ls ++ s.shared.buffer.stored ++ current ∧
        (current = [] ∨ current.length = 16 ∧ ∃ t owes, (s.pc t).recorder = .advance owes 16) := by
  obtain ⟨es, s, hrun, hlen, -⟩ := exists_allRead 1
  refine ⟨_, es.map fun e => ((), e), ?_,
    readers_get_records ⟨⟨_, rfl⟩, fun _ => rfl⟩ hrun.run_start⟩
  rw [records_map, hlen]

/-- Nothing was printed yet, and who reads goes to sleep in an empty buffer. -/
theorem waits_for_records_none : ∃ s : State Unit (Shared Unit) Pc, s.pc () = .read (.sleep 16) ∧
    (s.shared.buffer.stored = [] ∨ ∃ v, (s.pc v).recorder.owes = true) := by
  have hrun := Solo.start (T := unhurried) (t := ()) (s := .initial fun _ => 0) (k := .idle)
    |>.next ⟨show Unhurried _ .idle .reading from rfl, @Step.readCall _ _ _ _ _ 16⟩
    |>.next (ReadStep.unhurried (.empty rfl))
    |>.next (ReadStep.unhurried .prepare)
    |>.next (ReadStep.unhurried (.checkTrue rfl))
  exact ⟨_, rfl, waits_for_records (hrun.reachable ⟨_, rfl⟩) () 16 rfl rfl⟩

end Runs

end LeipoCode.Short
