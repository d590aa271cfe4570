import LeipoCode.Short.Recorder
import LeipoCode.Shortprint.Model

/-!
# The times that can be read

The input side of the driver is the recorder of `Short.Recorder`: the work function prints, one
record each time it is called, and `shortp_read` reads.  The work queue has one thread, so one work
function prints at a time, and `resting` is what a recorder asks for.  The rest of what the driver
does is nothing to the recorder (`Step.records`).

* `readers_get_times` — readers get the times the work function has printed, in order;
* `waits_for_times` — nobody waits in `shortp_read` for nothing.

What is asked of a run is what a recorder asks: that one process reads at a time, and that it reads
fast enough for the next record not to run over unread ones.  A time is printed for each byte given
to the printer and for each call that finds nothing to print; it is the time of the last interrupt,
so the same time may be printed more than once.
-/

namespace LeipoCode.Shortprint

open Short Threads

variable {ι : Type}

/-! ### As a recorder -/

/-- The buffer of times, and whether the work function rests; it prints into the buffer, and nobody
else does. -/
def Shared.tape (s : Shared ι) : Tape ι := ⟨s.input, s.resting⟩

/-- The program point as one of the recorder: a thread in the work function prints. -/
def Pc.recorder : Pc → RecorderPc
  | workWait | workLock | workTest | workInactive | workWakeEmpty | workDelTimer | workModTimer
  | workStrobe | workSpace | workUnlock | workSprintf | workEnd => .print false
  | workAdvance written => .advance false written
  | workWake => .print true
  | read k => .read k
  | _ => .idle

namespace Event

/-- The event as one of the recorder. -/
def recorder : Event → RecorderEvent
  | reading => .reading
  | read e => .read e
  | sprintf p tv => .sprintf p (stamp tv)
  | _ => .silent

/-- The time that is printed. -/
def time : Event → List Timeval
  | sprintf _ tv => [tv]
  | _ => []

/-- What a reader gets. -/
def got : Event → List UInt8
  | read (.deliver bytes) => bytes
  | _ => []

/-- To the recorder, what a statement prints is the text of its time. -/
theorem printed_recorder (e : Event) : e.recorder.printed = e.time.flatMap stamp := by
  cases e with
  | sprintf p tv => exact (List.append_nil _).symm
  | _ => rfl

/-- And what a reader gets from a statement is the same to the recorder. -/
theorem delivered_recorder (e : Event) : e.recorder.delivered = e.got := by
  cases e with
  | read e => cases e <;> rfl
  | _ => rfl

end Event

/-- One process reads at a time, and it reads fast enough for the next record not to run over the
unread ones.  The driver sees to neither. -/
def Unhurried (s : Shared ι) (_ : Pc) : Event → Prop
  | .reading => s.input.unread = true
  | .sprintf _ _ => s.input.used + 16 < PAGE_SIZE
  | _ => True

section Statements

variable [DecidableEq ι] {t : ι} {s s' : Shared ι} {k k' : Pc} {e : Event}

/-- A statement of the driver is one of the recorder, and an orderly one, or it is nothing to the
recorder. -/
abbrev Records (t : ι) (s : Shared ι) (k : Pc) (e : Event) (s' : Shared ι) (k' : Pc) : Prop :=
  Orderly s.tape k.recorder e.recorder ∧
      RecorderStep t s.tape k.recorder e.recorder s'.tape k'.recorder ∨
    s'.tape = s.tape ∧ k'.recorder = k.recorder ∧ ∀ g : Tally, g.note e.recorder = g

/-- A statement that leaves the buffer of times alone, shows nothing and stays at the same point of
the recorder is nothing to it. -/
theorem records_none (htape : s'.tape = s.tape) (hpc : k'.recorder = k.recorder)
    (hevent : e.recorder = .silent) : Records t s k e s' k' :=
  .inr ⟨htape, hpc, fun _ => hevent ▸ note_silent⟩

/-- Writing to the printer is nothing to the recorder. -/
theorem WriteStep.records (h : WriteStep t s k e s' k') : Records t s k e s' k' := by
  cases h with
  | start =>
      refine records_none ?_ rfl rfl
      unfold Shared.startOutput
      split <;> rfl
  | @spaceTail look ge c =>
      refine records_none rfl ?_ rfl
      generalize outSpace ge s.head s.tail = space
      cases look <;> simp only [Look.next] <;> split_ifs <;> rfl
  | _ => exact records_none rfl rfl rfl

/-- The work function is the recorder that prints: a time after the byte it has given to the
printer. -/
theorem WorkStep.records (h : WorkStep s k e s' k') (hunhurried : Unhurried s k e) :
    Records t s k e s' k' := by
  cases h with
  | call _ hresting => exact .inl ⟨trivial, .start hresting⟩
  | sprintf =>
      have hlen := length_stamp s.tv
      refine .inl ⟨⟨hlen, hunhurried⟩, ?_⟩
      exact .sprintf
  | advance => exact .inl ⟨trivial, .advance⟩
  | wake => exact .inl ⟨trivial, .wake⟩
  | done => exact .inl ⟨trivial, .finish⟩
  | _ => exact records_none rfl rfl rfl

/-- **The driver is a recorder**, statement by statement. -/
theorem Step.records (h : Step t s k e s' k') (hunhurried : Unhurried s k e) :
    Records t s k e s' k' := by
  cases h with
  | write h => exact h.records
  | work h => exact h.records hunhurried
  | handler h => cases h <;> exact records_none rfl rfl rfl
  | close h => cases h <;> exact records_none rfl rfl rfl
  | readCall => exact .inl ⟨hunhurried, .readCall⟩
  | @read r k k' e h =>
      refine .inl ⟨trivial, ?_⟩
      have hstep := RecorderStep.read (s := s.tape) h
      cases k' <;> exact hstep

end Statements

/-! ### Results -/

section Results

variable [DecidableEq ι] {s s₀ : State ι (Shared ι) Pc} {ls : List (ι × Event)}

/-- The times that are printed in a run, in order. -/
def times (ls : List (ι × Event)) : List Timeval := ls.flatMap fun l => l.2.time

/-- What readers get in a run. -/
def got (ls : List (ι × Event)) : List UInt8 := ls.flatMap fun l => l.2.got

/-- An unhurried run of the driver as one of the recorder: its last state is a reachable one, with
the times and what readers have got for a history. -/
theorem recorded_run (hinit : (shortprint ι).lts.init s₀)
    (h : ((shortprint ι).restrict Unhurried).lts.Run s₀ ls s) :
    (orderly ι).lts.Reachable
      ⟨(s.shared.tape, ⟨(times ls).flatMap stamp, got ls⟩), fun t => (s.pc t).recorder⟩ := by
  have hseen : (orderly ι).lts.Reachable _ := run_seen Tally.note ⟨[], []⟩
    Shared.tape Pc.recorder Event.recorder
    (by rintro s ⟨cells, incells, rfl⟩; exact ⟨incells, rfl⟩) rfl
    (fun _ _ _ _ _ _ hunhurried hstep => Step.records hstep hunhurried) hinit h
  rw [foldl_tally] at hseen
  simp only [List.nil_append, List.flatMap_map, Event.printed_recorder,
    Event.delivered_recorder] at hseen
  rwa [times, List.flatMap_assoc]

/-- **Readers get the times that were printed**, in order and every byte once: the records of these
times are what readers have got, then what still is in the buffer, then at most the record that is
being printed.  `hinit` is for the empty buffer at the start, and `h` says that the run is
`Unhurried`; without it two readers would both get a byte, or a record would run over unread ones.
-/
theorem readers_get_times (hinit : (shortprint ι).lts.init s₀)
    (h : ((shortprint ι).restrict Unhurried).lts.Run s₀ ls s) :
    ∃ current, (times ls).flatMap stamp = got ls ++ s.shared.input.stored ++ current ∧
      (current = [] ∨ current.length = 16 ∧ ∃ t, s.pc t = .workAdvance 16) := by
  obtain ⟨current, hprinted, hcurrent⟩ := delivered_in_order (recorded_run hinit h)
  refine ⟨current, hprinted, hcurrent.imp_right fun hc => ⟨hc.1, ?_⟩⟩
  obtain ⟨t, owes, ht⟩ := hc.2
  refine ⟨t, ?_⟩
  change (s.pc t).recorder = .advance owes 16 at ht
  generalize s.pc t = k at ht ⊢
  cases k with
  | workAdvance written =>
      obtain ⟨-, rfl⟩ := RecorderPc.advance.inj ht
      rfl
  | _ => cases ht

/-- A statement of the driver, as one under the condition. -/
theorem Step.unhurried {t : ι} {s s' : Shared ι} {k k' : Pc} {e : Event} (h : Step t s k e s' k')
    (hunhurried : Unhurried s k e) : ((shortprint ι).restrict Unhurried).step t s k e s' k' :=
  ⟨hunhurried, h⟩

/-- One byte is written and printed, and its time is in the buffer. -/
theorem readers_get_times_one : ∃ (s : State Unit (Shared Unit) Pc) (ls : List (Unit × Event)),
    times ls = [.zero] ∧
      ∃ current, (times ls).flatMap stamp = got ls ++ s.shared.input.stored ++ current ∧
        (current = [] ∨ current.length = 16 ∧ ∃ t, s.pc t = .workAdvance 16) := by
  have hrun := Solo.start (T := (shortprint Unit).restrict Unhurried) (t := ())
      (s := .initial (fun _ => 0) (fun _ => 0)) (k := .idle)
    |>.next (Step.unhurried (.write (@WriteStep.call _ _ _ _ [65])) trivial)
    |>.next (Step.unhurried (.write (.down rfl)) trivial)
    |>.next (Step.unhurried (.write (.more (by decide))) trivial)
    |>.next (Step.unhurried (.write .space) trivial)
    |>.next (Step.unhurried (.write .spaceTail) trivial)
    |>.next (Step.unhurried (.write (@WriteStep.copy _ _ _ _ 4095 _)) trivial)
    |>.next (Step.unhurried (.write .advance) trivial)
    |>.next (Step.unhurried (.write (.start rfl)) trivial)
    |>.next (Step.unhurried (.write (.done (by decide))) trivial)
    |>.next (Step.unhurried (.write .out) trivial)
    |>.next (Step.unhurried (.work (.call rfl rfl)) trivial)
    |>.next (Step.unhurried (.work .ready) trivial)
    |>.next (Step.unhurried (.work (.lock rfl)) trivial)
    |>.next (Step.unhurried (.work (.byte (by decide))) trivial)
    |>.next (Step.unhurried (.work .modTimer) trivial)
    |>.next (Step.unhurried (.work .strobe) trivial)
    |>.next (Step.unhurried (.work (.noSpace (by decide))) trivial)
    |>.next (Step.unhurried (.work .unlock) trivial)
    |>.next (Step.unhurried (.work .sprintf) (show 0 + 16 < PAGE_SIZE by decide))
    |>.next (Step.unhurried (.work .advance) trivial)
    |>.next (Step.unhurried (.work .wake) trivial)
    |>.next (Step.unhurried (.work .done) trivial)
  exact ⟨_, _, by exact rfl, readers_get_times ⟨⟨_, _, rfl⟩, fun _ => rfl⟩ hrun.run_start⟩

/-- **Nobody waits in `shortp_read` for nothing.**  Who sleeps there (`hsleeps`) and has not been
woken (`hqueued`) finds nothing to read, or the work function is about to wake it. -/
theorem waits_for_times (h : ((shortprint ι).restrict Unhurried).lts.Reachable s) (u : ι)
    (count : ℕ) (hsleeps : s.pc u = .read (.sleep count))
    (hqueued : s.shared.input.queue u = true) :
    s.shared.input.stored = [] ∨ ∃ v, s.pc v = .workWake := by
  obtain ⟨s₀, ls, hinit, hrun⟩ := h.exists_run
  have hwaits := reader_waits (recorded_run hinit hrun) u (congrArg Pc.recorder hsleeps) hqueued
  refine hwaits.imp_right fun ⟨v, hv⟩ => ⟨v, ?_⟩
  change (s.pc v).recorder.owes = true at hv
  generalize s.pc v = k at hv ⊢
  cases k <;> first | rfl | cases hv

/-- Nothing was printed yet, and who reads goes to sleep in an empty buffer. -/
theorem waits_for_times_none : ∃ s : State Unit (Shared Unit) Pc, s.pc () = .read (.sleep 16) ∧
    (s.shared.input.stored = [] ∨ ∃ v, s.pc v = .workWake) := by
  have hrun := Solo.start (T := (shortprint Unit).restrict Unhurried) (t := ())
      (s := .initial (fun _ => 0) (fun _ => 0)) (k := .idle)
    |>.next (Step.unhurried (@Step.readCall _ _ _ _ 16) rfl)
    |>.next (Step.unhurried (.read (.empty rfl)) trivial)
    |>.next (Step.unhurried (.read .prepare) trivial)
    |>.next (Step.unhurried (.read (.checkTrue rfl)) trivial)
  exact ⟨_, rfl, waits_for_times (hrun.reachable ⟨_, _, rfl⟩) () 16 rfl rfl⟩

end Results

end LeipoCode.Shortprint
