import LeipoCode.Pipe.Model

/-!
# Who has the pipe open

The statements of `scull/pipe.c` as the file system sees them: which thread opens or closes a file,
and which has a call on it.  Seen so the pipe is the program of `Lib.OpenFiles`, and `nreaders` and
`nwriters` are its counters.

* `refines_openFiles` — the pipe is that program;
* `opened_of_calling` — while a call works on the pipe it is counted as open;
* `openings_census` — `nreaders` and `nwriters` are the numbers of files open for reading and for
  writing;
* `opened_run` — how the pipe is opened, with any size of the buffer.

Only the refinement looks at the statements: one of them is a step of the file system, or leaves
what the file system sees as it is.  The results are then those of the library, at the two kinds of
openings.  They need no condition on the run, and in particular nothing of the buffer.
`opened_of_calling` is what the other modules build on: `scull_p_release` frees the buffer when both
counters are zero, and a thread that waits without the semaphore has to know that this does not
happen to it.
-/

namespace LeipoCode.Pipe

open OpenFiles Threads

variable {ι φ : Type} [DecidableEq φ]

/-- The kinds of files that are counted.  A file that is open for both is counted twice. -/
inductive Opening
  | reader
  | writer
deriving DecidableEq, Repr

/-- What a file of the kind must be open for: reading or writing.  A file may be of both kinds. -/
def Opening.allowed : Opening → Flags → Bool
  | reader => Flags.read
  | writer => Flags.write

/-- `nreaders` and `nwriters`, as one counter for each kind of opening. -/
def ScullPipe.openings (d : ScullPipe) : Opening → ℤ
  | .reader => d.nreaders
  | .writer => d.nwriters

/-- What the file system sees: the files, and the two counters. -/
def Shared.table (s : Shared ι φ) : Table ι φ Flags Opening := ⟨s.files, s.dev.openings⟩

/-- What the thread has to do with a file.  A read is a call on a file open for reading, which is
what makes it count. -/
def Pc.role : Pc φ → Role φ Flags Opening
  | idle => .idle
  | openDown f | openBuffer f | openNoMem f | openSize f | openEnd f | openWp f | openRp f
  | openCount f => .opening f none
  | openUp f => .opened f
  | readDown f _ | readTest f _ | readRelease f _ | readBlock f _ | readPrepare f _
  | readCheck f _ | readSleep f _ | readCopy f _ | readFault f | readAdvance f _ | readWrap f _
  | readUp f _ | readWake f _ => .calling f (some .reader)
  | writeDown f _ | writeSpace f _ | writeRelease f _ | writeBlock f _ | writePrepare f _
  | writeCheck f _ | writeSleep f _ | writeFinish f _ | writeCopy f _ | writeFault f
  | writeAdvance f _ | writeWrap f _ | writeUp f _ | writeWake f _ => .calling f (some .writer)
  | releaseDown f | releaseCount f => .closing f
  | releaseFree f | releaseUp f => .closed f
  | pollDown f | pollTest f | pollUp f _ _ => .calling f none

section Refinement

variable {t : ι} {s s' : Shared ι φ} {k k' : Pc φ} {e : Event}

/-- The statement is one of the file system's, or nothing to it: this is how a statement of the
driver is one of `Lib.OpenFiles`. -/
def Seen (t : ι) (s : Shared ι φ) (k : Pc φ) (s' : Shared ι φ) (k' : Pc φ) : Prop :=
  OpenFiles.Step Opening.allowed t s.table k.role s'.table k'.role ∨
    s'.table = s.table ∧ k'.role = k.role

/-- `scull_p_open` counts the file in one statement, in both counters at once if it is open for
both. -/
theorem OpenStep.seen (h : OpenStep t s k e s' k') : Seen t s k s' k' := by
  cases h with
  | call hnone => exact .inl (.begin hnone (by rintro _ ⟨⟩))
  | interrupted | noMemUp => exact .inl .fail
  | count => exact .inl (.count_eq fun g => by cases g <;> rfl)
  | up => exact .inl .finish
  | down | present | kmalloc | noMem | size | last | wp | rp => exact .inr ⟨rfl, rfl⟩

/-- `scull_p_release` counts the file down in one statement, and is closed to the file system from
then on. -/
theorem ReleaseStep.seen (h : ReleaseStep t s k e s' k') : Seen t s k s' k' := by
  cases h with
  | call hfile hready hcalls => exact .inl (.close hfile hready hcalls)
  | count => exact .inl (.uncount_eq fun g => by cases g <;> rfl)
  | up => exact .inl .gone
  | down | kfree | keep => exact .inr ⟨rfl, rfl⟩

/-- `scull_p_poll` is a call on a file, open for whatever it may be. -/
theorem PollStep.seen (h : PollStep t s k e s' k') : Seen t s k s' k' := by
  cases h with
  | call hfile hready => exact .inl (.call hfile hready (by rintro _ ⟨⟩))
  | up => exact .inl .return_
  | down | test => exact .inr ⟨rfl, rfl⟩

variable [DecidableEq ι]

/-- `scull_p_read` is a call on a file open for reading, from its first statement to its return. -/
theorem ReadStep.seen (h : ReadStep t s k e s' k') : Seen t s k s' k' := by
  cases h with
  | call hfile hready hread =>
      exact .inl (.call hfile hready (by rintro _ ⟨⟩; exact hread))
  | interrupted | again | signal | faultUp | wake => exact .inl .return_
  | down | empty | data | release | block | prepare | checkTrue | checkFalse | awake | signalled
  | copy | fault | advance | wrap | up => exact .inr ⟨rfl, rfl⟩

/-- And `scull_p_write` is one on a file open for writing. -/
theorem WriteStep.seen (h : WriteStep t s k e s' k') : Seen t s k s' k' := by
  cases h with
  | call hfile hready hwrite =>
      exact .inl (.call hfile hready (by rintro _ ⟨⟩; exact hwrite))
  | interrupted | again | faultUp | wake => exact .inl .return_
  | down | full | space | release | block | prepare | checkTrue | checkFalse | awake | signal
  | finish | copy | fault | advance | wrap | up => exact .inr ⟨rfl, rfl⟩

/-- **The pipe is a driver under the file system**, statement by statement; what it does with its
buffer is nothing to the files. -/
theorem refines_openFiles :
    Refines (pipe ι φ) (program ι φ Opening.allowed) (fun _ _ _ => True) Shared.table
      Pc.role where
  init := by
    rintro _ rfl
    refine ⟨fun f => rfl, fun g => ?_⟩
    cases g <;> rfl
  start := rfl
  step t s k e s' k' h _ := by
    have hseen : Seen t s k s' k' := by
      cases h with
      | open_ h => exact h.seen
      | read h => exact h.seen
      | write h => exact h.seen
      | release h => exact h.seen
      | poll h => exact h.seen
      | ioctl => exact .inr ⟨rfl, rfl⟩
    exact hseen.imp_left fun h => ⟨(), h⟩

end Refinement

/-! ### The first open -/

section First

variable {s s' : Shared Unit Unit} {k k' : Pc Unit} {e : Event}

/-- An open finds a size that is positive and not greater than the block.  `SCULL_P_IOCTSIZE` sets
the size without a check, and an open takes it over while the block stays what it is, so that a run
in which this does not hold has copies outside the block. -/
def Fits {ι φ : Type} (s : Shared ι φ) (_ : Pc φ) (e : Event) : Prop :=
  e = .reset → 0 < s.scullPBuffer ∧ ∀ b ∈ s.dev.buffer, s.scullPBuffer ≤ b.size

/-- A statement that does not set up the buffer, as one of a run in which the sizes fit. -/
theorem Step.fits (h : Step () s k e s' k') (he : e ≠ .reset) :
    ((pipe Unit Unit).restrict Fits).step () s k e s' k' := ⟨fun hreset => absurd hreset he, h⟩

/-- A thread opens the pipe for reading and writing, with `n` bytes for the buffer. -/
theorem opened_run {P : Shared Unit Unit → Pc Unit → Event → Prop}
    (hP : ∀ s k e, Fits s k e → (∀ u, s.outq u = false) → P s k e) {n : ℕ} (hn : 0 < n) :
    ∃ es s, ((pipe Unit Unit).restrict P).Solo () .initial .idle es s .idle ∧
      s.dev = ⟨some ⟨n, fun _ => 0⟩, n, n, 0, 0, 1, 1, true⟩ ∧ (∀ u, s.outq u = false) ∧
        s.files () = some ⟨⟨true, true, false⟩, .ready, 0⟩ := by
  have hnext {s s' : Shared Unit Unit} {k k' : Pc Unit} {e : Event} (h : Step () s k e s' k')
      (hq : ∀ u, s.outq u = false) (he : e ≠ .reset) :
      ((pipe Unit Unit).restrict P).step () s k e s' k' :=
    ⟨hP _ _ _ (fun hreset => absurd hreset he) hq, h⟩
  have hq : ∀ _ : Unit, false = false := fun _ => rfl
  have hopen := Solo.start (T := (pipe Unit Unit).restrict P) (t := ()) (s := .initial)
    (k := .idle)
    |>.next (hnext (@Step.ioctl Unit Unit _ _ () _ n) hq (by simp))
    |>.next (hnext (.open_ (@OpenStep.call Unit Unit _ () _ () ⟨true, true, false⟩ rfl)) hq
      (by simp))
    |>.next (hnext (.open_ (.down rfl)) hq (by simp))
    |>.next (hnext (.open_ (.kmalloc (b := ⟨n, fun _ => 0⟩) rfl rfl)) hq (by simp))
    |>.next ⟨hP _ _ _ (fun _ => ⟨Int.natCast_pos.mpr hn, by rintro _ ⟨⟩; exact le_rfl⟩) hq,
      .open_ .size⟩
    |>.next (hnext (.open_ .last) hq (by simp))
    |>.next (hnext (.open_ .wp) hq (by simp))
    |>.next (hnext (.open_ .rp) hq (by simp))
    |>.next (hnext (.open_ .count) hq (by simp))
    |>.next (hnext (.open_ .up) hq (by simp))
  exact ⟨_, _, hopen, rfl, hq, rfl⟩

end First

/-! ### Results -/

variable [DecidableEq ι] {s : State ι (Shared ι φ) (Pc φ)}

/-- A reachable state of the pipe is one of the file system, and what is proved of files there holds
here. -/
theorem reachable_table (h : (pipe ι φ).lts.Reachable s) :
    (program ι φ Opening.allowed).lts.Reachable ⟨s.shared.table, fun t => (s.pc t).role⟩ :=
  refines_openFiles.reachable (fun _ _ _ => trivial) h

/-- **The counters are right**, in every reachable state: `nreaders` is the number of files open for
reading, from the statement of `scull_p_open` that counts to the one of `scull_p_release` that
counts down, and `nwriters` the number of those open for writing.  A file that is open for both is
in both numbers. -/
theorem openings_census (h : (pipe ι φ).lts.Reachable s) (g : Opening) :
    ∃ n : ℕ, Census (fun f => s.shared.files.counts f g.allowed = true) n ∧
      s.shared.dev.openings g = n :=
  counter_census (reachable_table h) g

/-- The pipe is opened once, for reading and writing, and counted once as each. -/
theorem openings_census_opened : ∃ s : State Unit (Shared Unit Unit) (Pc Unit),
    s.shared.dev.nreaders = 1 ∧
      ∃ n : ℕ, Census (fun f => s.shared.files.counts f Opening.reader.allowed = true) n ∧
        s.shared.dev.nreaders = n := by
  obtain ⟨es, s, hopen, hdev, -⟩ := opened_run (n := 4000) (fun _ _ _ h _ => h) (by decide)
  have hreach := Reachable.of_restrict (hopen.reachable rfl)
  exact ⟨_, congrArg ScullPipe.nreaders hdev, openings_census hreach .reader⟩

/-- So neither counter is negative, being the number of something. -/
theorem openings_nonneg (h : (pipe ι φ).lts.Reachable s) (g : Opening) :
    0 ≤ s.shared.dev.openings g := by
  obtain ⟨n, -, hn⟩ := openings_census h g
  rw [hn]
  exact Int.natCast_nonneg n

/-- **While a call reads or writes, the pipe is counted as open**, so that nobody frees its buffer.
-/
theorem opened_of_calling (h : (pipe ι φ).lts.Reachable s) {t : ι} {f : φ} {g : Opening}
    (ht : (s.pc t).role = .calling f (some g)) :
    0 < s.shared.dev.nreaders + s.shared.dev.nwriters := by
  have hg : 0 < s.shared.dev.openings g := counter_pos (reachable_table h) ht
  have hreaders : 0 ≤ s.shared.dev.nreaders := openings_nonneg h .reader
  have hwriters : 0 ≤ s.shared.dev.nwriters := openings_nonneg h .writer
  cases g with
  | reader => exact add_pos_of_pos_of_nonneg hg hwriters
  | writer => exact add_pos_of_nonneg_of_pos hreaders hg

end LeipoCode.Pipe
