import LeipoCode.Lib.OpenFiles

/-!
# The device that opens once: `scullsingle` of `scull/access.c`

`scull_s_open` decrements an atomic counter and looks whether it got to zero; if not, it increments
it again and gives up.  Between the two statements other threads see a counter that is too small.

* `available_eq` — the counter is one, less the files that have the device, less the opens that are
  about to give up; and **at most one file has the device**;
* `trim_alone` — an open trims the device only while no call works on it.

There is no lock here, so the invariant is a count of its own: of those that have got the device
(`holders`), which the events tell, and of those that are about to put back what they have taken
(`Pc.givesUp`).  The device is taken by a statement that finds the counter at one, and then both
counts are zero.  That the holder of the device is a file and not a thread, so that it is kept while
no thread is at work and given back by any thread that closes the file, is what `Lib.OpenFiles`
says.

The counter is an integer without a bound.  It goes down by one for each thread that is between the
two statements, and there are fewer threads than an `int` can count.
-/

namespace LeipoCode.Access.Single

open OpenFiles Threads

variable {ι φ : Type}

/-- What `scull_s_open` looks at: `(f_flags & O_ACCMODE) == O_WRONLY`, in which case the device is
trimmed. -/
structure Flags where
  writeOnly : Bool
deriving DecidableEq, Repr

/-- `scull_s_available`, and the files.  The counter is an atomic one, and there is no lock. -/
structure Shared (ι φ : Type) where
  available : ℤ
  files : Files ι φ Flags

/-- The program points, each before the statement it names.  Between the test of the counter and the
trim another thread may run. -/
inductive Pc (φ : Type)
  | idle
  -- `scull_s_open`
  | openTest (f : φ)
  | openInc (f : φ)
  | openTrim (f : φ)
  | openDone (f : φ)
  /-- `scull_read`, `scull_write` and the others of the bare device. -/
  | working (f : φ)
  -- `scull_s_release`
  | releaseInc (f : φ)
  | releaseDone (f : φ)

/-- What a statement shows of itself: the device is taken or given back, an open is refused, or the
device is trimmed. -/
inductive Event
  | silent
  /-- `atomic_dec_and_test` has found the device free. -/
  | took
  | gave
  | busy
  /-- `scull_trim`. -/
  | trim
deriving DecidableEq, Repr

/-- The statements of `scull_s_open` and `scull_s_release`, and the calls between them.
`atomic_dec_and_test` is one statement, and so is `atomic_inc`. -/
inductive Step [DecidableEq φ] (t : ι) : Shared ι φ → Pc φ → Event → Shared ι φ → Pc φ → Prop
  | open_ {s : Shared ι φ} {f : φ} {flags : Flags} :
      s.files f = none →
      Step t s .idle .silent
        { s with files := Function.update s.files f (some ⟨flags, .opening t, 0⟩) } (.openTest f)
  | decAndTest {s : Shared ι φ} {f : φ} :
      s.available - 1 = 0 →
      Step t s (.openTest f) .took
        ⟨s.available - 1, s.files.setStage f (.counted t)⟩ (.openTrim f)
  | decAndFail {s : Shared ι φ} {f : φ} :
      s.available - 1 ≠ 0 →
      Step t s (.openTest f) .silent { s with available := s.available - 1 } (.openInc f)
  | busy {s : Shared ι φ} {f : φ} :
      Step t s (.openInc f) .busy
        ⟨s.available + 1, Function.update s.files f none⟩ .idle
  | trim {s : Shared ι φ} {f : φ} :
      s.files.has f Flags.writeOnly = true → Step t s (.openTrim f) .trim s (.openDone f)
  | keep {s : Shared ι φ} {f : φ} :
      s.files.has f Flags.writeOnly = false → Step t s (.openTrim f) .silent s (.openDone f)
  | opened {s : Shared ι φ} {f : φ} :
      Step t s (.openDone f) .silent { s with files := s.files.setStage f .ready } .idle
  | call {s : Shared ι φ} {f : φ} {file : Entry ι Flags} :
      s.files f = some file → file.stage = .ready →
      Step t s .idle .silent { s with files := s.files.enter f } (.working f)
  | return_ {s : Shared ι φ} {f : φ} :
      Step t s (.working f) .silent { s with files := s.files.leave f } .idle
  | close {s : Shared ι φ} {f : φ} {file : Entry ι Flags} :
      s.files f = some file → file.stage = .ready → file.calls = 0 →
      Step t s .idle .silent { s with files := s.files.setStage f (.closing t) } (.releaseInc f)
  | release {s : Shared ι φ} {f : φ} :
      Step t s (.releaseInc f) .gave
        ⟨s.available + 1, s.files.setStage f (.uncounted t)⟩ (.releaseDone f)
  | gone {s : Shared ι φ} {f : φ} :
      Step t s (.releaseDone f) .silent { s with files := Function.update s.files f none } .idle

/-- The device, and all that use it: any number of threads that open and close it in any order. -/
def scullSingle (ι φ : Type) [DecidableEq φ] : Threads ι (Shared ι φ) (Pc φ) Event where
  init s := s = ⟨1, fun _ => none⟩
  start := .idle
  step := Step

/-! ### Who has the device -/

/-- How many files have it, as the events tell, one step after the other. -/
def holders (n : ℤ) : Event → ℤ
  | .took => n + 1
  | .gave => n - 1
  | .silent | .busy | .trim => n

/-- Every file is of the one kind, since each open takes the counter down by one. -/
abbrev anyFile : Unit → Flags → Bool := fun _ _ => true

/-- What the thread has to do with a file: it is open to the file system from the statement that has
taken the device. -/
def Pc.role : Pc φ → Role φ Flags Unit
  | idle => .idle
  | openTest f | openInc f => .opening f none
  | openTrim f | openDone f => .opened f
  | working f => .calling f none
  | releaseInc f => .closing f
  | releaseDone f => .closed f

/-- Decremented, and about to be incremented again: the open has found the device taken. -/
def Pc.givesUp : Pc φ → Bool
  | openInc _ => true
  | _ => false

variable [DecidableEq φ]

/-- The device with the number of its holders is a driver under the file system. -/
theorem refines_openFiles : Refines ((scullSingle ι φ).track holders 0) (program ι φ anyFile)
    (Knows anyFile) (fun s => ⟨s.1.files, fun _ => s.2⟩) Pc.role where
  init := by
    rintro ⟨s, n⟩ ⟨hs, hn⟩
    have hs : s = ⟨1, fun _ => none⟩ := hs
    subst hs
    exact ⟨fun f => rfl, fun g => hn⟩
  start := rfl
  step := by
    rintro t ⟨s, n⟩ k e ⟨s', n'⟩ k' ⟨hstep, hn⟩ hknows
    have hn : n' = holders n e := hn
    subst hn
    cases hstep with
    | open_ hnone => exact .inl ⟨(), .begin hnone (by rintro _ ⟨⟩)⟩
    | @decAndTest f =>
        obtain ⟨file, hfile, -⟩ := hknows f rfl
        exact .inl ⟨(), .count_eq fun g => by rw [Files.has_eq hfile]; rfl⟩
    | busy => exact .inl ⟨(), .fail⟩
    | decAndFail | trim | keep => exact .inr ⟨rfl, rfl⟩
    | opened => exact .inl ⟨(), .finish⟩
    | call hfile hready => exact .inl ⟨(), .call hfile hready (by rintro _ ⟨⟩)⟩
    | return_ => exact .inl ⟨(), .return_⟩
    | close hfile hready hcalls => exact .inl ⟨(), .close hfile hready hcalls⟩
    | @release f =>
        obtain ⟨file, hfile, -⟩ := hknows f rfl
        exact .inl ⟨(), .uncount_eq fun g => by rw [Files.has_eq hfile]; rfl⟩
    | gone => exact .inl ⟨(), .gone⟩

/-! ### The counter -/

section Counter

variable {t : ι} {s s' : Shared ι φ} {k k' : Pc φ} {e : Event} {n : ℤ}

/-- **What a statement does to the counter**, as the holders and the thread itself change; the
device is taken only when the counter was one. -/
theorem Step.available (h : Step t s k e s' k') :
    s'.available + holders n e + k'.givesUp.toNat = s.available + n + k.givesUp.toNat ∧
      (holders n e ≤ n ∨ s.available = 1 ∧ holders n e = n + 1) := by
  cases h with
  | open_ | trim | keep | opened | call | return_ | close | gone => exact ⟨rfl, .inl le_rfl⟩
  | decAndTest hzero =>
      refine ⟨?_, .inr ⟨by omega, rfl⟩⟩
      change s.available - 1 + (n + 1) + 0 = s.available + n + 0
      omega
  | decAndFail =>
      refine ⟨?_, .inl le_rfl⟩
      change s.available - 1 + n + 1 = s.available + n + 0
      omega
  | busy =>
      refine ⟨?_, .inl le_rfl⟩
      change s.available + 1 + n + 0 = s.available + n + 1
      omega
  | release =>
      refine ⟨?_, .inl (Int.sub_le_self n (by decide))⟩
      change s.available + 1 + (n - 1) + 0 = s.available + n + 0
      omega

end Counter

section Results

variable [DecidableEq ι] {s : State ι (Shared ι φ) (Pc φ)}

/-- The device has the file: its open has succeeded, and its release has not begun to count. -/
abbrev Shared.holds (s : Shared ι φ) (f : φ) : Prop := s.files.counts f (anyFile ()) = true

/-- A reachable state of the device is one of the file system, so that the number of holders is a
census of files. -/
theorem reachable_files {s : State ι (Shared ι φ × ℤ) (Pc φ)}
    (h : ((scullSingle ι φ).track holders 0).lts.Reachable s) :
    (program ι φ anyFile).lts.Reachable
      ⟨⟨s.shared.1.files, fun _ => s.shared.2⟩, fun t => (s.pc t).role⟩ :=
  refines_openFiles.reachable (fun _ hs t => knows_of_reachable hs t) h

/-- The counter, along the runs: the step lemma goes into a census of those that give up, and the
number of holders comes from the events. -/
theorem available_tracked {s : State ι (Shared ι φ × ℤ) (Pc φ)}
    (h : ((scullSingle ι φ).track holders 0).lts.Reachable s) :
    s.shared.2 ≤ 1 ∧ ∃ m : ℕ, Census (fun t => (s.pc t).givesUp = true) m ∧
      s.shared.1.available = 1 - s.shared.2 - m := by
  induction h with
  | @init s hs =>
      obtain ⟨⟨hinit, hzero⟩, hstart⟩ := hs
      have hinit : s.shared.1 = ⟨1, fun _ => none⟩ := hinit
      rw [hinit, hzero]
      refine ⟨by decide, 0, Census.empty fun t => ?_, rfl⟩
      rw [hstart t]
      exact Bool.false_ne_true
  | @step s s' l hs hstep ih =>
      obtain ⟨hone, m, hm, hav⟩ := ih
      obtain ⟨k', ⟨hk', hn⟩, hpc⟩ := hstep
      obtain ⟨holders, hcensus, hcounter⟩ := counter_census (reachable_files hs) ()
      obtain ⟨hsum, htook⟩ := Step.available (n := s.shared.2) hk'
      rw [← hn] at hsum htook
      obtain ⟨m', hm', hdiff⟩ := hm.change (t := l.1)
        (Q := fun t => (s'.pc t).givesUp = true) fun u hu => by rw [pc_other hpc hu]
      rw [pc_self hpc] at hdiff
      have hcounter : s.shared.2 = holders := hcounter
      refine ⟨?_, m', hm', ?_⟩
      · -- the number does not grow, or nobody had the device
        omega
      · have htoNat (b : Bool) : (b.toNat : ℤ) = if b = true then 1 else 0 := by cases b <;> rfl
        rw [htoNat, htoNat] at hsum
        omega

/-- A thread gets the device for writing, and another finds it taken and is about to give up. -/
theorem taken_run : ∃ s, (scullSingle Bool Bool).lts.Reachable s ∧ s.shared.available = -1 ∧
    s.pc true = .openTrim true ∧ s.pc false = .openInc false := by
  have htaken := Solo.start (T := scullSingle Bool Bool) (t := true) (s := ⟨1, fun _ => none⟩)
      (k := .idle)
    |>.next (@Step.open_ Bool Bool _ true _ true ⟨true⟩ rfl)
    |>.next (.decAndTest rfl)
  have hlate := (Solo.resume (htaken.reachable rfl) false)
    |>.next (@Step.open_ Bool Bool _ false _ false ⟨true⟩ rfl)
    |>.next (.decAndFail (by decide))
  exact ⟨_, hlate.reachable_of rfl (htaken.reachable rfl), rfl, rfl, rfl⟩

/-- **The counter**, in every reachable state: one, less the files that have the device, of which
there is at most one, less the opens that are about to give up.  So the next open succeeds exactly
if nobody has the device and nobody has just tried. -/
theorem available_eq (h : (scullSingle ι φ).lts.Reachable s) :
    ∃ n m : ℕ, Census (fun f => s.shared.holds f) n ∧ n ≤ 1 ∧
      Census (fun t => (s.pc t).givesUp = true) m ∧ s.shared.available = 1 - n - m := by
  obtain ⟨n, htracked⟩ : ∃ n, ((scullSingle ι φ).track holders 0).lts.Reachable
      ⟨(s.shared, n), s.pc⟩ := Reachable.track h
  obtain ⟨hone, m, hm, hav⟩ := available_tracked htracked
  obtain ⟨holding, hcensus, hcounter⟩ := counter_census (reachable_files htracked) ()
  have hcounter : n = holding := hcounter
  subst hcounter
  exact ⟨holding, m, hcensus, Int.ofNat_le.mp hone, hm, hav⟩

/-- One file has the device, and one open is about to give up, so the counter is at minus one. -/
theorem available_eq_taken : ∃ s : State Bool (Shared Bool Bool) (Pc Bool),
    s.shared.available = -1 ∧ ∃ n m : ℕ, Census (fun f => s.shared.holds f) n ∧ n ≤ 1 ∧
      Census (fun t => (s.pc t).givesUp = true) m ∧ s.shared.available = 1 - n - m := by
  obtain ⟨s, hreach, havailable, -⟩ := taken_run
  exact ⟨s, havailable, available_eq hreach⟩

/-- Two files that have the device are one and the same. -/
theorem holds_unique (h : (scullSingle ι φ).lts.Reachable s) {f g : φ}
    (hf : s.shared.holds f) (hg : s.shared.holds g) : f = g := by
  obtain ⟨n, m, ⟨who, hcard, hwho⟩, hone, -⟩ := available_eq h
  exact Finset.card_le_one.mp (hcard.trans_le hone) f ((hwho f).mpr hf) g ((hwho g).mpr hg)

/-- **The device is trimmed only while nobody works on it**: a thread about to call `scull_trim` has
it for itself, since any other would have the same file open, and that one is not ready for calls
yet. -/
theorem trim_alone (h : (scullSingle ι φ).lts.Reachable s) {t u : ι} {f g : φ}
    (ht : s.pc t = .openTrim f) : s.pc u ≠ .working g := by
  intro hu
  obtain ⟨n, htracked⟩ : ∃ n, ((scullSingle ι φ).track holders 0).lts.Reachable
      ⟨(s.shared, n), s.pc⟩ := Reachable.track h
  have hknows := knows_of_reachable (reachable_files htracked)
  obtain ⟨file, hfile, hstage, -⟩ := hknows t f (by simp only [ht]; rfl)
  obtain ⟨other, hother, hready, -⟩ := hknows u g (by simp only [hu]; rfl)
  simp only [ht, hu, Pc.role, Role.stage] at hstage hready
  have hfg : f = g := holds_unique h
    ((Files.counts_eq hfile).trans (by rw [hstage]; rfl))
    ((Files.counts_eq hother).trans (by rw [hready]; rfl))
  subst hfg
  rw [hfile, Option.some_inj] at hother
  rw [← hother, hstage] at hready
  cases hready

/-- One thread is about to trim the device, while the other is about to give up. -/
theorem trim_alone_taken : ∃ s : State Bool (Shared Bool Bool) (Pc Bool),
    s.pc true = .openTrim true ∧ s.pc false ≠ .working false := by
  obtain ⟨s, hreach, -, htrim, -⟩ := taken_run
  exact ⟨s, htrim, trim_alone hreach htrim⟩

end Results

end LeipoCode.Access.Single
