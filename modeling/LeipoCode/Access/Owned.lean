import LeipoCode.Lib.OpenFiles
import LeipoCode.Lib.WaitQueue

/-!
# The devices of one user: `sculluid` and `scullwuid` of `scull/access.c`

A device that is open belongs to the user who opened it first; others are refused by `scull_u_open`,
and made to wait by `scull_w_open`.  The two differ in that, and in that `scull_w_release` wakes who
waits; `waits` tells them apart here.

* `refuses_eq` — the two conditions are one;
* `count_census`, `opened_mayUse` — `count` is the number of open files, and **every one of them was
  opened by somebody who may use the owner's device**;
* `opener_sleeps` — an open that waits in `scull_w_open` is refused still, or is about to be woken.

### How it goes

Three libraries meet here.  To the file system (`Lib.OpenFiles`) the device is a driver that counts
the files of one kind, which gives the census; the spin lock guards what a thread has found of the
owner between the test and the count (`Local`); and the wait queue (`Lib.WaitQueue`) is about those
who sleep.

`scull_u_open` sets the owner when `count` is zero, and then no file is counted, so nobody is left
who was let in by another owner.  Whether somebody may use the device is decided when it is opened
and not later: `cred` is what `current` was allowed at that time.

`scull_w_release` wakes who waits after it has given back the lock, and by what `count` was then
(`temp`).  In between another open can take the device; who waits is woken all the same, and looks
again.

The census says that the count is the number of files, and the lock that the owner is not changed
between a test and the count that follows it; neither says who the files belong to.  This is
`Allowed`, the third invariant, which uses both: a file that is counted was let in by the test,
whose outcome still holds (`Local`), and the owner is set only when the test has found the count at
zero, when by the census there is no file that could have been let in by another one
(`Step.allowed`).

A thread that sleeps in `scull_w_open` has looked at the condition while it was on the queue.  From
then on only the release of the last file can make the device available to it, and the thread that
has made this release owes a wake-up until it has called `wake_up` (`Pc.owes`).  In between it holds
no lock, so others may come and go; the sleeper is on the queue all the time, and gets the call.
-/

namespace LeipoCode.Access.Owned

open OpenFiles Threads

variable {ι φ : Type}

/-- What `current` is allowed: `uid`, `euid` and `capable(CAP_DAC_OVERRIDE)`. -/
structure Cred where
  uid : ℕ
  euid : ℕ
  override : Bool
deriving DecidableEq, Repr

/-- What an open looks at: `(f_flags & O_ACCMODE) == O_WRONLY`, `f_flags & O_NONBLOCK`, and who
it is. -/
structure Attr where
  writeOnly : Bool
  nonblock : Bool
  cred : Cred
deriving DecidableEq, Repr

/-- `scull_u_count`, `scull_u_owner` and `scull_u_lock`, or those of `scull_w_device` and
`scull_w_wait`; and the files. -/
structure Shared (ι φ : Type) where
  count : ℤ
  owner : ℕ
  /-- The spin lock is free. -/
  lock : Bool
  wait : ι → Bool
  files : Files ι φ Attr

/-- Loaded, and not opened yet: nobody is counted, and whose device it would be does not matter. -/
def Shared.initial : Shared ι φ where
  count := 0
  owner := 0
  lock := true
  wait _ := false
  files _ := none

/-- The credentials are good for the owner's device: by the user or the effective user, or because
they override such checks. -/
def Cred.mayUse (c : Cred) (owner : ℕ) : Bool := owner == c.uid || owner == c.euid || c.override

/-- The condition under which `scull_u_open` refuses: the device is in use, it is not that of the
one who opens it, and the credentials do not override this. -/
def refuses (s : Shared ι φ) (c : Cred) : Bool :=
  s.count != 0 && s.owner != c.uid && s.owner != c.euid && !c.override

/-- `scull_w_available`: the condition of `scull_u_open` the other way round. -/
def scullWAvailable (s : Shared ι φ) (c : Cred) : Bool :=
  s.count == 0 || s.owner == c.uid || s.owner == c.euid || c.override

/-- **The two devices refuse the same**: the condition written out in `scull_u_open` is the one that
`scull_w_available` has for a function. -/
theorem refuses_eq (s : Shared ι φ) (c : Cred) : refuses s c = !scullWAvailable s c := by
  simp [refuses, scullWAvailable, bne, Bool.not_or]

/-- The device is not available if it is open, and in the hands of somebody whose device these
credentials may not use. -/
theorem available_eq_false_iff {s : Shared ι φ} {c : Cred} :
    scullWAvailable s c = false ↔ s.count ≠ 0 ∧ c.mayUse s.owner = false := by
  simp [scullWAvailable, Cred.mayUse, and_assoc]

/-- A device that is available although it is open is in the right hands. -/
theorem available_eq_true {s : Shared ι φ} {c : Cred} (h : scullWAvailable s c = true)
    (hcount : s.count ≠ 0) : c.mayUse s.owner = true := by
  simpa [scullWAvailable, Cred.mayUse, hcount] using h

/-! ### Program points and statements -/

/-- The program points, each before the statement it names.  Both opens go through the same ones,
but for those of the wait. -/
inductive Pc (φ : Type)
  | idle
  -- `scull_u_open`, `scull_w_open`
  | openLock (f : φ) (a : Attr)
  | openTest (f : φ) (a : Attr)
  | openBusy (f : φ) (a : Attr)
  | openUnlockWait (f : φ) (a : Attr)
  | openBlock (f : φ) (a : Attr)
  | openPrepare (f : φ) (a : Attr)
  | openCheck (f : φ) (a : Attr)
  | openSleep (f : φ) (a : Attr)
  | openGrab (f : φ) (a : Attr)
  | openCount (f : φ) (a : Attr)
  | openUnlock (f : φ)
  | openTrim (f : φ)
  | openDone (f : φ)
  /-- `scull_read`, `scull_write` and the others of the bare device. -/
  | working (f : φ)
  -- `scull_u_release`, `scull_w_release`
  | releaseLock (f : φ)
  | releaseCount (f : φ)
  | releaseUnlock (f : φ) (temp : ℤ)
  | releaseWake (f : φ) (temp : ℤ)
  | releaseDone (f : φ)

/-- What a statement shows of itself: how an open has failed, and that the device is trimmed. -/
inductive Event
  | silent
  | busy
  | again
  | interrupted
  /-- `scull_trim`. -/
  | trim
deriving DecidableEq, Repr

/-- The statements up to the test, with the wait of `scull_w_open`: `wait_event_interruptible` puts
the thread on the queue, looks at the condition without the lock, and sleeps. -/
inductive EnterStep [DecidableEq ι] [DecidableEq φ] (waits : Bool) (t : ι) :
    Shared ι φ → Pc φ → Event → Shared ι φ → Pc φ → Prop
  | call {s : Shared ι φ} {f : φ} {a : Attr} :
      s.files f = none →
      EnterStep waits t s .idle .silent
        { s with files := Function.update s.files f (some ⟨a, .opening t, 0⟩) } (.openLock f a)
  | lock {s : Shared ι φ} {f : φ} {a : Attr} :
      s.lock = true →
      EnterStep waits t s (.openLock f a) .silent { s with lock := false } (.openTest f a)
  | refused {s : Shared ι φ} {f : φ} {a : Attr} :
      waits = false → refuses s a.cred = true →
      EnterStep waits t s (.openTest f a) .silent s (.openBusy f a)
  | busy {s : Shared ι φ} {f : φ} {a : Attr} :
      EnterStep waits t s (.openBusy f a) .busy
        { s with lock := true, files := Function.update s.files f none } .idle
  | allowed {s : Shared ι φ} {f : φ} {a : Attr} :
      waits = false → refuses s a.cred = false →
      EnterStep waits t s (.openTest f a) .silent s (.openGrab f a)
  | unavailable {s : Shared ι φ} {f : φ} {a : Attr} :
      waits = true → scullWAvailable s a.cred = false →
      EnterStep waits t s (.openTest f a) .silent s (.openUnlockWait f a)
  | available {s : Shared ι φ} {f : φ} {a : Attr} :
      waits = true → scullWAvailable s a.cred = true →
      EnterStep waits t s (.openTest f a) .silent s (.openGrab f a)
  | unlock {s : Shared ι φ} {f : φ} {a : Attr} :
      EnterStep waits t s (.openUnlockWait f a) .silent { s with lock := true } (.openBlock f a)
  | again {s : Shared ι φ} {f : φ} {a : Attr} :
      a.nonblock = true →
      EnterStep waits t s (.openBlock f a) .again
        { s with files := Function.update s.files f none } .idle
  | block {s : Shared ι φ} {f : φ} {a : Attr} :
      a.nonblock = false →
      EnterStep waits t s (.openBlock f a) .silent s (.openPrepare f a)
  | prepare {s : Shared ι φ} {f : φ} {a : Attr} :
      EnterStep waits t s (.openPrepare f a) .silent
        { s with wait := Function.update s.wait t true } (.openCheck f a)
  | checkTrue {s : Shared ι φ} {f : φ} {a : Attr} :
      scullWAvailable s a.cred = true →
      EnterStep waits t s (.openCheck f a) .silent
        { s with wait := Function.update s.wait t false } (.openLock f a)
  | checkFalse {s : Shared ι φ} {f : φ} {a : Attr} :
      scullWAvailable s a.cred = false →
      EnterStep waits t s (.openCheck f a) .silent s (.openSleep f a)
  | awake {s : Shared ι φ} {f : φ} {a : Attr} :
      s.wait t = false →
      EnterStep waits t s (.openSleep f a) .silent s (.openPrepare f a)
  | signalled {s : Shared ι φ} {f : φ} {a : Attr} :
      -- the condition is looked at once more before the signal
      EnterStep waits t s (.openSleep f a) .silent s (.openPrepare f a)
  | signal {s : Shared ι φ} {f : φ} {a : Attr} :
      EnterStep waits t s (.openSleep f a) .interrupted
        { s with
          wait := Function.update s.wait t false
          files := Function.update s.files f none } .idle

/-- The statements from the test on, and the calls between open and release. -/
inductive GrabStep [DecidableEq φ] (t : ι) : Shared ι φ → Pc φ → Event → Shared ι φ → Pc φ → Prop
  | grab {s : Shared ι φ} {f : φ} {a : Attr} :
      s.count = 0 →
      GrabStep t s (.openGrab f a) .silent { s with owner := a.cred.uid } (.openCount f a)
  | join {s : Shared ι φ} {f : φ} {a : Attr} :
      s.count ≠ 0 → GrabStep t s (.openGrab f a) .silent s (.openCount f a)
  | count {s : Shared ι φ} {f : φ} {a : Attr} :
      GrabStep t s (.openCount f a) .silent
        { s with count := s.count + 1, files := s.files.setStage f (.counted t) } (.openUnlock f)
  | unlock {s : Shared ι φ} {f : φ} :
      GrabStep t s (.openUnlock f) .silent { s with lock := true } (.openTrim f)
  | trim {s : Shared ι φ} {f : φ} :
      s.files.has f Attr.writeOnly = true → GrabStep t s (.openTrim f) .trim s (.openDone f)
  | keep {s : Shared ι φ} {f : φ} :
      s.files.has f Attr.writeOnly = false → GrabStep t s (.openTrim f) .silent s (.openDone f)
  | opened {s : Shared ι φ} {f : φ} :
      GrabStep t s (.openDone f) .silent { s with files := s.files.setStage f .ready } .idle
  | call {s : Shared ι φ} {f : φ} {file : Entry ι Attr} :
      s.files f = some file → file.stage = .ready →
      GrabStep t s .idle .silent { s with files := s.files.enter f } (.working f)
  | return_ {s : Shared ι φ} {f : φ} :
      GrabStep t s (.working f) .silent { s with files := s.files.leave f } .idle

/-- The statements of the release: the count is taken down under the lock, and `scull_w_release`
wakes who waits when it was the last. -/
inductive ReleaseStep [DecidableEq φ] (waits : Bool) (t : ι) :
    Shared ι φ → Pc φ → Event → Shared ι φ → Pc φ → Prop
  | close {s : Shared ι φ} {f : φ} {file : Entry ι Attr} :
      s.files f = some file → file.stage = .ready → file.calls = 0 →
      ReleaseStep waits t s .idle .silent { s with files := s.files.setStage f (.closing t) }
        (.releaseLock f)
  | lock {s : Shared ι φ} {f : φ} :
      s.lock = true →
      ReleaseStep waits t s (.releaseLock f) .silent { s with lock := false } (.releaseCount f)
  | count {s : Shared ι φ} {f : φ} :
      ReleaseStep waits t s (.releaseCount f) .silent
        { s with count := s.count - 1, files := s.files.setStage f (.uncounted t) }
        (.releaseUnlock f (s.count - 1))
  | unlock {s : Shared ι φ} {f : φ} {temp : ℤ} :
      ReleaseStep waits t s (.releaseUnlock f temp) .silent { s with lock := true }
        (.releaseWake f temp)
  | wake {s : Shared ι φ} {f : φ} {temp : ℤ} :
      waits = true → temp = 0 →
      ReleaseStep waits t s (.releaseWake f temp) .silent { s with wait := fun _ => false }
        (.releaseDone f)
  | still {s : Shared ι φ} {f : φ} {temp : ℤ} :
      waits = false ∨ temp ≠ 0 →
      ReleaseStep waits t s (.releaseWake f temp) .silent s (.releaseDone f)
  | gone {s : Shared ι φ} {f : φ} :
      ReleaseStep waits t s (.releaseDone f) .silent
        { s with files := Function.update s.files f none } .idle

/-- A statement of a thread: it opens, as the one device does or the other, or it releases. -/
inductive Step [DecidableEq ι] [DecidableEq φ] (waits : Bool) (t : ι) :
    Shared ι φ → Pc φ → Event → Shared ι φ → Pc φ → Prop
  | wait {s s' : Shared ι φ} {k k' : Pc φ} {e : Event} :
      EnterStep waits t s k e s' k' → Step waits t s k e s' k'
  | grab {s s' : Shared ι φ} {k k' : Pc φ} {e : Event} :
      GrabStep t s k e s' k' → Step waits t s k e s' k'
  | release {s s' : Shared ι φ} {k k' : Pc φ} {e : Event} :
      ReleaseStep waits t s k e s' k' → Step waits t s k e s' k'

section Program

variable [DecidableEq ι] [DecidableEq φ]

/-- Either device, and all that use it: `waits` says whether an open that would be refused waits
instead. -/
def device (waits : Bool) (ι φ : Type) [DecidableEq ι] [DecidableEq φ] :
    Threads ι (Shared ι φ) (Pc φ) Event where
  init s := s = .initial
  start := .idle
  step := Step waits

/-- `scull_user_fops`: an open is refused with `-EBUSY`. -/
def scullUid (ι φ : Type) [DecidableEq ι] [DecidableEq φ] := device false ι φ

/-- `scull_wusr_fops`: an open waits, unless it is not to block. -/
def scullWuid (ι φ : Type) [DecidableEq ι] [DecidableEq φ] := device true ι φ

end Program

/-! ### The file system's view -/

/-- Every file is of the one kind, since the device counts them all in one place. -/
abbrev anyFile : Unit → Attr → Bool := fun _ _ => true

/-- What the file system sees: the files, and the count as the driver has it. -/
abbrev Shared.table (s : Shared ι φ) : Table ι φ Attr Unit := ⟨s.files, fun _ => s.count⟩

/-- What the thread has to do with a file: it is open to the file system from the statement that
counts it to the one that counts down. -/
def Pc.role : Pc φ → Role φ Attr Unit
  | idle => .idle
  | openLock f a | openTest f a | openBusy f a | openUnlockWait f a | openBlock f a
  | openPrepare f a | openCheck f a | openSleep f a | openGrab f a | openCount f a =>
      .opening f (some a)
  | openUnlock f | openTrim f | openDone f => .opened f
  | working f => .calling f none
  | releaseLock f | releaseCount f => .closing f
  | releaseUnlock f _ | releaseWake f _ | releaseDone f => .closed f

variable [DecidableEq φ] {waits : Bool} {t : ι} {s s' : Shared ι φ} {k k' : Pc φ} {e : Event}

/-- The statement is one of the file system's, or nothing to it: this is how a statement of the
driver is one of `Lib.OpenFiles`. -/
def Seen (t : ι) (s : Shared ι φ) (k : Pc φ) (s' : Shared ι φ) (k' : Pc φ) : Prop :=
  OpenFiles.Step anyFile t s.table k.role s'.table k'.role ∨
    s'.table = s.table ∧ k'.role = k.role

/-- The statement that counts is the one at which the file system has the file open. -/
theorem GrabStep.seen (h : GrabStep t s k e s' k') (hK : Knows anyFile t k.role s.table) :
    Seen t s k s' k' := by
  cases h with
  | grab | join | unlock | trim | keep => exact .inr ⟨rfl, rfl⟩
  | @count f a =>
      obtain ⟨file, hfile, -⟩ := hK f rfl
      exact .inl (.count_eq fun g => by rw [Files.has_eq hfile]; rfl)
  | opened => exact .inl .finish
  | call hfile hready => exact .inl (.call hfile hready (by rintro _ ⟨⟩))
  | return_ => exact .inl .return_

/-- And the statement that counts down is the one at which the file system has it closed. -/
theorem ReleaseStep.seen (h : ReleaseStep waits t s k e s' k')
    (hK : Knows anyFile t k.role s.table) : Seen t s k s' k' := by
  cases h with
  | close hfile hready hcalls => exact .inl (.close hfile hready hcalls)
  | lock | unlock | wake | still => exact .inr ⟨rfl, rfl⟩
  | @count f =>
      obtain ⟨file, hfile, -⟩ := hK f rfl
      exact .inl (.uncount_eq fun g => by rw [Files.has_eq hfile]; rfl)
  | gone => exact .inl .gone

variable [DecidableEq ι]

/-- Up to the test an open only begins or fails; no file is counted yet. -/
theorem EnterStep.seen (h : EnterStep waits t s k e s' k') : Seen t s k s' k' := by
  cases h with
  | call hnone => exact .inl (.begin hnone (by rintro _ ⟨⟩; rfl))
  | busy | again | signal => exact .inl .fail
  | lock | refused | allowed | unavailable | available | unlock | block | prepare | checkTrue
  | checkFalse | awake | signalled => exact .inr ⟨rfl, rfl⟩

/-- **The devices are drivers under the file system**, with what a thread knows of its own file for
a hypothesis on each statement. -/
theorem refines_openFiles : Refines (device waits ι φ) (program ι φ anyFile) (Knows anyFile)
    Shared.table Pc.role where
  init := by
    rintro _ rfl
    exact ⟨fun f => rfl, fun g => rfl⟩
  start := rfl
  step t s k e s' k' h hK := by
    have hseen : Seen t s k s' k' := by
      cases h with
      | wait h => exact h.seen
      | grab h => exact h.seen hK
      | release h => exact h.seen hK
    exact hseen.imp_left fun h => ⟨(), h⟩

/-- So a reachable state of the device is one of the file system, and what is proved of files there
holds here. -/
theorem reachable_table {s : State ι (Shared ι φ) (Pc φ)}
    (h : (device waits ι φ).lts.Reachable s) :
    (program ι φ anyFile).lts.Reachable ⟨s.shared.table, fun t => (s.pc t).role⟩ :=
  refines_openFiles.reachable (fun _ hs t => knows_of_reachable hs t) h

/-! ### The lock -/

/-- Between `spin_lock` and `spin_unlock`, where one thread is at a time. -/
def Pc.inside : Pc φ → Bool
  | openTest _ _ | openBusy _ _ | openUnlockWait _ _ | openGrab _ _ | openCount _ _
  | openUnlock _ | releaseCount _ | releaseUnlock _ _ => true
  | idle | openLock _ _ | openBlock _ _ | openPrepare _ _ | openCheck _ _ | openSleep _ _
  | openTrim _ | openDone _ | working _ | releaseLock _ | releaseWake _ _ | releaseDone _ => false

/-- What the thread inside has found: if the device is open the credentials are good for its owner,
and after the owner is set they are anyway. -/
def Local (k : Pc φ) (s : Shared ι φ) : Prop :=
  match k with
  | .openGrab _ a => s.count ≠ 0 → a.cred.mayUse s.owner = true
  | .openCount _ a => a.cred.mayUse s.owner = true
  | _ => True

/-- What a statement does about the lock, in the sense of `LockStep`. -/
abbrev SpinStep (s : Shared ι φ) (k : Pc φ) (s' : Shared ι φ) (k' : Pc φ) : Prop :=
  LockStep Shared.lock Pc.inside (fun _ => True) Local s k s' k'

omit [DecidableEq φ] [DecidableEq ι] in
/-- A statement without the lock does right by it, if it leaves the count and the owner alone. -/
theorem spinStep_outside (hk : k.inside = false) (hk' : k'.inside = false)
    (hlock : s'.lock = s.lock) (hcount : s'.count = s.count) (howner : s'.owner = s.owner) :
    SpinStep s k s' k' := by
  refine .outside hk hk' hlock id fun j _ hj => ?_
  cases j with
  | openGrab | openCount => simpa only [Local, hcount, howner] using hj
  | _ => trivial

/-- The test is made under the lock, and what it finds is what the thread may rely on while it keeps
it. -/
theorem EnterStep.spin (h : EnterStep waits t s k e s' k') : SpinStep s k s' k' := by
  cases h with
  | call | again | block | prepare | checkTrue | checkFalse | awake | signalled | signal =>
      exact spinStep_outside rfl rfl rfl rfl rfl
  | lock hfree => exact .enter rfl rfl hfree rfl fun _ => trivial
  | refused | unavailable => exact .within rfl rfl rfl fun _ => trivial
  | allowed _ hnot =>
      refine .within rfl rfl rfl fun _ => available_eq_true ?_
      simpa [refuses_eq] using hnot
  | available _ havailable => exact .within rfl rfl rfl fun _ => available_eq_true havailable
  | busy | unlock => exact .leave rfl rfl rfl fun _ => trivial

omit [DecidableEq ι] in
/-- The owner is set and the count goes up under the same lock as the test. -/
theorem GrabStep.spin (h : GrabStep t s k e s' k') : SpinStep s k s' k' := by
  cases h with
  | grab =>
      refine .within rfl rfl rfl fun _ => ?_
      simp [Local, Cred.mayUse]
  | join hcount => exact .within rfl rfl rfl fun hallowed => hallowed hcount
  | count => exact .within rfl rfl rfl fun _ => trivial
  | unlock => exact .leave rfl rfl rfl fun _ => trivial
  | trim | keep | opened | call | return_ => exact spinStep_outside rfl rfl rfl rfl rfl

omit [DecidableEq ι] in
/-- The count is taken down under the lock too, so nobody is between his test and his count
meanwhile. -/
theorem ReleaseStep.spin (h : ReleaseStep waits t s k e s' k') : SpinStep s k s' k' := by
  cases h with
  | close | wake | still | gone => exact spinStep_outside rfl rfl rfl rfl rfl
  | lock hfree => exact .enter rfl rfl hfree rfl fun _ => trivial
  | count => exact .within rfl rfl rfl fun _ => trivial
  | unlock => exact .leave rfl rfl rfl fun _ => trivial

/-- No file is counted that was opened by somebody who may not use the owner's device. -/
def Allowed (s : Shared ι φ) : Prop :=
  ∀ f, s.files.counts f (fun a => !a.cred.mayUse s.owner) = false

omit [DecidableEq ι] in
/-- A statement that neither counts a file nor changes the owner lets no file into the wrong hands.
-/
theorem allowed_of_seen (h : Seen t s k s' k') (hK : Knows anyFile t k.role s.table)
    (hrole : ∀ f attr, k.role = .opening f attr → k'.role ≠ .opened f)
    (howner : s'.owner = s.owner) (hA : Allowed s) : Allowed s' := by
  intro f
  rw [howner, ← Bool.not_eq_true]
  intro hf
  rcases h with hstep | ⟨hsame, -⟩
  · exact absurd ((hA f).symm.trans (hstep.counts_of hK hrole hf)) Bool.false_ne_true
  · rw [show s'.files = s.files from congrArg Table.files hsame] at hf
    exact absurd ((hA f).symm.trans hf) Bool.false_ne_true

/-- It stays so: the file that is counted is allowed by what the test has found (`hL`), and the
owner is only set when nothing is counted (`hcount`). -/
theorem Step.allowed (h : Step waits t s k e s' k') (hK : Knows anyFile t k.role s.table)
    (hL : k.inside = true → Local k s)
    (hcount : s.count = 0 → ∀ f, s.files.counts f (anyFile ()) = false) (hA : Allowed s) :
    Allowed s' := by
  cases h with
  | wait h =>
      refine allowed_of_seen h.seen hK ?_ ?_ hA <;> cases h <;> simp [Pc.role]
  | release h =>
      refine allowed_of_seen (h.seen hK) hK ?_ ?_ hA <;> cases h <;> simp [Pc.role]
  | grab h =>
      have hseen := h.seen hK
      cases h with
      | grab hzero =>
          -- nobody has the device open
          intro f
          rw [← Bool.not_eq_true]
          intro hf
          have hsome := Files.counts_mono (q := anyFile ()) (fun _ _ => rfl) hf
          exact absurd ((hcount hzero f).symm.trans hsome) Bool.false_ne_true
      | @count f₀ a =>
          obtain ⟨file, hfile, -, -, hattr⟩ := hK f₀ rfl
          have hmay : a.cred.mayUse s.owner = true := hL rfl
          intro f
          by_cases hf : f = f₀
          · subst hf
            rw [Files.counts_eq (Files.setStage_self hfile), hattr a rfl, hmay]
            rfl
          · exact (Files.counts_setStage_of_ne hf).trans (hA f)
      | join | unlock | trim | keep | opened | call | return_ =>
          exact allowed_of_seen hseen hK (by simp [Pc.role]) rfl hA

/-! ### Results -/

section Results

variable {s : State ι (Shared ι φ) (Pc φ)}

/-- `count` is the number of files that are open, by the census of the file system. -/
theorem count_census (h : (device waits ι φ).lts.Reachable s) :
    ∃ n : ℕ, Census (fun f => s.shared.files.counts f (anyFile ()) = true) n ∧
      s.shared.count = n := counter_census (reachable_table h) ()

/-- A user opens the device and is counted, and the lock is free again. -/
theorem opened_run (waits : Bool) (a : Attr) :
    ∃ s : State Bool (Shared Bool Bool) (Pc Bool), (device waits Bool Bool).lts.Reachable s ∧
      s.shared.count = 1 ∧ s.shared.owner = a.cred.uid ∧ s.shared.lock = true ∧
        s.shared.files true = none ∧ s.pc true = .idle := by
  have hpass (s : Shared Bool Bool) (hfree : scullWAvailable s a.cred = true) :
      Step waits false s (.openTest false a) .silent s (.openGrab false a) := by
    cases waits with
    | false => exact .wait (.allowed rfl (by rw [refuses_eq, hfree]; rfl))
    | true => exact .wait (.available rfl hfree)
  have hopen := Solo.start (T := device waits Bool Bool) (t := false) (s := .initial) (k := .idle)
    |>.next (.wait (@EnterStep.call Bool Bool _ _ waits false _ false a rfl))
    |>.next (.wait (.lock rfl))
    |>.next (hpass _ rfl)
    |>.next (.grab (.grab rfl))
    |>.next (.grab .count)
    |>.next (.grab .unlock)
  exact ⟨_, hopen.reachable rfl, rfl, rfl, rfl, rfl, rfl⟩

end Results

/-! ### Who waits -/

/-- In `wait_event_interruptible`, having found the device not available while on the queue. -/
def Pc.sleeps : Pc φ → Bool
  | openSleep _ _ => true
  | _ => false

/-- About to wake the others: the release has taken `count` to zero. -/
def Pc.owes : Pc φ → Bool
  | releaseUnlock _ temp | releaseWake _ temp => temp == 0
  | _ => false

/-- The device is not available to the one who sleeps, so that it is right to sleep. -/
def Blocked (k : Pc φ) (s : Shared ι φ) : Prop :=
  ∀ f a, k = .openSleep f a → scullWAvailable s a.cred = false

/-- What a statement does about who waits, in the sense of `WaitStep` of `Lib.WaitQueue`. -/
abbrev QueueStep (t : ι) (s : Shared ι φ) (k : Pc φ) (s' : Shared ι φ) (k' : Pc φ) : Prop :=
  Threads.WaitStep Shared.wait Pc.sleeps (fun k _ => k.owes = true) Blocked (fun _ _ => True) t
    s k s' k'

omit [DecidableEq φ] [DecidableEq ι] in
/-- Who sleeps because the device is in other hands does so rightly as long as the owner stays and
somebody has it open. -/
theorem blocked_of_count {j : Pc φ} (howner : s'.owner = s.owner)
    (hcount : s.count ≠ 0 → s'.count ≠ 0) (h : Blocked j s) : Blocked j s' := by
  intro f a hj
  have hs := available_eq_false_iff.mp (h f a hj)
  exact available_eq_false_iff.mpr ⟨hcount hs.1, howner ▸ hs.2⟩

/-- Who goes to sleep has found the device in other hands since he is on the queue. -/
theorem EnterStep.queue (h : EnterStep waits t s k e s' k') : QueueStep t s k s' k' := by
  cases h with
  | call | lock | refused | busy | allowed | unavailable | available | unlock | again | block
  | awake | signalled =>
      exact .idle rfl rfl (fun u _ => id) fun j _ => id
  | prepare | checkTrue | signal =>
      refine .idle rfl rfl (fun u hu hq => ?_) fun j _ => id
      exact (Function.update_of_ne hu _ s.wait).symm.trans hq
  | checkFalse hnot =>
      exact .asleep rfl (fun u _ => id) (by rintro _ _ ⟨⟩; exact hnot) fun j _ => id

omit [DecidableEq ι] in
/-- Who takes the device, or joins its owner, does not make it available to anybody else. -/
theorem GrabStep.queue (h : GrabStep t s k e s' k') (hK : 0 ≤ s.count) :
    QueueStep t s k s' k' := by
  cases h with
  | join | unlock | trim | keep | opened | call | return_ =>
      exact .idle rfl rfl (fun u _ => id) fun j _ => id
  | grab hzero =>
      refine .idle rfl rfl (fun u _ => id) fun j _ h f a hj => ?_
      -- nobody waits for a device that is free
      exact absurd hzero (available_eq_false_iff.mp (h f a hj)).1
  | count =>
      refine .idle rfl rfl (fun u _ => id) fun j _ => blocked_of_count rfl fun _ => ?_
      change s.count + 1 ≠ 0
      omega

omit [DecidableEq ι] in
/-- Who closes the device as the last one owes a wake-up from the count on, until he has made it. -/
theorem ReleaseStep.queue (h : ReleaseStep true t s k e s' k') : QueueStep t s k s' k' := by
  cases h with
  | close | lock | gone => exact .idle rfl rfl (fun u _ => id) fun j _ => id
  | count =>
      by_cases hlast : s.count - 1 = 0
      · exact .owing rfl (beq_iff_eq.mpr hlast) fun u _ => id
      · exact .idle rfl rfl (fun u _ => id) fun j _ => blocked_of_count rfl fun _ => hlast
  | @unlock f temp =>
      by_cases hlast : temp = 0
      · exact .owing rfl (beq_iff_eq.mpr hlast) fun u _ => id
      · exact .idle rfl (beq_eq_false_iff_ne.mpr hlast) (fun u _ => id) fun j _ => id
  | wake => exact .paid rfl (fun u _ => by rintro ⟨⟩) fun u _ _ => by rintro ⟨⟩
  | still htemp =>
      refine .idle rfl (beq_eq_false_iff_ne.mpr ?_) (fun u _ => id) fun j _ => id
      exact htemp.resolve_left Bool.true_eq_false.mp

/-- The queue of `scull_w_device` is kept, as `Lib.WaitQueue` asks; that the count is not negative
comes from the census. -/
theorem openers_waitQueue : WaitQueue (scullWuid ι φ) (fun _ _ s => 0 ≤ s.count) Shared.wait
    Pc.sleeps (fun k _ => k.owes = true) Blocked (fun _ _ => True) where
  start := rfl
  step t s k e s' k' h hK := by
    cases h with
    | wait h => exact h.queue
    | grab h => exact h.queue hK
    | release h => exact h.queue

/-- **Nobody waits for a device that he could open**: an open that sleeps in `scull_w_open`
(`hsleeps`), and has not been woken (`hwaits`), is refused still, or the last release is about to
wake it.  It may be refused again when it has woken up, if somebody else was faster; then it goes
back to sleep. -/
theorem opener_sleeps {s : State ι (Shared ι φ) (Pc φ)} (h : (scullWuid ι φ).lts.Reachable s)
    {u : ι} {f : φ} {a : Attr} (hsleeps : s.pc u = .openSleep f a)
    (hwaits : s.shared.wait u = true) :
    scullWAvailable s.shared a.cred = false ∨ ∃ v, (s.pc v).owes = true := by
  have hcount : ∀ s, (scullWuid ι φ).lts.Reachable s → ι → 0 ≤ s.shared.count := by
    intro s hs _
    obtain ⟨n, -, hn⟩ := count_census hs
    rw [hn]
    exact Int.natCast_nonneg n
  refine (openers_waitQueue.no_lost_wakeup hcount (fun _ _ _ _ _ => trivial) h u
    ⟨?_, hwaits⟩).imp_left fun hblocked => ?_
  · rw [hsleeps]
    rfl
  · exact hblocked f a hsleeps

/-- User 7 waits for `scullwuid`, which user 5 has opened and keeps. -/
theorem opener_sleeps_seven : ∃ (s : State Bool (Shared Bool Bool) (Pc Bool)) (a : Attr),
    s.pc true = .openSleep true a ∧ s.shared.wait true = true ∧
      (scullWAvailable s.shared a.cred = false ∨ ∃ v, (s.pc v).owes = true) := by
  obtain ⟨⟨s, pc⟩, hreach, hcount, howner, hlock, hfile, hidle⟩ :=
    opened_run true ⟨false, false, ⟨5, 5, false⟩⟩
  have hnot : scullWAvailable s ⟨7, 7, false⟩ = false :=
    available_eq_false_iff.mpr ⟨by rw [hcount]; decide, by rw [howner]; rfl⟩
  have hwait := Solo.start (T := scullWuid Bool Bool) (t := true) (s := s) (k := .idle)
    |>.next (.wait (@EnterStep.call Bool Bool _ _ true true _ true
      ⟨false, false, ⟨7, 7, false⟩⟩ hfile))
    |>.next (.wait (.lock hlock))
    |>.next (.wait (.unavailable rfl hnot))
    |>.next (.wait .unlock)
    |>.next (.wait (.block rfl))
    |>.next (.wait .prepare)
    |>.next (.wait (.checkFalse hnot))
  have hasleep := hwait.reachable_of hidle hreach
  exact ⟨_, _, rfl, rfl, opener_sleeps (u := true) hasleep rfl rfl⟩

end LeipoCode.Access.Owned
