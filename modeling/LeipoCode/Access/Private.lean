import LeipoCode.Lib.OpenFiles
import Mathlib.Data.List.Nodup

/-!
# The private devices: `scullpriv` of `scull/access.c`

Each controlling terminal has a device of its own, made when the first process of the terminal
opens it and kept from then on.  The list of these devices is searched and extended under a
spin lock, `scull_c_lock`.

* `list_grows` — a device that is in the list stays there;
* `same_device_iff` — **two open files are on one device exactly if they were opened from one
  terminal**, on a kernel for several processors;
* `two_devices` — and not on one for a single processor.

The two kernels differ in what `scull_c_lock` is (`smp`), and it matters because memory for a new
device is allocated under the lock, with `GFP_KERNEL`, so that the process may sleep there.

* With `smp` the lock is held meanwhile: a process on another processor that wants it spins.  (One
  that is put on the same processor spins for good; the model does not say so.)
* Without, `spin_lock` is empty but for the preemption it disables.  Nobody else gets the processor
  between `spin_lock` and `spin_unlock`, unless the process sleeps: then the others run, and search
  and extend the list.  `lock` says that nobody else is in there and awake.

### How it goes

With `smp` the list is guarded by its lock, and who has found no device for a key may rely on it
until the new one is in the list.  So no key gets a second device, and the list only grows
(`Grows`): what a thread has found under the lock is still there when it uses it without (`Has`),
and what is in the `private_data` of an open file is the device of its terminal (`Placed`).

The other direction of `same_device_iff` needs that no device is in the list twice.  A device is
what `kmalloc` has given for it, a number that is not in the list yet; devices are only freed when
the module is unloaded, which is left out.
-/

namespace LeipoCode.Access.Private

open OpenFiles Threads

variable {ι φ : Type}

/-- What an open looks at: the number of the terminal, and
`(f_flags & O_ACCMODE) == O_WRONLY`. -/
structure Attr where
  key : ℕ
  writeOnly : Bool
deriving DecidableEq, Repr

/-- `struct scull_listitem`: the key, and where its device is.  Items are added in front, and none
is removed. -/
structure ListItem where
  key : ℕ
  device : ℕ
deriving DecidableEq, Repr

/-- `scull_c_list`, `scull_c_lock`, and the files with their `private_data`. -/
structure Shared (ι φ : Type) where
  list : List ListItem
  /-- The spin lock is free; without `smp`, nobody is awake that has passed it. -/
  lock : Bool
  privateData : φ → Option ℕ
  files : Files ι φ Attr

/-- Loaded, and not opened yet: the list of devices is empty. -/
def Shared.initial : Shared ι φ := ⟨[], true, fun _ => none, fun _ => none⟩

/-- `kmalloc` may sleep.  Without `smp` others run meanwhile; with it they spin for the lock. -/
def Shared.sleep (s : Shared ι φ) : (smp : Bool) → Shared ι φ
  | true => s
  | false => { s with lock := true }

/-- And it returns when nobody else is at work: without `smp` there is one processor to be had. -/
def Shared.wake (s : Shared ι φ) : (smp : Bool) → Shared ι φ
  | true => s
  | false => { s with lock := false }

@[simp] theorem Shared.sleep_true (s : Shared ι φ) : s.sleep true = s := rfl

@[simp] theorem Shared.wake_true (s : Shared ι φ) : s.wake true = s := rfl

@[simp] theorem Shared.sleep_files (s : Shared ι φ) (smp : Bool) :
    (s.sleep smp).files = s.files := by cases smp <;> rfl

@[simp] theorem Shared.wake_files (s : Shared ι φ) (smp : Bool) :
    (s.wake smp).files = s.files := by cases smp <;> rfl

/-- The loop of `scull_c_lookfor_device`: the first item of the key, or none. -/
def lookfor (list : List ListItem) (key : ℕ) : Option ℕ :=
  (list.find? fun lptr => lptr.key == key).map ListItem.device

/-- The program points, each before the statement it names.  The open has the lock from the search
to the new item. -/
inductive Pc (φ : Type)
  | idle
  -- `scull_c_open` and `scull_c_lookfor_device`
  | openTty (f : φ) (a : Attr)
  | openLock (f : φ) (a : Attr)
  | openSearch (f : φ) (a : Attr)
  | openAlloc (f : φ) (a : Attr)
  | openAdd (f : φ) (a : Attr) (device : ℕ)
  | openUnlock (f : φ) (a : Attr) (dev : Option ℕ)
  | openTest (f : φ) (a : Attr) (dev : Option ℕ)
  | openTrim (f : φ) (a : Attr) (device : ℕ)
  | openData (f : φ) (a : Attr) (device : ℕ)
  | openDone (f : φ)
  /-- `scull_read`, `scull_write` and the others of the bare device. -/
  | working (f : φ)
  -- `scull_c_release`
  | release (f : φ)
  | releaseDone (f : φ)

/-- What a statement shows of itself: why an open has failed, and which device is trimmed. -/
inductive Event
  | silent
  | noTty
  | noMem
  /-- `scull_trim`. -/
  | trim (device : ℕ)
deriving DecidableEq, Repr

/-- The statements of `scull_c_open` and `scull_c_release`, and the calls between them.  `kmalloc`
is two, as others may run in between; it gives a device that is not in the list, or none. -/
inductive Step [DecidableEq φ] (smp : Bool) (t : ι) :
    Shared ι φ → Pc φ → Event → Shared ι φ → Pc φ → Prop
  | call {s : Shared ι φ} {f : φ} {a : Attr} :
      s.files f = none →
      Step smp t s .idle .silent
        { s with files := Function.update s.files f (some ⟨a, .opening t, 0⟩) } (.openTty f a)
  | noTty {s : Shared ι φ} {f : φ} {a : Attr} :
      Step smp t s (.openTty f a) .noTty { s with files := Function.update s.files f none } .idle
  | tty {s : Shared ι φ} {f : φ} {a : Attr} :
      Step smp t s (.openTty f a) .silent s (.openLock f a)
  | lock {s : Shared ι φ} {f : φ} {a : Attr} :
      s.lock = true →
      Step smp t s (.openLock f a) .silent { s with lock := false } (.openSearch f a)
  | found {s : Shared ι φ} {f : φ} {a : Attr} {device : ℕ} :
      lookfor s.list a.key = some device →
      Step smp t s (.openSearch f a) .silent s (.openUnlock f a (some device))
  | notFound {s : Shared ι φ} {f : φ} {a : Attr} :
      lookfor s.list a.key = none →
      Step smp t s (.openSearch f a) .silent (s.sleep smp) (.openAlloc f a)
  | noMem {s : Shared ι φ} {f : φ} {a : Attr} :
      (smp = false → s.lock = true) →
      Step smp t s (.openAlloc f a) .silent (s.wake smp) (.openUnlock f a none)
  | kmalloc {s : Shared ι φ} {f : φ} {a : Attr} {device : ℕ} :
      -- what is allocated is not in use
      device ∉ s.list.map ListItem.device → (smp = false → s.lock = true) →
      Step smp t s (.openAlloc f a) .silent (s.wake smp) (.openAdd f a device)
  | listAdd {s : Shared ι φ} {f : φ} {a : Attr} {device : ℕ} :
      Step smp t s (.openAdd f a device) .silent { s with list := ⟨a.key, device⟩ :: s.list }
        (.openUnlock f a (some device))
  | unlock {s : Shared ι φ} {f : φ} {a : Attr} {dev : Option ℕ} :
      Step smp t s (.openUnlock f a dev) .silent { s with lock := true } (.openTest f a dev)
  | failed {s : Shared ι φ} {f : φ} {a : Attr} :
      Step smp t s (.openTest f a none) .noMem
        { s with files := Function.update s.files f none } .idle
  | device {s : Shared ι φ} {f : φ} {a : Attr} {device : ℕ} :
      Step smp t s (.openTest f a (some device)) .silent s (.openTrim f a device)
  | trim {s : Shared ι φ} {f : φ} {a : Attr} {device : ℕ} :
      a.writeOnly = true →
      Step smp t s (.openTrim f a device) (.trim device) s (.openData f a device)
  | keep {s : Shared ι φ} {f : φ} {a : Attr} {device : ℕ} :
      a.writeOnly = false →
      Step smp t s (.openTrim f a device) .silent s (.openData f a device)
  | data {s : Shared ι φ} {f : φ} {a : Attr} {device : ℕ} :
      Step smp t s (.openData f a device) .silent
        { s with
          privateData := Function.update s.privateData f (some device)
          files := s.files.setStage f (.counted t) } (.openDone f)
  | opened {s : Shared ι φ} {f : φ} :
      Step smp t s (.openDone f) .silent { s with files := s.files.setStage f .ready } .idle
  | work {s : Shared ι φ} {f : φ} {file : Entry ι Attr} :
      s.files f = some file → file.stage = .ready →
      Step smp t s .idle .silent { s with files := s.files.enter f } (.working f)
  | return_ {s : Shared ι φ} {f : φ} :
      Step smp t s (.working f) .silent { s with files := s.files.leave f } .idle
  | close {s : Shared ι φ} {f : φ} {file : Entry ι Attr} :
      s.files f = some file → file.stage = .ready → file.calls = 0 →
      Step smp t s .idle .silent { s with files := s.files.setStage f (.closing t) } (.release f)
  | release {s : Shared ι φ} {f : φ} :
      Step smp t s (.release f) .silent { s with files := s.files.setStage f (.uncounted t) }
        (.releaseDone f)
  | gone {s : Shared ι φ} {f : φ} :
      Step smp t s (.releaseDone f) .silent { s with files := Function.update s.files f none } .idle

/-- `scull_priv_fops`, on a kernel for several processors (`smp`) or for one, where a spin lock
excludes nobody while its holder sleeps. -/
def scullPriv (smp : Bool) (ι φ : Type) [DecidableEq φ] :
    Threads ι (Shared ι φ) (Pc φ) Event where
  init s := s = .initial
  start := .idle
  step := Step smp

/-! ### The file system's view -/

/-- What the file system sees; nothing is counted, since the device is never given up. -/
abbrev Shared.table (s : Shared ι φ) : Table ι φ Attr Empty := ⟨s.files, Empty.rec⟩

/-- What the thread has to do with a file, for the file system: whether it opens it, closes it, or
neither. -/
def Pc.role : Pc φ → Role φ Attr Empty
  | idle => .idle
  | openTty f a | openLock f a | openSearch f a | openAlloc f a | openAdd f a _ | openUnlock f a _
  | openTest f a _ | openTrim f a _ | openData f a _ => .opening f (some a)
  | openDone f => .opened f
  | working f => .calling f none
  | release f => .closing f
  | releaseDone f => .closed f

variable [DecidableEq φ] {smp : Bool} {t : ι} {s s' : Shared ι φ} {k k' : Pc φ} {e : Event}

/-- No kind of file: there is no counter for one. -/
abbrev noKind : Empty → Attr → Bool := Empty.rec

/-- Every statement is one of the file system's, or nothing to it; the devices count no files. -/
theorem Step.seen (h : Step smp t s k e s' k') :
    OpenFiles.Step noKind t s.table k.role s'.table k'.role ∨
      s'.table = s.table ∧ k'.role = k.role := by
  cases h with
  | call hnone => exact .inl (.begin hnone (by rintro _ ⟨⟩; rfl))
  | noTty | failed => exact .inl .fail
  | tty | lock | found | listAdd | unlock | device | trim | keep => exact .inr ⟨rfl, rfl⟩
  | notFound | noMem | kmalloc => exact .inr ⟨by simp only [Shared.table, Shared.sleep_files,
      Shared.wake_files], rfl⟩
  | data => exact .inl (.count_eq fun g => g.elim)
  | opened => exact .inl .finish
  | work hfile hready => exact .inl (.call hfile hready (by rintro _ ⟨⟩))
  | return_ => exact .inl .return_
  | close hfile hready hcalls => exact .inl (.close hfile hready hcalls)
  | release => exact .inl (.uncount_eq fun g => g.elim)
  | gone => exact .inl .gone

/-- The devices are drivers under the file system, on a kernel for several processors or for one. -/
theorem refines_openFiles : Refines (scullPriv smp ι φ) (program ι φ noKind) (fun _ _ _ => True)
    Shared.table Pc.role where
  init := by
    rintro _ rfl
    exact ⟨fun f => rfl, fun g => g.elim⟩
  start := rfl
  step t s k e s' k' h _ := h.seen.imp_left fun h => ⟨(), h⟩

/-! ### The lock -/

/-- Between `spin_lock` and `spin_unlock`, the sleep in `kmalloc` included. -/
def Pc.inside : Pc φ → Bool
  | openSearch _ _ | openAlloc _ _ | openAdd _ _ _ | openUnlock _ _ _ => true
  | idle | openTty _ _ | openLock _ _ | openTest _ _ _ | openTrim _ _ _ | openData _ _ _
  | openDone _ | working _ | release _ | releaseDone _ => false

/-- What the thread inside has found: there is no device for the key, and the new one is not in the
list. -/
def Local (k : Pc φ) (s : Shared ι φ) : Prop :=
  match k with
  | .openAlloc _ a => lookfor s.list a.key = none
  | .openAdd _ a device => lookfor s.list a.key = none ∧ device ∉ s.list.map ListItem.device
  | _ => True

omit [DecidableEq φ] in
/-- What the thread inside has found depends on the list only. -/
theorem Local.congr {j : Pc φ} (h : Local j s) (hlist : s'.list = s.list) : Local j s' := by
  cases j with
  | openAlloc | openAdd => simpa only [Local, hlist] using h
  | _ => trivial

/-- The spin lock guards the list, on a kernel for several processors: nobody gets inside while
somebody sleeps in `kmalloc`.  This is what fails without `smp`. -/
theorem list_guarded : Guarded (scullPriv true ι φ) (fun _ _ _ => True) Shared.lock Pc.inside
    (fun _ => True) Local where
  start := rfl
  init := by
    rintro _ rfl
    exact ⟨rfl, trivial⟩
  step t s k e s' k' h _ := by
    cases h with
    | call | noTty | tty | failed | device | trim | keep | data | opened | work | return_ | close
    | release | gone =>
        exact .outside rfl rfl rfl id fun j _ hj => hj.congr rfl
    | lock hfree => exact .enter rfl rfl hfree rfl fun _ => trivial
    | found | noMem | listAdd => exact .within rfl rfl rfl fun _ => trivial
    | notFound hnone => exact .within rfl rfl rfl fun _ => hnone
    | kmalloc hfresh => exact .within rfl rfl rfl fun hnone => ⟨hnone, hfresh⟩
    | unlock => exact .leave rfl rfl rfl fun _ => trivial

/-! ### The list -/

section List

variable {list : List ListItem} {key key' device device' : ℕ}

/-- An item that is put in front for a key without one hides none of the others. -/
theorem lookfor_cons (hnew : lookfor list key' = none) (h : lookfor list key = some device) :
    lookfor (⟨key', device'⟩ :: list) key = some device := by
  have hne : key' ≠ key := by
    rintro rfl
    rw [hnew] at h
    cases h
  rw [lookfor, List.find?_cons_of_neg (by simpa using hne)]
  exact h

/-- What `scull_c_lookfor_device` finds for a key is in the list, under that key. -/
theorem mem_of_lookfor (h : lookfor list key = some device) : ⟨key, device⟩ ∈ list := by
  obtain ⟨item, hitem, rfl⟩ := Option.map_eq_some_iff.mp h
  have hkey : item.key = key := by simpa using List.find?_some hitem
  exact hkey ▸ List.mem_of_find?_eq_some hitem

/-- If no device is in the list twice, one device is not found for two keys. -/
theorem key_unique (hnodup : (list.map ListItem.device).Nodup)
    (h : lookfor list key = some device) (h' : lookfor list key' = some device) : key = key' := by
  have hsame := List.inj_on_of_nodup_map hnodup (mem_of_lookfor h) (mem_of_lookfor h') rfl
  exact congrArg ListItem.key hsame

end List

/-! ### Whose device it is -/

/-- The device that the thread has got is its terminal's, also after the lock was given back. -/
def Has (k : Pc φ) (s : Shared ι φ) : Prop :=
  match k with
  | .openUnlock _ a (some device) | .openTest _ a (some device) | .openTrim _ a device
  | .openData _ a device => lookfor s.list a.key = some device
  | _ => True

/-- The files that are open are on their terminals' devices: what `lookfor` finds for the key is
where the file is. -/
def Placed (s : Shared ι φ) : Prop :=
  ∀ f file, s.files f = some file → file.stage.isCounted = true →
    ∃ device, s.privateData f = some device ∧ lookfor s.list file.attr.key = some device

/-- What is found stays found, which is so because an item is only added for a key that has none. -/
def Grows (s s' : Shared ι φ) : Prop :=
  ∀ key device, lookfor s.list key = some device → lookfor s'.list key = some device

/-- Items are put in front of the list for a key that has none, and none is taken out. -/
theorem Step.grows (h : Step true t s k e s' k') (hL : k.inside = true → Local k s) :
    Grows s s' := by
  cases h with
  | listAdd => exact fun key device => lookfor_cons (hL rfl).1
  | call | noTty | tty | lock | found | notFound | noMem | kmalloc | unlock | failed | device
  | trim | keep | data | opened | work | return_ | close | release | gone =>
      exact fun key device => id

omit [DecidableEq φ] in
/-- So a thread keeps the device it has got, whatever others put into the list. -/
theorem Has.grows {j : Pc φ} (h : Has j s) (hgrows : Grows s s') : Has j s' := by
  cases j with
  | openUnlock f a dev | openTest f a dev =>
      cases dev with
      | none => trivial
      | some device => exact hgrows _ _ h
  | openTrim | openData => exact hgrows _ _ h
  | _ => trivial

/-- And the device that a thread gets, found or new, is its terminal's. -/
theorem Step.has (h : Step true t s k e s' k') (hhas : Has k s) : Has k' s' := by
  cases h with
  | found hfound => exact hfound
  | @listAdd f a device =>
      change lookfor (⟨a.key, device⟩ :: s.list) a.key = some device
      rw [lookfor, List.find?_cons_of_pos (by simp)]
      rfl
  | @unlock f a dev =>
      cases dev with
      | none => trivial
      | some device => exact hhas
  | device | trim | keep => exact hhas
  | _ => trivial

/-- A file is put on the device that its thread has got, and keeps it as long as it is open. -/
theorem Step.placed (h : Step true t s k e s' k') (hK : Knows noKind t k.role s.table)
    (hhas : Has k s) (hgrows : Grows s s') (hP : Placed s) : Placed s' := by
  intro f file hfile hcounted
  have hseen := h.seen
  -- a file that was open before, with its `private_data`
  have hold (hrole : ∀ f attr, k.role = .opening f attr → k'.role ≠ .opened f)
      (hdata : s'.privateData = s.privateData) :
      ∃ device, s'.privateData f = some device ∧ lookfor s'.list file.attr.key = some device := by
    obtain ⟨old, hwas, hwasCounted, hattr⟩ : ∃ old, s.files f = some old ∧
        old.stage.isCounted = true ∧ old.attr = file.attr := by
      rcases hseen with hstep | ⟨hsame, -⟩
      · exact hstep.entry_of hK hrole hfile hcounted
      · rw [show s'.files = s.files from congrArg Table.files hsame] at hfile
        exact ⟨file, hfile, hcounted, rfl⟩
    obtain ⟨device, hdevice, hlook⟩ := hP f old hwas hwasCounted
    exact ⟨device, hdata ▸ hdevice, hgrows _ _ (hattr ▸ hlook)⟩
  cases h with
  | @data f₀ a device =>
      by_cases hf : f = f₀
      · subst hf
        obtain ⟨old, hwas, -, -, hattr⟩ := hK f rfl
        have hnew : file.attr = a := by
          have heq := (Files.setStage_self hwas).symm.trans hfile
          rw [← Option.some_inj.mp heq]
          exact hattr a rfl
        exact ⟨device, Function.update_self .., hnew ▸ hhas⟩
      · have hwas : s.files f = some file := by
          rw [← hfile]
          exact (Function.update_of_ne hf ..).symm
        obtain ⟨device', hdevice, hlook⟩ := hP f file hwas hcounted
        exact ⟨device', (Function.update_of_ne hf ..).trans hdevice, hlook⟩
  | call | noTty | tty | lock | found | notFound | noMem | kmalloc | listAdd | unlock | failed
  | device | trim | keep | opened | work | return_ | close | release | gone =>
      exact hold (by simp [Pc.role]) rfl

/-- No device gets into the list twice, since what `kmalloc` gives is not in it. -/
theorem Step.nodup (h : Step true t s k e s' k') (hL : k.inside = true → Local k s)
    (hnodup : (s.list.map ListItem.device).Nodup) : (s'.list.map ListItem.device).Nodup := by
  cases h with
  | listAdd => exact List.nodup_cons.mpr ⟨(hL rfl).2, hnodup⟩
  | call | noTty | tty | lock | found | notFound | noMem | kmalloc | unlock | failed | device
  | trim | keep | data | opened | work | return_ | close | release | gone => exact hnodup

/-! ### Results -/

section Results

variable [DecidableEq ι] {s : State ι (Shared ι φ) (Pc φ)}

/-- The lock in the reachable states: it is free, or one thread has it and may rely on what it has
found. -/
theorem list_held (h : (scullPriv true ι φ).lts.Reachable s) :
    Held Shared.lock Pc.inside (fun _ => True) Local s :=
  list_guarded.held (fun _ _ _ => trivial) h

/-- In every reachable state a thread between the lock and the unlock may rely on what it has found
there. -/
theorem local_of_reachable (h : (scullPriv true ι φ).lts.Reachable s) (t : ι)
    (hin : (s.pc t).inside = true) : Local (s.pc t) s.shared := ((list_held h).of_inside hin).2.1

/-- A device that is found for a key stays so, from any reachable state on: the run lemma to
`Step.grows`. -/
theorem list_grows {s' : State ι (Shared ι φ) (Pc φ)} {ls : List (ι × Event)}
    (h : (scullPriv true ι φ).lts.Reachable s) (hrun : (scullPriv true ι φ).lts.Run s ls s') :
    Grows s.shared s'.shared := by
  induction hrun with
  | nil => exact fun key device => id
  | snoc hrun hstep ih =>
      obtain ⟨k', hk', -⟩ := hstep
      have hgrows := Step.grows hk' (local_of_reachable (hrun.reachable h) _)
      exact fun key device hlook => hgrows _ _ (ih key device hlook)

/-- Each terminal has one device, every thread has got its terminal's, and the open files are on
theirs.  The induction over the runs, with the lock from `list_held`. -/
theorem placed_of_reachable (h : (scullPriv true ι φ).lts.Reachable s) :
    (s.shared.list.map ListItem.device).Nodup ∧ (∀ t, Has (s.pc t) s.shared) ∧
      Placed s.shared := by
  induction h with
  | @init s hs =>
      obtain ⟨hinit, hstart⟩ := hs
      rw [show s.shared = .initial from hinit]
      refine ⟨List.nodup_nil, fun t => ?_, fun f file hfile => by cases hfile⟩
      rw [hstart t]
      trivial
  | @step s s' l hs hstep ih =>
      obtain ⟨hnodup, hhas, hplaced⟩ := ih
      obtain ⟨k', hk', hpc⟩ := hstep
      have hL := local_of_reachable hs l.1
      have hgrows := Step.grows hk' hL
      have hK := knows_of_reachable
        (refines_openFiles.reachable (fun _ _ _ => trivial) hs) l.1
      refine ⟨Step.nodup hk' hL hnodup, fun t => ?_, Step.placed hk' hK (hhas l.1) hgrows hplaced⟩
      by_cases ht : t = l.1
      · subst ht
        rw [pc_self hpc]
        exact Step.has hk' (hhas _)
      · rw [pc_other hpc ht]
        exact (hhas t).grows hgrows

/-- **One device for each terminal**: on a kernel for several processors two open files are on the
same device exactly if they were opened from the same terminal.  The files are ready: the open has
returned, so their `private_data` is set. -/
theorem same_device_iff (h : (scullPriv true ι φ).lts.Reachable s) {f g : φ}
    {file other : Entry ι Attr}
    (hf : s.shared.files f = some file) (hfready : file.stage = .ready)
    (hg : s.shared.files g = some other) (hgready : other.stage = .ready) :
    s.shared.privateData f = s.shared.privateData g ↔ file.attr.key = other.attr.key := by
  obtain ⟨hnodup, -, hplaced⟩ := placed_of_reachable h
  obtain ⟨device, hdevice, hlook⟩ := hplaced f file hf (by rw [hfready]; rfl)
  obtain ⟨device', hdevice', hlook'⟩ := hplaced g other hg (by rw [hgready]; rfl)
  rw [hdevice, hdevice', Option.some_inj]
  constructor
  · rintro rfl
    exact key_unique hnodup hlook hlook'
  · intro hkey
    rw [hkey, hlook', Option.some_inj] at hlook
    exact hlook.symm

/-- Two files opened from the terminals 1 and 2 are on two devices. -/
theorem same_device_iff_two : ∃ s : State Unit (Shared Unit Bool) (Pc Bool),
    s.shared.privateData false = some 10 ∧
      (s.shared.privateData false = s.shared.privateData true ↔ 1 = 2) := by
  have hrun := Solo.start (T := scullPriv true Unit Bool) (t := ()) (s := .initial) (k := .idle)
    |>.next (@Step.call Unit Bool _ true () _ false ⟨1, false⟩ rfl)
    |>.next .tty
    |>.next (.lock rfl)
    |>.next (.notFound rfl)
    |>.next (@Step.kmalloc Unit Bool _ true () _ false ⟨1, false⟩ 10 (by simp [Shared.initial])
      nofun)
    |>.next .listAdd
    |>.next .unlock
    |>.next .device
    |>.next (.keep rfl)
    |>.next .data
    |>.next .opened
    |>.next (@Step.call Unit Bool _ true () _ true ⟨2, false⟩ rfl)
    |>.next .tty
    |>.next (.lock rfl)
    |>.next (.notFound rfl)
    |>.next (@Step.kmalloc Unit Bool _ true () _ true ⟨2, false⟩ 20 (by simp [Shared.initial])
      nofun)
    |>.next .listAdd
    |>.next .unlock
    |>.next .device
    |>.next (.keep rfl)
    |>.next .data
    |>.next .opened
  exact ⟨_, rfl, same_device_iff (f := false) (g := true) (hrun.reachable rfl) rfl rfl rfl rfl⟩

/-- **Two devices for a terminal**, on a kernel for a single processor: a process opens the device,
finds none and sleeps in `kmalloc`; another one of the same terminal finds none either, and each of
them makes one.  `same_device_iff` cannot do without `smp`. -/
theorem two_devices : ∃ s : State Bool (Shared Bool Bool) (Pc Bool),
    (scullPriv false Bool Bool).lts.Reachable s ∧
      (∃ file other, s.shared.files false = some file ∧ s.shared.files true = some other ∧
        file.stage = .ready ∧ other.stage = .ready ∧ file.attr.key = other.attr.key) ∧
      s.shared.privateData false ≠ s.shared.privateData true := by
  have hsleeps := Solo.start (T := scullPriv false Bool Bool) (t := false) (s := .initial)
      (k := .idle)
    |>.next (@Step.call Bool Bool _ false false _ false ⟨1, false⟩ rfl)
    |>.next .tty
    |>.next (.lock rfl)
    |>.next (.notFound rfl)
  have hother := Solo.start (T := scullPriv false Bool Bool) (t := true)
      (s := (⟨[], true, fun _ => none, Function.update (fun _ => none) false
        (some ⟨⟨1, false⟩, .opening false, 0⟩)⟩ : Shared Bool Bool)) (k := .idle)
    |>.next (@Step.call Bool Bool _ false true _ true ⟨1, false⟩ rfl)
    |>.next .tty
    |>.next (.lock rfl)
    |>.next (.notFound rfl)
    |>.next (@Step.kmalloc Bool Bool _ false true _ true ⟨1, false⟩ 20 List.not_mem_nil
      fun _ => rfl)
    |>.next .listAdd
    |>.next .unlock
    |>.next .device
    |>.next (.keep rfl)
    |>.next .data
    |>.next .opened
  have hreach := hother.reachable_of rfl (hsleeps.reachable rfl)
  have hwakes := (Solo.resume hreach false)
    |>.next (@Step.kmalloc Bool Bool _ false false _ false ⟨1, false⟩ 10 (by decide) fun _ => rfl)
    |>.next .listAdd
    |>.next .unlock
    |>.next .device
    |>.next (.keep rfl)
    |>.next .data
    |>.next .opened
  exact ⟨_, hwakes.reachable_of rfl hreach, ⟨_, _, rfl, rfl, rfl, rfl, rfl⟩, by decide⟩

end Results

end LeipoCode.Access.Private
