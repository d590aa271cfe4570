import LeipoCode.Lib.Threads

/-!
# Open files

What the file system keeps of the files that are open on a driver, over arbitrary types of
threads, files and attributes: a file is being opened by a thread, open, or being closed by a
thread; calls are made on it only while it is open, and it is closed only when no call is
left.  The driver counts the files of certain kinds, when its `open` says so and until its
`release` does.

* `program` — the file system's part of the threads, over `Lib.Threads`;
* `Step.effect` — what a statement does to the one file it is about;
* `knows_of_reachable` — a thread finds its file as it left it;
* `calls_census` — `calls` is the number of threads that have a call on the file;
* `counter_census` — **the driver's counters are right**;
* `counter_pos` — a call keeps its kind counted.

A driver is such a program when each of its statements is a step of it, or leaves table and role as
they are (`Threads.Refines`).  What the driver must do to deserve it is count a file in its `open`
by one statement, and count it down in its `release` by one, in all counters at once; where it does
so, and what else it does in between, is up to it.  What it may then rely on is what the kernel sees
to: `release` is called once, by the thread that closes the file last, and not while a call is on
it.

### How the census is shown

`Step.effect` says all that a statement does to the one file that it is about, by what the file was
before and who it belonged to.  The rest is drawn from it: what a thread knows of its own file
survives what others do (`InOrder.knows_other`), because a file that somebody opens or closes
belongs to that thread, and a file that somebody has a call on is closed by nobody.  The two go
together in one invariant (`InOrder`), since each of them is used for the other.

The counters are then right by one step lemma for each direction: a counter goes up when the file
becomes one that is counted and down when it stops being one, and by one each time, as a file is of
a kind or is not.  They are integers here, and that they are not negative is part of the result.
-/

namespace LeipoCode.OpenFiles

universe u v w x

variable {ι : Type u} {φ : Type v} {α : Type w} {γ : Type x}

/-- How far a file has been opened or closed, and by whom.  Two threads may have calls on one file,
but only one opens it and only one closes it. -/
inductive Stage (ι : Type u)
  | opening (by_ : ι)
  /-- The driver's `open` has counted it. -/
  | counted (by_ : ι)
  | ready
  | closing (by_ : ι)
  /-- The driver's `release` does not count it any more. -/
  | uncounted (by_ : ι)
deriving DecidableEq, Repr

/-- The driver's counters include a file at this stage: from the statement of its `open` that counts
it to the one of its `release` that counts it down. -/
def Stage.isCounted : Stage ι → Bool
  | counted _ | ready | closing _ => true
  | opening _ | uncounted _ => false

/-- The thread that opens or closes the file.  A file that is ready belongs to nobody; any number of
threads may have calls on it. -/
def Stage.owner : Stage ι → Option ι
  | opening t | counted t | closing t | uncounted t => some t
  | ready => none

/-- An open file: what it was opened with, which does not change any more, how far it is opened or
closed, and how many calls are under way. -/
structure Entry (ι : Type u) (α : Type w) where
  attr : α
  stage : Stage ι
  /-- The calls in flight on it. -/
  calls : ℕ
deriving DecidableEq, Repr

/-- The files that are open, by name.  A name without an entry is free, and may be taken by the next
open. -/
abbrev Files (ι : Type u) (φ : Type v) (α : Type w) := φ → Option (Entry ι α)

section Operations

variable [DecidableEq φ] (files : Files ι φ α) (f : φ)

/-- A call on the file begins, so it cannot be closed before the call returns. -/
def Files.enter : Files ι φ α :=
  Function.update files f ((files f).map fun e => { e with calls := e.calls + 1 })

/-- A call on the file returns.  The subtraction does not go below zero, since the caller is one of
those that were counted (`calls_census`). -/
def Files.leave : Files ι φ α :=
  Function.update files f ((files f).map fun e => { e with calls := e.calls - 1 })

/-- The file gets to another stage; what it was opened with and the calls on it stay. -/
def Files.setStage (stage : Stage ι) : Files ι φ α :=
  Function.update files f ((files f).map fun e => { e with stage := stage })

/-- The file is open, and of this kind, at whichever stage it is. -/
def Files.has (p : α → Bool) : Bool := (files f).any fun e => p e.attr

/-- The file is one that the driver counts, and of this kind: the counter of the kind is the number
of such files. -/
def Files.counts (p : α → Bool) : Bool := (files f).any fun e => e.stage.isCounted && p e.attr

variable {files f} {e : Entry ι α}

theorem Files.enter_self (he : files f = some e) :
    files.enter f f = some { e with calls := e.calls + 1 } := by
  rw [enter, Function.update_self, he, Option.map_some]

theorem Files.leave_self (he : files f = some e) :
    files.leave f f = some { e with calls := e.calls - 1 } := by
  rw [leave, Function.update_self, he, Option.map_some]

omit [DecidableEq φ] in
theorem Files.has_eq {p : α → Bool} (he : files f = some e) : files.has f p = p e.attr := by
  rw [has, he, Option.any_some]

omit [DecidableEq φ] in
theorem Files.counts_eq {p : α → Bool} (he : files f = some e) :
    files.counts f p = (e.stage.isCounted && p e.attr) := by
  rw [counts, he, Option.any_some]

omit [DecidableEq φ] in
theorem Files.counts_mono {p q : α → Bool} (hpq : ∀ a, p a = true → q a = true)
    (h : files.counts f p = true) : files.counts f q = true := by
  rw [counts, Option.any_eq_true] at h ⊢
  obtain ⟨e, he, hcounted⟩ := h
  rw [Bool.and_eq_true] at hcounted
  exact ⟨e, he, Bool.and_eq_true_iff.mpr ⟨hcounted.1, hpq _ hcounted.2⟩⟩

theorem Files.counts_setStage_of_ne {g : φ} {stage : Stage ι} {p : α → Bool} (h : g ≠ f) :
    (files.setStage f stage).counts g p = files.counts g p := by
  rw [counts, counts, setStage, Function.update_of_ne h]

theorem Files.setStage_self {stage : Stage ι} (he : files f = some e) :
    files.setStage f stage f = some { e with stage := stage } := by
  rw [setStage, Function.update_self, he, Option.map_some]

end Operations

/-! ### The program -/

/-- What a thread has to do with a file; it may remember what it opened the file with, and a
call may be one that only files of some kind allow. -/
inductive Role (φ : Type v) (α : Type w) (γ : Type x)
  | idle
  | opening (f : φ) (attr : Option α)
  | opened (f : φ)
  | calling (f : φ) (needs : Option γ)
  | closing (f : φ)
  | closed (f : φ)

/-- The file it has to do with, if any.  An idle thread may take up any file next. -/
def Role.file : Role φ α γ → Option φ
  | idle => none
  | opening f _ | opened f | calling f _ | closing f | closed f => some f

/-- The stage at which that file must be, from the thread's point of view; for a call it is that of
a file that is ready. -/
def Role.stage (t : ι) : Role φ α γ → Stage ι
  | opening _ _ => .opening t
  | opened _ => .counted t
  | idle | calling _ _ => .ready
  | closing _ => .closing t
  | closed _ => .uncounted t

/-- The kind of file its call is for, if it is a call that only files of one kind allow. -/
def Role.needs : Role φ α γ → Option γ
  | calling _ needs => needs
  | _ => none

/-- What the file was opened with, if the thread remembers it, as an `open` does that is still under
way. -/
def Role.attr : Role φ α γ → Option α
  | opening _ attr => attr
  | _ => none

/-- The file system's table, and the driver's counters, one for each kind of file. -/
structure Table (ι : Type u) (φ : Type v) (α : Type w) (γ : Type x) where
  files : Files ι φ α
  counter : γ → ℤ

section Program

variable [DecidableEq φ] (kind : γ → α → Bool)

/-- The statements that touch the table.  A thread may call only on a file that is ready and of the
kind that the call is for, and close one only when no call is left on it: that is what the kernel
sees to.  An `open` may fail until it has counted the file. -/
inductive Step (t : ι) : Table ι φ α γ → Role φ α γ → Table ι φ α γ → Role φ α γ → Prop
  | begin {T : Table ι φ α γ} {f : φ} {a : α} {attr : Option α} :
      T.files f = none → (∀ a' ∈ attr, a = a') →
      Step t T .idle { T with files := Function.update T.files f (some ⟨a, .opening t, 0⟩) }
        (.opening f attr)
  | fail {T : Table ι φ α γ} {f : φ} {attr : Option α} :
      Step t T (.opening f attr) { T with files := Function.update T.files f none } .idle
  | count {T : Table ι φ α γ} {f : φ} {attr : Option α} :
      Step t T (.opening f attr)
        ⟨T.files.setStage f (.counted t), fun g => T.counter g + (T.files.has f (kind g)).toNat⟩
        (.opened f)
  | finish {T : Table ι φ α γ} {f : φ} :
      Step t T (.opened f) { T with files := T.files.setStage f .ready } .idle
  | call {T : Table ι φ α γ} {f : φ} {e : Entry ι α} {needs : Option γ} :
      T.files f = some e → e.stage = .ready → (∀ g ∈ needs, kind g e.attr = true) →
      Step t T .idle { T with files := T.files.enter f } (.calling f needs)
  | return_ {T : Table ι φ α γ} {f : φ} {needs : Option γ} :
      Step t T (.calling f needs) { T with files := T.files.leave f } .idle
  | close {T : Table ι φ α γ} {f : φ} {e : Entry ι α} :
      T.files f = some e → e.stage = .ready → e.calls = 0 →
      Step t T .idle { T with files := T.files.setStage f (.closing t) } (.closing f)
  | uncount {T : Table ι φ α γ} {f : φ} :
      Step t T (.closing f)
        ⟨T.files.setStage f (.uncounted t), fun g => T.counter g - (T.files.has f (kind g)).toNat⟩
        (.closed f)
  | gone {T : Table ι φ α γ} {f : φ} :
      Step t T (.closed f) { T with files := Function.update T.files f none } .idle

/-- The file system's part, which begins with no file open and all counters at zero.  It shows
nothing (the events are `Unit`): a driver has its own. -/
def program (ι : Type u) (φ : Type v) [DecidableEq φ] (kind : γ → α → Bool) :
    Threads ι (Table ι φ α γ) (Role φ α γ) Unit where
  init T := (∀ f, T.files f = none) ∧ ∀ g, T.counter g = 0
  start := .idle
  step t T k _ T' k' := Step kind t T k T' k'

end Program

/-! ### Invariants -/

section Invariants

variable {kind : γ → α → Bool} {t : ι} {T T' : Table ι φ α γ} {k k' : Role φ α γ}

/-- What a thread knows of its file: it is there, at the stage at which the thread has left it, of
the kind that its call is for, and opened with what the thread remembers. -/
def Knows (kind : γ → α → Bool) (t : ι) (k : Role φ α γ) (T : Table ι φ α γ) : Prop :=
  ∀ f ∈ k.file, ∃ e, T.files f = some e ∧ e.stage = k.stage t ∧
    (∀ g ∈ k.needs, kind g e.attr = true) ∧ ∀ a ∈ k.attr, e.attr = a

/-- The thread has a call on the file, of whichever kind.  The census of `calls` counts the threads
of which this is so. -/
def Calls (f : φ) (k : Role φ α γ) : Prop := ∃ needs, k = .calling f needs

theorem Role.owner_stage (t : ι) (k : Role φ α γ) :
    (k.stage t).owner = none ∨ (k.stage t).owner = some t := by
  cases k <;> simp [Role.stage, Stage.owner]

/-- A role that has to do with a file, and finds it at the stage `ready`, is a call of that file. -/
theorem Role.calls_of_ready {f : φ} (hf : f ∈ k.file) (hready : k.stage t = .ready) :
    Calls f k := by
  cases k <;> simp_all [Role.file, Role.stage, Calls]

variable [DecidableEq φ]

/-- Counting the file is a step of the table however the driver writes its counters, as long as each
goes up by one just if the file is of its kind. -/
theorem Step.count_eq {f : φ} {attr : Option α} {counter : γ → ℤ}
    (hcounter : ∀ g, counter g = T.counter g + (T.files.has f (kind g)).toNat) :
    Step kind t T (.opening f attr) ⟨T.files.setStage f (.counted t), counter⟩ (.opened f) := by
  rw [funext hcounter]
  exact .count

theorem Step.uncount_eq {f : φ} {counter : γ → ℤ}
    (hcounter : ∀ g, counter g = T.counter g - (T.files.has f (kind g)).toNat) :
    Step kind t T (.closing f) ⟨T.files.setStage f (.uncounted t), counter⟩ (.closed f) := by
  rw [funext hcounter]
  exact .uncount

/-- **What a statement does**: one file at most is touched, which nobody had, or which the
thread itself opens or closes, or on which there was no call, or which stays at its stage; and
the counters follow. -/
theorem Step.effect (h : Step kind t T k T' k') (hK : Knows kind t k T) :
    ∃ f, (∀ f', f' ≠ f → T'.files f' = T.files f') ∧
      (T.files f = none ∨ ∃ e, T.files f = some e ∧
        (e.stage.owner = some t ∨ e.stage = .ready ∧ e.calls = 0 ∨
          ∃ e', T'.files f = some e' ∧ e'.stage = e.stage ∧ e'.attr = e.attr)) ∧
      ∀ g, T'.counter g =
        T.counter g + (T'.files.counts f (kind g)).toNat - (T.files.counts f (kind g)).toNat := by
  cases h with
  | @begin f a attr hnone hattr =>
      exact ⟨f, fun f' hf' => Function.update_of_ne hf' .., .inl hnone,
        fun g => by simp [Files.counts, hnone, Stage.isCounted]⟩
  | @fail f attr =>
      obtain ⟨e, he, hstage, -⟩ := hK f rfl
      rw [Role.stage] at hstage
      exact ⟨f, fun f' hf' => Function.update_of_ne hf' ..,
        .inr ⟨e, he, .inl (by rw [hstage]; rfl)⟩,
        fun g => by simp [Files.counts, he, hstage, Stage.isCounted]⟩
  | @count f attr =>
      obtain ⟨e, he, hstage, -⟩ := hK f rfl
      rw [Role.stage] at hstage
      exact ⟨f, fun f' hf' => Function.update_of_ne hf' ..,
        .inr ⟨e, he, .inl (by rw [hstage]; rfl)⟩,
        fun g => by simp [Files.counts, Files.setStage, Files.has, he, hstage, Stage.isCounted]⟩
  | @finish f =>
      obtain ⟨e, he, hstage, -⟩ := hK f rfl
      rw [Role.stage] at hstage
      exact ⟨f, fun f' hf' => Function.update_of_ne hf' ..,
        .inr ⟨e, he, .inl (by rw [hstage]; rfl)⟩,
        fun g => by simp [Files.counts, Files.setStage, he, hstage, Stage.isCounted]⟩
  | @call f e needs he hready hneeds =>
      exact ⟨f, fun f' hf' => Function.update_of_ne hf' ..,
        .inr ⟨e, he, .inr (.inr ⟨_, Files.enter_self he, rfl, rfl⟩)⟩,
        fun g => by simp [Files.counts, Files.enter, he]⟩
  | @return_ f needs =>
      obtain ⟨e, he, hstage, -⟩ := hK f rfl
      exact ⟨f, fun f' hf' => Function.update_of_ne hf' ..,
        .inr ⟨e, he, .inr (.inr ⟨_, Files.leave_self he, rfl, rfl⟩)⟩,
        fun g => by simp [Files.counts, Files.leave, he]⟩
  | @close f e he hready hcalls =>
      exact ⟨f, fun f' hf' => Function.update_of_ne hf' ..,
        .inr ⟨e, he, .inr (.inl ⟨hready, hcalls⟩)⟩,
        fun g => by simp [Files.counts, Files.setStage, he, hready, Stage.isCounted]⟩
  | @uncount f =>
      obtain ⟨e, he, hstage, -⟩ := hK f rfl
      rw [Role.stage] at hstage
      exact ⟨f, fun f' hf' => Function.update_of_ne hf' ..,
        .inr ⟨e, he, .inl (by rw [hstage]; rfl)⟩,
        fun g => by simp [Files.counts, Files.setStage, Files.has, he, hstage, Stage.isCounted]⟩
  | @gone f =>
      obtain ⟨e, he, hstage, -⟩ := hK f rfl
      rw [Role.stage] at hstage
      exact ⟨f, fun f' hf' => Function.update_of_ne hf' ..,
        .inr ⟨e, he, .inl (by rw [hstage]; rfl)⟩,
        fun g => by simp [Files.counts, he, hstage, Stage.isCounted]⟩

/-- What a statement leaves its own thread with: it knows of its file what its new role says. -/
theorem Step.own (h : Step kind t T k T' k') (hK : Knows kind t k T) : Knows kind t k' T' := by
  cases h with
  | @begin f a attr hnone hattr =>
      rintro _ ⟨⟩
      exact ⟨_, Function.update_self .., rfl, by rintro _ ⟨⟩, hattr⟩
  | fail | finish | return_ | gone =>
      rintro _ ⟨⟩
  | @count f | @uncount f =>
      rintro _ ⟨⟩
      obtain ⟨e, he, -⟩ := hK f rfl
      exact ⟨_, Files.setStage_self he, rfl, by rintro _ ⟨⟩, by rintro _ ⟨⟩⟩
  | @call f e needs he hready hneeds =>
      rintro _ ⟨⟩
      exact ⟨_, Files.enter_self he, hready, hneeds, by rintro _ ⟨⟩⟩
  | @close f e he hready hcalls =>
      rintro _ ⟨⟩
      exact ⟨_, Files.setStage_self he, rfl, by rintro _ ⟨⟩, by rintro _ ⟨⟩⟩

/-- Only counting a file makes it one that is counted: after any other statement the files that
count have counted before. -/
theorem Step.counts_of (h : Step kind t T k T' k') (hK : Knows kind t k T)
    (hk : ∀ f attr, k = .opening f attr → k' ≠ .opened f) {f : φ} {p : α → Bool}
    (hf : T'.files.counts f p = true) : T.files.counts f p = true := by
  -- where the file is another one
  have hother {f₀ : φ} {e : Option (Entry ι α)} (hne : f ≠ f₀)
      (hf : Files.counts (Function.update T.files f₀ e) f p = true) :
      T.files.counts f p = true := by
    rwa [Files.counts, Function.update_of_ne hne] at hf
  cases h with
  | @begin f₀ a attr hnone hattr =>
      by_cases hff : f = f₀
      · subst hff
        simp [Files.counts, Stage.isCounted] at hf
      · exact hother hff hf
  | @fail f₀ attr | @gone f₀ =>
      by_cases hff : f = f₀
      · subst hff
        simp [Files.counts] at hf
      · exact hother hff hf
  | @count f₀ attr => exact absurd rfl (hk f₀ attr rfl)
  | @finish f₀ =>
      by_cases hff : f = f₀
      · subst hff
        obtain ⟨e, he, hstage, -⟩ := hK f rfl
        rw [Files.counts_eq (Files.setStage_self he)] at hf
        rw [Files.counts_eq he, hstage]
        exact hf
      · exact hother hff hf
  | @call f₀ e needs he hready hneeds =>
      by_cases hff : f = f₀
      · subst hff
        rw [Files.counts_eq (Files.enter_self he)] at hf
        rw [Files.counts_eq he]
        exact hf
      · exact hother hff hf
  | @return_ f₀ needs =>
      by_cases hff : f = f₀
      · subst hff
        obtain ⟨e, he, -⟩ := hK f rfl
        rw [Files.counts_eq (Files.leave_self he)] at hf
        rw [Files.counts_eq he]
        exact hf
      · exact hother hff hf
  | @close f₀ e he hready hcalls =>
      by_cases hff : f = f₀
      · subst hff
        rw [Files.counts_eq (Files.setStage_self he)] at hf
        rw [Files.counts_eq he, hready]
        exact hf
      · exact hother hff hf
  | @uncount f₀ =>
      by_cases hff : f = f₀
      · subst hff
        obtain ⟨e, he, -⟩ := hK f rfl
        rw [Files.counts_eq (Files.setStage_self he)] at hf
        cases hf
      · exact hother hff hf

/-- A file that is counted after a statement was counted before it, and is the same. -/
theorem Step.entry_of (h : Step kind t T k T' k') (hK : Knows kind t k T)
    (hk : ∀ f attr, k = .opening f attr → k' ≠ .opened f) {f : φ} {e' : Entry ι α}
    (he' : T'.files f = some e') (hcounted : e'.stage.isCounted = true) :
    ∃ e, T.files f = some e ∧ e.stage.isCounted = true ∧ e.attr = e'.attr := by
  classical
  have hcounts := h.counts_of hK hk (f := f) (p := fun a => decide (a = e'.attr))
    (by rw [Files.counts_eq he', hcounted, decide_eq_true rfl]; rfl)
  rw [Files.counts, Option.any_eq_true] at hcounts
  obtain ⟨e, he, hboth⟩ := hcounts
  rw [Bool.and_eq_true, decide_eq_true_eq] at hboth
  exact ⟨e, he, hboth⟩

end Invariants

section Runs

variable [DecidableEq φ] {kind : γ → α → Bool} {s s' : Threads.State ι (Table ι φ α γ) (Role φ α γ)}

/-- Each thread finds its file as it left it, and `calls` counts the calls.  The two need each
other: that nobody closes a file with a call on it is known by the count. -/
structure InOrder (kind : γ → α → Bool) (s : Threads.State ι (Table ι φ α γ) (Role φ α γ)) :
    Prop where
  knows : ∀ t, Knows kind t (s.pc t) s.shared
  calls : ∀ f e, s.shared.files f = some e → Census (fun t => Calls f (s.pc t)) e.calls

/-- What a thread knows of its file survives what another one does, which may have calls on the file
but neither opens nor closes it meanwhile. -/
theorem InOrder.knows_other (h : InOrder kind s) {l : ι × Unit} {k' : Role φ α γ}
    (hstep : Step kind l.1 s.shared (s.pc l.1) s'.shared k') {u : ι} (hu : u ≠ l.1) :
    Knows kind u (s.pc u) s'.shared := by
  intro f hf
  obtain ⟨e, he, hstage, hneeds, hremembers⟩ := h.knows u f hf
  obtain ⟨f₀, hothers, htouched, -⟩ := hstep.effect (h.knows l.1)
  by_cases hff : f = f₀
  · subst hff
    rcases htouched with hnone | ⟨e₀, he₀, howner | ⟨hready, hcalls⟩ | ⟨e', he', hsame, hattr⟩⟩
    · rw [he] at hnone
      cases hnone
    · -- the file is the other thread's own
      rw [he, Option.some_inj] at he₀
      subst he₀
      rw [hstage] at howner
      rcases (s.pc u).owner_stage u with hfree | hmine
      · rw [hfree] at howner
        cases howner
      · rw [hmine, Option.some_inj] at howner
        exact absurd howner hu
    · -- nobody had a call on it
      rw [he, Option.some_inj] at he₀
      subst he₀
      rw [hready] at hstage
      exact absurd (Role.calls_of_ready hf hstage.symm)
        ((h.calls f e he).eq_zero_iff.mp hcalls u)
    · rw [he, Option.some_inj] at he₀
      subst he₀
      exact ⟨e', he', hsame.trans hstage, fun g hg => hattr ▸ hneeds g hg,
        fun a ha => hattr.trans (hremembers a ha)⟩
  · exact ⟨e, (hothers f hff).trans he, hstage, hneeds, hremembers⟩

variable [DecidableEq ι]

/-- `calls` follows the calls: it goes up and down with the threads that have one on the file. -/
theorem Step.calls {T T' : Table ι φ α γ} {pc pc' : ι → Role φ α γ} {t : ι} {k' : Role φ α γ}
    (h : Step kind t T (pc t) T' k') (hpc : pc' = Function.update pc t k') {f : φ}
    (hnobody : T.files f = none → ∀ u, ¬ Calls f (pc u))
    (hcalls : ∀ e, T.files f = some e → Census (fun u => Calls f (pc u)) e.calls)
    {e : Entry ι α} (he : T'.files f = some e) : Census (fun u => Calls f (pc' u)) e.calls := by
  have hself : pc' t = k' := by rw [hpc, Function.update_self]
  have hothers (u : ι) (hu : u ≠ t) : Calls f (pc u) ↔ Calls f (pc' u) := by
    rw [hpc, Function.update_of_ne hu]
  -- where the statement neither begins nor ends a call on the file
  have hsame {n : ℕ} (hn : Census (fun u => Calls f (pc u)) n)
      (ht : Calls f (pc t) ↔ Calls f k') : Census (fun u => Calls f (pc' u)) n := by
    refine hn.congr fun u => ?_
    by_cases hu : u = t
    · rw [hu, hself, ht]
    · exact hothers u hu
  generalize hk : pc t = k at h
  cases h with
  | @begin f₀ a attr hnone hattr =>
      have hno : Calls f (pc t) ↔ Calls f (.opening f₀ attr : Role φ α γ) := by simp [hk, Calls]
      by_cases hf : f = f₀
      · subst hf
        simp only [Function.update_self, Option.some_inj] at he
        subst he
        exact hsame (Census.empty (hnobody hnone)) hno
      · simp only [Function.update_of_ne hf] at he
        exact hsame (hcalls e he) hno
  | @fail f₀ attr | @gone f₀ =>
      by_cases hf : f = f₀
      · subst hf
        simp at he
      · simp only [Function.update_of_ne hf] at he
        exact hsame (hcalls e he) (by simp [hk, Calls])
  | @count f₀ attr | @finish f₀ | @uncount f₀ | @close f₀ e₀ he₀ hready hzero =>
      by_cases hf : f = f₀
      · subst hf
        simp only [Files.setStage, Function.update_self, Option.map_eq_some_iff] at he
        obtain ⟨e₁, he₁, rfl⟩ := he
        exact hsame (hcalls e₁ he₁) (by simp [hk, Calls])
      · simp only [Files.setStage, Function.update_of_ne hf] at he
        exact hsame (hcalls e he) (by simp [hk, Calls])
  | @call f₀ e₀ needs he₀ hready hneeds =>
      by_cases hf : f = f₀
      · subst hf
        simp only [Files.enter_self he₀, Option.some_inj] at he
        subst he
        refine (hcalls e₀ he₀).add (t := t) ?_ ?_ hothers
        · simp [hk, Calls]
        · exact ⟨needs, hself⟩
      · simp only [Files.enter, Function.update_of_ne hf] at he
        exact hsame (hcalls e he) (by simp [hk, Calls, Ne.symm hf])
  | @return_ f₀ needs =>
      by_cases hf : f = f₀
      · subst hf
        simp only [Files.leave, Function.update_self, Option.map_eq_some_iff] at he
        obtain ⟨e₁, he₁, rfl⟩ := he
        obtain ⟨m, hm, hless⟩ := (hcalls e₁ he₁).remove (t := t) (Q := fun u => Calls f (pc' u))
          ⟨needs, hk⟩ (by simp [hself, Calls]) hothers
        simpa [hm] using hless
      · simp only [Files.leave, Function.update_of_ne hf] at he
        exact hsame (hcalls e he) (by simp [hk, Calls, Ne.symm hf])

/-- One statement of one thread keeps the order, whichever it is. -/
theorem InOrder.step {l : ι × Unit} (h : InOrder kind s)
    (hstep : (program ι φ kind).lts.step s l s') : InOrder kind s' := by
  obtain ⟨k', hk', hpc⟩ := hstep
  constructor
  · intro u
    by_cases hu : u = l.1
    · subst hu
      rw [Threads.pc_self hpc]
      exact Step.own hk' (h.knows _)
    · rw [Threads.pc_other hpc hu]
      exact h.knows_other hk' hu
  · intro f e he
    refine Step.calls hk' hpc (fun hnone u hu => ?_) (h.calls f) he
    obtain ⟨needs, hneeds⟩ := hu
    obtain ⟨e₀, he₀, -⟩ := h.knows u f (by rw [hneeds]; rfl)
    rw [hnone] at he₀
    cases he₀

/-- In every reachable state the table is in order: the run lemma to `InOrder.step`. -/
theorem inOrder_of_reachable (h : (program ι φ kind).lts.Reachable s) : InOrder kind s := by
  refine h.invariant (I := InOrder kind) ?_ (fun s l s' hs hstep => hs.step hstep)
  rintro s ⟨⟨hnone, -⟩, hstart⟩
  constructor
  · intro t f hf
    rw [hstart t] at hf
    cases hf
  · intro f e he
    rw [hnone f] at he
    cases he

/-- A thread finds its file as it left it, in every reachable state. -/
theorem knows_of_reachable (h : (program ι φ kind).lts.Reachable s) (t : ι) :
    Knows kind t (s.pc t) s.shared := (inOrder_of_reachable h).knows t

/-- **The driver's counters are right**: each is the number of files of its kind that are
counted. -/
theorem counter_census (h : (program ι φ kind).lts.Reachable s) (g : γ) :
    ∃ n : ℕ, Census (fun f => s.shared.files.counts f (kind g) = true) n ∧
      s.shared.counter g = n := by
  induction h with
  | @init s hs =>
      obtain ⟨⟨hnone, hzero⟩, -⟩ := hs
      exact ⟨0, Census.empty fun f => by simp [Files.counts, hnone], hzero g⟩
  | @step s s' l hs hstep ih =>
      obtain ⟨n, hn, hcounter⟩ := ih
      obtain ⟨k', hk', hpc⟩ := hstep
      obtain ⟨f, hothers, -, hmoved⟩ := Step.effect hk' (knows_of_reachable hs l.1)
      obtain ⟨m, hm, hdiff⟩ := hn.change (t := f)
        (Q := fun f => s'.shared.files.counts f (kind g) = true)
        fun f' hf' => by simp only [Files.counts, hothers f' hf']
      refine ⟨m, hm, ?_⟩
      rw [hmoved g, hcounter, hdiff]
      cases s.shared.files.counts f (kind g) <;> cases s'.shared.files.counts f (kind g) <;> simp

/-- **A call keeps its kind counted**: as long as somebody is in a call that only files of one kind
allow, the counter of that kind is not zero. -/
theorem counter_pos (h : (program ι φ kind).lts.Reachable s) {t : ι} {f : φ} {g : γ}
    (ht : s.pc t = .calling f (some g)) : 0 < s.shared.counter g := by
  obtain ⟨e, he, hready, hkind, -⟩ := knows_of_reachable h t f (by rw [ht]; rfl)
  rw [ht] at hready hkind
  obtain ⟨n, hn, hcounter⟩ := counter_census h g
  have hcounted : s.shared.files.counts f (kind g) = true := by
    simp [Files.counts, he, hready, hkind g rfl, Role.stage, Stage.isCounted]
  have hne : n ≠ 0 := fun hzero => hn.eq_zero_iff.mp hzero f hcounted
  omega

end Runs

end LeipoCode.OpenFiles
