import LeipoCode.Lib.LTS
import Mathlib.Data.Finset.Card
import Mathlib.Data.Int.Cast.Lemmas
import Mathlib.Logic.Function.Basic

/-!
# Threads over a shared state

Any number of threads that run the same program, interleaved statement by statement, over
arbitrary types of shared states, program points and events:

* `Threads` — the statements of the program; `Threads.lts` — their interleavings;
* `Threads.restrict` — the statements that meet a condition;
* `Threads.track` — a history variable, which the events determine;
* `Threads.Solo` — what one thread does while the others stand still; `Threads.Solo.unique` — which
  is determined if each statement is;
* `Threads.Refines` — a program seen as a coarser one: every statement is one of the coarser
  program's, or is nothing to it; `Threads.run_seen` — the same of a run, with what it records;
* `Threads.invariant_shared` — an invariant of the shared state alone, and `Threads.invariant_pc`,
  of the program points alone;
* `Guarded` — **the rule of the lock**: what holds of the shared state while the lock is free
  is handed to the thread that takes it, and given back by it;
* `Census` — how many threads are at certain program points;
* `Threads.census_of_counter` — a counter that says so.

### How it is used

A program is modelled by a type of program points, one before each statement, and a step relation
that says what a statement does to the shared state and where its thread is then.  All that is local
to a call is kept in its program point, so a thread is nothing else, and the state of the others is
left alone by a step: this is in `Threads.lts` and nowhere else.

For an invariant there are then three ways, by what it rests on.  What a thread knows whatever the
others do is `invariant_pc` or `invariant_shared`.  What one thread knows because it has a lock is
`Guarded`: for each statement there is a `LockStep` to show, one thread and two states, and the rule
makes of them an invariant of all threads (`Guarded.held`).  What is known of how many threads are
somewhere is a `Census`.  In each of them `K` is what is known of the state by an invariant that was
shown before, so that they can be put one onto the other.

A condition on the environment is a restriction (`Threads.restrict`): it is asked of the state
before a statement, its program point and what it shows, so it can be read off a run step by step.
An abstract state that goes along is a history variable (`Threads.track`), which has no influence on
the run (`run_track`).
-/

namespace LeipoCode

universe u v w x

/-- A program: where the shared state and each thread start, and its statements.  All threads run
the same one; those that differ start at a program point that says so, or are told apart by `step`.
-/
structure Threads (ι : Type u) (σ : Type v) (κ : Type w) (Λ : Type x) where
  init : σ → Prop
  start : κ
  /-- `step t s k e s' k'`: thread `t` at `k` may perform `e` and be at `k'`. -/
  step : ι → σ → κ → Λ → σ → κ → Prop

namespace Threads

variable {ι : Type u} {σ : Type v} {κ : Type w} {Λ : Type x}

/-- The shared state, and where each thread is.  What is local to a thread is part of its program
point, so there is nothing else. -/
structure State (ι : Type u) (σ : Type v) (κ : Type w) where
  shared : σ
  pc : ι → κ

/-- The statements that meet a condition on the shared state, the program point and the event.  The
condition is on what the environment does: a result about the restricted program is one about the
runs in which it always holds. -/
def restrict (T : Threads ι σ κ Λ) (P : σ → κ → Λ → Prop) : Threads ι σ κ Λ where
  init := T.init
  start := T.start
  step t s k e s' k' := P s k e ∧ T.step t s k e s' k'

/-- The program with a history variable: each event moves it on, and no statement looks at it. -/
def track {γ : Type*} (T : Threads ι σ κ Λ) (next : γ → Λ → γ) (g₀ : γ) :
    Threads ι (σ × γ) κ Λ where
  init s := T.init s.1 ∧ s.2 = g₀
  start := T.start
  step t s k e s' k' := T.step t s.1 k e s'.1 k' ∧ s'.2 = next s.2 e

section Interleaving

variable [DecidableEq ι] {T : Threads ι σ κ Λ} {s s' : State ι σ κ} {l : ι × Λ}

/-- The interleavings: at each step one thread performs one statement, and all others stay where
they are. -/
def lts (T : Threads ι σ κ Λ) : LTS (State ι σ κ) (ι × Λ) where
  init s := T.init s.shared ∧ ∀ t, s.pc t = T.start
  step s l s' := ∃ k', T.step l.1 s.shared (s.pc l.1) l.2 s'.shared k' ∧
    s'.pc = Function.update s.pc l.1 k'

theorem pc_self {k' : κ} (h : s'.pc = Function.update s.pc l.1 k') : s'.pc l.1 = k' := by
  rw [h, Function.update_self]

theorem pc_other {k' : κ} {t : ι} (h : s'.pc = Function.update s.pc l.1 k') (ht : t ≠ l.1) :
    s'.pc t = s.pc t := by
  rw [h, Function.update_of_ne ht]

/-- **An invariant of the shared state**: every statement keeps it, wherever the other
threads are. -/
theorem invariant_shared {I : σ → Prop} (hinit : ∀ s, T.init s → I s)
    (hstep : ∀ t s k e s' k', I s → T.step t s k e s' k' → I s')
    (h : T.lts.Reachable s) : I s.shared := by
  refine h.invariant (I := fun s => I s.shared) ?_ ?_
  · rintro s ⟨hs, -⟩
    exact hinit _ hs
  · rintro s l s' hI ⟨k', hk', -⟩
    exact hstep _ _ _ _ _ _ hI hk'

/-- **An invariant of the program points**: it says nothing of the shared state, and each
thread keeps it for itself. -/
theorem invariant_pc {K : κ → Prop} (hstart : K T.start)
    (hstep : ∀ t s k e s' k', K k → T.step t s k e s' k' → K k')
    (h : T.lts.Reachable s) (t : ι) : K (s.pc t) := by
  refine h.invariant (I := fun s => ∀ t, K (s.pc t)) ?_ ?_ t
  · rintro s ⟨-, hpc⟩ t
    rw [hpc t]
    exact hstart
  · rintro s l s' hK ⟨k', hk', hpc⟩ t
    by_cases ht : t = l.1
    · rw [ht, pc_self hpc]
      exact hstep _ _ _ _ _ _ (hK l.1) hk'
    · rw [pc_other hpc ht]
      exact hK t

/-- The interleavings of the restricted program are runs of the program. -/
theorem Reachable.of_restrict {P : σ → κ → Λ → Prop} (h : (T.restrict P).lts.Reachable s) :
    T.lts.Reachable s := by
  induction h with
  | init h0 => exact .init h0
  | step _ hstep ih =>
      obtain ⟨k', ⟨-, hk'⟩, hpc⟩ := hstep
      exact .step ih ⟨k', hk', hpc⟩

/-- One statement of a thread, whatever the others are about. -/
theorem step_of {t : ι} {s s' : σ} {k k' : κ} {e : Λ} (pc : ι → κ) (h : T.step t s k e s' k') :
    T.lts.step ⟨s, Function.update pc t k⟩ (t, e) ⟨s', Function.update pc t k'⟩ := by
  refine ⟨k', ?_, (Function.update_idem ..).symm⟩
  change T.step t s (Function.update pc t k t) e s' k'
  rwa [Function.update_self]

/-- What a thread does while the others stand still.  Concrete runs are put together of these:
`Solo.reachable` starts one, `Solo.resume` goes on with another thread, and `Solo.reachable_of` puts
them behind each other. -/
inductive Solo (T : Threads ι σ κ Λ) (t : ι) (s : σ) (k : κ) : List Λ → σ → κ → Prop
  | start : Solo T t s k [] s k
  | next {s₁ s' : σ} {k₁ k' : κ} {es : List Λ} {e : Λ} :
      Solo T t s k es s₁ k₁ → T.step t s₁ k₁ e s' k' → Solo T t s k (es ++ [e]) s' k'

omit [DecidableEq ι] in
theorem Solo.trans {t : ι} {s s₁ s' : σ} {k k₁ k' : κ} {es es' : List Λ}
    (h : Solo T t s k es s₁ k₁) (h' : Solo T t s₁ k₁ es' s' k') :
    Solo T t s k (es ++ es') s' k' := by
  induction h' with
  | start => rwa [List.append_nil]
  | next _ hstep ih =>
      rw [← List.append_assoc]
      exact ih.next hstep

theorem Solo.run {t : ι} {s s' : σ} {k k' : κ} {es : List Λ} (pc : ι → κ)
    (h : Solo T t s k es s' k') :
    T.lts.Run ⟨s, Function.update pc t k⟩ (es.map fun e => (t, e))
      ⟨s', Function.update pc t k'⟩ := by
  induction h with
  | start => exact .nil
  | next _ hstep ih =>
      rw [List.map_append]
      exact ih.snoc (step_of pc hstep)

/-- A thread goes on from where the others have got. -/
theorem Solo.resume (_ : T.lts.Reachable s) (t : ι) :
    Solo T t s.shared (s.pc t) [] s.shared (s.pc t) := .start

/-- What a thread can reach from where the others are. -/
theorem Solo.reachable_of {t : ι} {s s' : σ} {k k' : κ} {es : List Λ} {pc : ι → κ}
    (h : Solo T t s k es s' k') (hpc : pc t = k) (hs : T.lts.Reachable ⟨s, pc⟩) :
    T.lts.Reachable ⟨s', Function.update pc t k'⟩ := by
  have hrun := h.run pc
  rw [← hpc, Function.update_eq_self] at hrun
  exact hrun.reachable hs

/-- What the first thread to do something can reach. -/
theorem Solo.run_start {t : ι} {s s' : σ} {k' : κ} {es : List Λ}
    (h : Solo T t s T.start es s' k') :
    T.lts.Run ⟨s, fun _ => T.start⟩ (es.map fun e => (t, e))
      ⟨s', Function.update (fun _ => T.start) t k'⟩ := by
  have hrun := h.run fun _ => T.start
  rwa [Function.update_eq_self] at hrun

theorem Solo.reachable {t : ι} {s s' : σ} {k' : κ} {es : List Λ}
    (h : Solo T t s T.start es s' k') (hs : T.init s) :
    T.lts.Reachable ⟨s', Function.update (fun _ => T.start) t k'⟩ :=
  h.run_start.reachable (.init ⟨hs, fun _ => rfl⟩)

section Alone

variable {t : ι} {s s₁ s₂ s' : σ} {k k₁ k₂ k' : κ} {es es₁ es₂ : List Λ}

omit [DecidableEq ι] in
theorem Solo.of_restrict {P : σ → κ → Λ → Prop} (h : Solo (T.restrict P) t s k es s' k') :
    Solo T t s k es s' k' := by
  induction h with
  | start => exact .start
  | next _ hstep ih => exact ih.next hstep.2

omit [DecidableEq ι] in
/-- The first thing that is done, if anything is. -/
theorem Solo.head (h : Solo T t s k es s' k') : (es = [] ∧ s' = s ∧ k' = k) ∨
    ∃ e s₁ k₁ rest, es = e :: rest ∧ T.step t s k e s₁ k₁ ∧ Solo T t s₁ k₁ rest s' k' := by
  induction h with
  | start => exact .inl ⟨rfl, rfl, rfl⟩
  | @next s₂ s' k₂ k' es e _ hstep ih =>
      rcases ih with ⟨rfl, rfl, rfl⟩ | ⟨e₁, s₁, k₁, rest, rfl, hfirst, hrest⟩
      · exact .inr ⟨e, s', k', [], rfl, hstep, .start⟩
      · exact .inr ⟨e₁, s₁, k₁, rest ++ [e], rfl, hfirst, hrest.next hstep⟩

/-- At every program point a thread has at most one thing to do, whatever the shared state: what it
shows, what it does and where it is then are determined. -/
def Determined (T : Threads ι σ κ Λ) (t : ι) : Prop :=
  ∀ s k e₁ s₁ k₁ e₂ s₂ k₂, T.step t s k e₁ s₁ k₁ → T.step t s k e₂ s₂ k₂ →
    e₁ = e₂ ∧ s₁ = s₂ ∧ k₁ = k₂

omit [DecidableEq ι] in
/-- Of two runs of such a thread from one state, one goes on where the other has stopped. -/
theorem Solo.comparable (hT : T.Determined t) (h₁ : Solo T t s k es₁ s₁ k₁)
    (h₂ : Solo T t s k es₂ s₂ k₂) :
    (∃ es, es₂ = es₁ ++ es ∧ Solo T t s₁ k₁ es s₂ k₂) ∨
      ∃ es, es₁ = es₂ ++ es ∧ Solo T t s₂ k₂ es s₁ k₁ := by
  induction h₂ with
  | start => exact .inr ⟨es₁, rfl, h₁⟩
  | @next s₃ s₂ k₃ k₂ es₂ e _ hstep ih =>
      rcases ih with ⟨es, rfl, hrest⟩ | ⟨es, rfl, hrest⟩
      · exact .inl ⟨es ++ [e], List.append_assoc .., hrest.next hstep⟩
      · rcases hrest.head with ⟨rfl, rfl, rfl⟩ | ⟨e', s', k', rest, rfl, hfirst, hrest⟩
        · refine .inl ⟨[e], ?_, Solo.start.next hstep⟩
          rw [List.append_nil]
        · obtain ⟨rfl, rfl, rfl⟩ := hT _ _ _ _ _ _ _ _ hstep hfirst
          exact .inr ⟨rest, (List.append_assoc es₂ [e] rest).symm, hrest⟩

omit [DecidableEq ι] in
/-- **What a thread does alone is determined**, if at each program point it has at most one thing to
do, and at the last one nothing. -/
theorem Solo.unique (hT : T.Determined t) (hlast : ∀ s e s' k', ¬ T.step t s k₁ e s' k')
    (h₁ : Solo T t s k es₁ s₁ k₁) (h₂ : Solo T t s k es₂ s₂ k₁) : es₁ = es₂ ∧ s₁ = s₂ := by
  have hstays {s s' : σ} {es : List Λ} (h : Solo T t s k₁ es s' k₁) : es = [] ∧ s' = s := by
    rcases h.head with ⟨hes, hs, -⟩ | ⟨_, _, _, _, -, hstep, -⟩
    · exact ⟨hes, hs⟩
    · exact absurd hstep (hlast _ _ _ _)
  rcases h₁.comparable hT h₂ with ⟨es, rfl, hrest⟩ | ⟨es, rfl, hrest⟩ <;>
    obtain ⟨rfl, rfl⟩ := hstays hrest
  · exact ⟨(List.append_nil _).symm, rfl⟩
  · exact ⟨List.append_nil _, rfl⟩

end Alone

/-- A history variable does not keep a program from running. -/
theorem run_track {γ : Type*} {next : γ → Λ → γ} {g₀ : γ} {ls : List (ι × Λ)}
    (h : T.lts.Run s ls s') (g : γ) :
    (T.track next g₀).lts.Run ⟨(s.shared, g), s.pc⟩ ls
      ⟨(s'.shared, (ls.map Prod.snd).foldl next g), s'.pc⟩ := by
  induction h with
  | nil => exact .nil
  | snoc _ hstep ih =>
      obtain ⟨k', hk', hpc⟩ := hstep
      refine ih.snoc ⟨k', ⟨hk', ?_⟩, hpc⟩
      simp

theorem reachable_track {γ : Type*} {next : γ → Λ → γ} {g₀ : γ} {ls : List (ι × Λ)}
    (hinit : T.lts.init s) (h : T.lts.Run s ls s') :
    (T.track next g₀).lts.Reachable
      ⟨(s'.shared, (ls.map Prod.snd).foldl next g₀), s'.pc⟩ :=
  (run_track h g₀).reachable (.init ⟨⟨hinit.1, rfl⟩, hinit.2⟩)

theorem Reachable.track {γ : Type*} {next : γ → Λ → γ} {g₀ : γ} (h : T.lts.Reachable s) :
    ∃ g, (T.track next g₀).lts.Reachable ⟨(s.shared, g), s.pc⟩ := by
  induction h with
  | init h0 => exact ⟨g₀, .init ⟨⟨h0.1, rfl⟩, h0.2⟩⟩
  | @step s s' l _ hstep ih =>
      obtain ⟨k', hk', hpc⟩ := hstep
      obtain ⟨g, hg⟩ := ih
      exact ⟨next g l.2, hg.step (l := l) ⟨k', ⟨hk', rfl⟩, hpc⟩⟩

end Interleaving

/-! ### A coarser view -/

/-- Seen through `fs` and `fk` the statements of `T` are statements of `U`, or leave alone what
`U` sees.  `K` is what a thread of `U` knows anyway. -/
structure Refines {σ' κ' Λ' : Type*} (T : Threads ι σ κ Λ) (U : Threads ι σ' κ' Λ')
    (K : ι → κ' → σ' → Prop) (fs : σ → σ') (fk : κ → κ') : Prop where
  init : ∀ s, T.init s → U.init (fs s)
  start : fk T.start = U.start
  step : ∀ t s k e s' k', T.step t s k e s' k' → K t (fk k) (fs s) →
    (∃ e', U.step t (fs s) (fk k) e' (fs s') (fk k')) ∨ fs s' = fs s ∧ fk k' = fk k

/-- What `T` reaches is, so seen, reached by `U`.  That the threads of `U` know what `K` says is
shown for `U`, where it is simpler. -/
theorem Refines.reachable [DecidableEq ι] {σ' κ' Λ' : Type*} {T : Threads ι σ κ Λ}
    {U : Threads ι σ' κ' Λ'} {K : ι → κ' → σ' → Prop} {fs : σ → σ'} {fk : κ → κ'}
    (hR : Refines T U K fs fk) (hK : ∀ s, U.lts.Reachable s → ∀ t, K t (s.pc t) s.shared)
    {s : State ι σ κ} (h : T.lts.Reachable s) :
    U.lts.Reachable ⟨fs s.shared, fun t => fk (s.pc t)⟩ := by
  induction h with
  | @init s hs =>
      refine .init ⟨hR.init _ hs.1, fun t => ?_⟩
      rw [← hR.start, ← hs.2 t]
  | @step s s' l _ hstep ih =>
      obtain ⟨k', hk', hpc⟩ := hstep
      have hmoved : (fun t => fk (s'.pc t)) =
          Function.update (fun t => fk (s.pc t)) l.1 (fk k') := by
        rw [hpc]
        exact Function.comp_update fk s.pc l.1 k'
      rcases hR.step _ _ _ _ _ _ hk' (hK _ ih l.1) with ⟨e', he'⟩ | ⟨hsame, hstays⟩
      · exact ih.step (l := (l.1, e')) ⟨fk k', he', hmoved⟩
      · rw [hmoved, hsame, hstays, Function.update_eq_self]
        exact ih

/-- Without its history variable a program is what it was, so what holds of all states with a
history holds of those without. -/
theorem Reachable.of_track [DecidableEq ι] {γ : Type*} {T : Threads ι σ κ Λ}
    {next : γ → Λ → γ} {g₀ : γ} {s : State ι (σ × γ) κ}
    (h : (T.track next g₀).lts.Reachable s) : T.lts.Reachable ⟨s.shared.1, s.pc⟩ := by
  have hR : Refines (T.track next g₀) T (fun _ _ _ => True) Prod.fst id :=
    ⟨fun _ hs => hs.1, rfl, fun _ _ _ e _ _ h _ => .inl ⟨e, h.1⟩⟩
  exact hR.reachable (fun _ _ _ => trivial) h

/-- Nor does a condition allow a program more than it was. -/
theorem Reachable.track_of_restrict [DecidableEq ι] {γ : Type*} {T : Threads ι σ κ Λ}
    {P : σ → κ → Λ → Prop} {next : γ → Λ → γ} {g₀ : γ} {s : State ι (σ × γ) κ}
    (h : ((T.restrict P).track next g₀).lts.Reachable s) :
    (T.track next g₀).lts.Reachable s := by
  have hR : Refines ((T.restrict P).track next g₀) (T.track next g₀) (fun _ _ _ => True) id id :=
    ⟨fun _ hs => hs, rfl, fun _ _ _ e _ _ h _ => .inl ⟨e, h.1.2, h.2⟩⟩
  exact hR.reachable (fun _ _ _ => trivial) h

/-- A weaker condition allows more runs. -/
theorem Reachable.weaken [DecidableEq ι] {γ : Type*} {T : Threads ι σ κ Λ}
    {P Q : σ → κ → Λ → Prop} (hPQ : ∀ s k e, P s k e → Q s k e) {next : γ → Λ → γ} {g₀ : γ}
    {s : State ι (σ × γ) κ} (h : ((T.restrict P).track next g₀).lts.Reachable s) :
    ((T.restrict Q).track next g₀).lts.Reachable s := by
  have hR : Refines ((T.restrict P).track next g₀) ((T.restrict Q).track next g₀)
      (fun _ _ _ => True) id id :=
    ⟨fun _ hs => hs, rfl, fun _ _ _ e _ _ h _ => .inl ⟨e, ⟨hPQ _ _ _ h.1.1, h.1.2⟩, h.2⟩⟩
  exact hR.reachable (fun _ _ _ => trivial) h

/-- **A run seen through its events.**  If every statement that meets `P` is a statement of `U`
that meets `Q`, or is nothing to `U` and its history variable, then a run leads `U` to where it
says. -/
theorem run_seen [DecidableEq ι] {σ' κ' Λ' γ : Type*} {T : Threads ι σ κ Λ} {U : Threads ι σ' κ' Λ'}
    {P : σ → κ → Λ → Prop} {Q : σ' → κ' → Λ' → Prop} (next : γ → Λ' → γ) (g₀ : γ)
    (fs : σ → σ') (fk : κ → κ') (fe : Λ → Λ') (hinit : ∀ s, T.init s → U.init (fs s))
    (hstart : fk T.start = U.start)
    (hstep : ∀ t s k e s' k', P s k e → T.step t s k e s' k' →
      Q (fs s) (fk k) (fe e) ∧ U.step t (fs s) (fk k) (fe e) (fs s') (fk k') ∨
        fs s' = fs s ∧ fk k' = fk k ∧ ∀ g, next g (fe e) = g)
    {s₀ s : State ι σ κ} {ls : List (ι × Λ)} (h₀ : T.lts.init s₀)
    (h : (T.restrict P).lts.Run s₀ ls s) :
    ((U.restrict Q).track next g₀).lts.Reachable
      ⟨(fs s.shared, (ls.map fun l => fe l.2).foldl next g₀), fun t => fk (s.pc t)⟩ := by
  have hR : Refines ((T.restrict P).track (fun g e => next g (fe e)) g₀)
      ((U.restrict Q).track next g₀) (fun _ _ _ => True) (fun s => (fs s.1, s.2)) fk := by
    refine ⟨fun s hs => ⟨hinit _ hs.1, hs.2⟩, hstart, ?_⟩
    rintro t ⟨s, g⟩ k e ⟨s', g'⟩ k' ⟨⟨hP, hk'⟩, hg⟩ -
    have hg : g' = next g (fe e) := hg
    rcases hstep t s k e s' k' hP hk' with ⟨hQ, hU⟩ | ⟨hsame, hstays, hquiet⟩
    · exact .inl ⟨fe e, ⟨hQ, hU⟩, hg⟩
    · refine .inr ⟨?_, hstays⟩
      rw [hsame, hg, hquiet]
  have htracked : ((T.restrict P).track (fun g e => next g (fe e)) g₀).lts.Reachable ⟨_, s.pc⟩ :=
    reachable_track h₀ h
  have hreach := hR.reachable (fun _ _ _ => trivial) htracked
  have hfold : (ls.map Prod.snd).foldl (fun g e => next g (fe e)) g₀ =
      (ls.map fun l => fe l.2).foldl next g₀ := by
    rw [List.foldl_map, List.foldl_map]
  rw [← hfold]
  exact hreach

/-! ### The lock -/

/-- What a statement may do about a lock: `free` says whether it is free, `inside` at which
program points a thread has it.  While it is free `R` holds; a thread at `k` that has it may
rely on `L k`. -/
inductive LockStep (free : σ → Bool) (inside : κ → Bool) (R : σ → Prop) (L : κ → σ → Prop)
    (s : σ) (k : κ) (s' : σ) (k' : κ) : Prop
  /-- Without the lock, which it leaves alone, as what it protects. -/
  | outside : inside k = false → inside k' = false → free s' = free s → (R s → R s') →
      (∀ j, inside j = true → L j s → L j s') → LockStep free inside R L s k s' k'
  /-- Taking it. -/
  | enter : inside k = false → inside k' = true → free s = true → free s' = false →
      (R s → L k' s') → LockStep free inside R L s k s' k'
  /-- Taking it and giving it back. -/
  | through : inside k = false → inside k' = false → free s = true → free s' = true →
      (R s → R s') → LockStep free inside R L s k s' k'
  /-- With the lock. -/
  | within : inside k = true → inside k' = true → free s' = free s → (L k s → L k' s') →
      LockStep free inside R L s k s' k'
  /-- Giving it back. -/
  | leave : inside k = true → inside k' = false → free s' = true → (L k s → R s') →
      LockStep free inside R L s k s' k'

/-- **The rule of the lock**: every statement does one of these.  `K` is what is known anyway of
the thread that is at work. -/
structure Guarded (T : Threads ι σ κ Λ) (K : ι → κ → σ → Prop) (free : σ → Bool)
    (inside : κ → Bool) (R : σ → Prop) (L : κ → σ → Prop) : Prop where
  start : inside T.start = false
  init : ∀ s, T.init s → free s = true ∧ R s
  step : ∀ t s k e s' k', T.step t s k e s' k' → K t k s → LockStep free inside R L s k s' k'

/-- The lock is free and nobody has it, and then `R` holds; or one thread has it, is the only one
inside, and may rely on `L` of the place where it is. -/
def Held (free : σ → Bool) (inside : κ → Bool) (R : σ → Prop) (L : κ → σ → Prop)
    (s : State ι σ κ) : Prop :=
  free s.shared = true ∧ R s.shared ∧ (∀ t, inside (s.pc t) = false) ∨
    free s.shared = false ∧ ∃ t, inside (s.pc t) = true ∧ L (s.pc t) s.shared ∧
      ∀ u, u ≠ t → inside (s.pc u) = false

section Lock

variable {T : Threads ι σ κ Λ} {K : ι → κ → σ → Prop} {free : σ → Bool} {inside : κ → Bool}
  {R : σ → Prop} {L : κ → σ → Prop} {s s' : State ι σ κ}

/-- While the lock is free, what it protects is in order. -/
theorem Held.of_free (h : Held free inside R L s) (hfree : free s.shared = true) :
    R s.shared ∧ ∀ t, inside (s.pc t) = false := by
  rcases h with ⟨-, hR, hout⟩ | ⟨htaken, -⟩
  · exact ⟨hR, hout⟩
  · rw [hfree] at htaken
    cases htaken

/-- A thread inside may rely on what it has been handed, and is alone. -/
theorem Held.of_inside (h : Held free inside R L s) {t : ι} (ht : inside (s.pc t) = true) :
    free s.shared = false ∧ L (s.pc t) s.shared ∧ ∀ u, u ≠ t → inside (s.pc u) = false := by
  rcases h with ⟨-, -, hout⟩ | ⟨htaken, v, hv, hL, hothers⟩
  · rw [hout t] at ht
    cases ht
  · have htv : t = v := by
      by_contra hne
      rw [hothers t hne] at ht
      cases ht
    subst htv
    exact ⟨htaken, hL, hothers⟩

variable [DecidableEq ι]

/-- One statement. -/
theorem Guarded.held_step {l : ι × Λ} (hG : Guarded T K free inside R L)
    (hK : K l.1 (s.pc l.1) s.shared) (h : Held free inside R L s) (hstep : T.lts.step s l s') :
    Held free inside R L s' := by
  obtain ⟨k', hk', hpc⟩ := hstep
  have hself := pc_self hpc
  have hothers (u : ι) (hu : u ≠ l.1) : s'.pc u = s.pc u := pc_other hpc hu
  -- the other threads are where they were
  have hout (hrest : ∀ u, u ≠ l.1 → inside (s.pc u) = false) (u : ι) (hu : u ≠ l.1) :
      inside (s'.pc u) = false := by rw [hothers u hu, hrest u hu]
  have hall (hrest : ∀ u, inside (s.pc u) = false) (hin' : inside k' = false) (u : ι) :
      inside (s'.pc u) = false := by
    by_cases hu : u = l.1
    · rw [hu, hself, hin']
    · exact hout (fun u _ => hrest u) u hu
  rcases hG.step _ _ _ _ _ _ hk' hK with
    ⟨hin, hin', hfree, hR, hL⟩ | ⟨hin, hin', hfree, hfree', htake⟩ |
      ⟨hin, hin', hfree, hfree', hR⟩ | ⟨hin, hin', hfree, hnext⟩ | ⟨hin, hin', hfree, hback⟩
  · rcases h with ⟨hopen, hres, hrest⟩ | ⟨htaken, t, ht, hknown, hrest⟩
    · exact .inl ⟨hfree.trans hopen, hR hres, hall hrest hin'⟩
    · -- the thread inside is another one
      have hne : t ≠ l.1 := by
        rintro rfl
        rw [hin] at ht
        cases ht
      refine .inr ⟨hfree.trans htaken, t, ?_, ?_, fun u hu => ?_⟩
      · rw [hothers t hne, ht]
      · rw [hothers t hne]
        exact hL _ ht hknown
      · by_cases hul : u = l.1
        · rw [hul, hself, hin']
        · rw [hothers u hul, hrest u hu]
  · obtain ⟨hR, hrest⟩ := h.of_free hfree
    refine .inr ⟨hfree', l.1, ?_, ?_, hout fun u _ => hrest u⟩
    · rw [hself, hin']
    · rw [hself]
      exact htake hR
  · obtain ⟨hres, hrest⟩ := h.of_free hfree
    exact .inl ⟨hfree', hR hres, hall hrest hin'⟩
  · obtain ⟨htaken, hL, hrest⟩ := h.of_inside hin
    refine .inr ⟨hfree.trans htaken, l.1, ?_, ?_, hout hrest⟩
    · rw [hself, hin']
    · rw [hself]
      exact hnext hL
  · obtain ⟨-, hL, hrest⟩ := h.of_inside hin
    refine .inl ⟨hfree, hback hL, fun u => ?_⟩
    by_cases hu : u = l.1
    · rw [hu, hself, hin']
    · exact hout hrest u hu

/-- **At most one thread is inside**, and what the lock protects is in order while it is
free, in every reachable state. -/
theorem Guarded.held (hG : Guarded T K free inside R L)
    (hK : ∀ s, T.lts.Reachable s → ∀ t, K t (s.pc t) s.shared) (h : T.lts.Reachable s) :
    Held free inside R L s := by
  induction h with
  | @init s hs =>
      obtain ⟨hinit, hstart⟩ := hs
      obtain ⟨hfree, hR⟩ := hG.init _ hinit
      refine .inl ⟨hfree, hR, fun t => ?_⟩
      rw [hstart t, hG.start]
  | @step s s' l hs hstep ih => exact hG.held_step (hK s hs l.1) ih hstep

end Lock

/-! ### Something that has to go on -/

/-- While there is `need`, the shared state sees to it that something goes on (`carried`), or one
of the threads does: every statement that leaves a need leaves it to the shared state or to its
own thread, or neither had it before. -/
structure Relay (T : Threads ι σ κ Λ) (K : ι → κ → σ → Prop) (need carried : σ → Prop)
    (carries : κ → Bool) : Prop where
  init : ∀ s, T.init s → need s → carried s
  step : ∀ t s k e s' k', T.step t s k e s' k' → K t k s → need s' →
    carried s' ∨ carries k' = true ∨ need s ∧ ¬ carried s ∧ carries k = false

theorem Relay.goes_on [DecidableEq ι] {T : Threads ι σ κ Λ} {K : ι → κ → σ → Prop}
    {need carried : σ → Prop} {carries : κ → Bool} {s : State ι σ κ}
    (hT : Relay T K need carried carries)
    (hK : ∀ s, T.lts.Reachable s → ∀ t, K t (s.pc t) s.shared) (h : T.lts.Reachable s)
    (hneed : need s.shared) : carried s.shared ∨ ∃ t, carries (s.pc t) = true := by
  induction h with
  | @init s hs => exact .inl (hT.init _ hs.1 hneed)
  | @step s s' l hs hstep ih =>
      obtain ⟨k', hk', hpc⟩ := hstep
      rcases hT.step _ _ _ _ _ _ hk' (hK _ hs l.1) hneed with hcarried | hcarries |
        ⟨hneed, hnot, hidle⟩
      · exact .inl hcarried
      · exact .inr ⟨l.1, by rwa [pc_self hpc]⟩
      · obtain ⟨t, ht⟩ := (ih hneed).resolve_left hnot
        refine .inr ⟨t, ?_⟩
        rwa [pc_other hpc]
        rintro rfl
        exact absurd (hidle.symm.trans ht) Bool.false_ne_true

/-! ### Several locks -/

section Locks

variable {ν : Type*} {free : ν → σ → Bool} {inside : ν → κ → Bool} {R : ν → σ → Prop}
  {L : ν → κ → σ → Prop}

/-- What a thread knows by the locks: what it relies on for those it has, and what those that are
free protect. -/
def Sees (free : ν → σ → Bool) (inside : ν → κ → Bool) (R : ν → σ → Prop) (L : ν → κ → σ → Prop)
    (k : κ) (s : σ) : Prop :=
  ∀ x, (inside x k = true → L x k s) ∧ (free x s = true → R x s)

theorem sees_of_held {s : State ι σ κ} (h : ∀ x, Held (free x) (inside x) (R x) (L x) s) (t : ι) :
    Sees free inside R L (s.pc t) s.shared :=
  fun x => ⟨fun hin => ((h x).of_inside hin).2.1, fun hfree => ((h x).of_free hfree).1⟩

/-- **Each of the locks is held by one thread at most**, and what they protect is in order, if
every statement keeps to the rule of each, with what its thread knows by all of them. -/
theorem Guarded.held_all [DecidableEq ι] {T : Threads ι σ κ Λ} {s : State ι σ κ}
    (hG : ∀ x, Guarded T (fun _ => Sees free inside R L) (free x) (inside x) (R x) (L x))
    (h : T.lts.Reachable s) (x : ν) : Held (free x) (inside x) (R x) (L x) s := by
  induction h generalizing x with
  | @init s hs =>
      obtain ⟨hfree, hR⟩ := (hG x).init _ hs.1
      refine .inl ⟨hfree, hR, fun t => ?_⟩
      rw [hs.2 t, (hG x).start]
  | @step s s' l _ hstep ih => exact (hG x).held_step (sees_of_held ih l.1) (ih x) hstep

end Locks

end Threads

/-! ### Counting threads -/

/-- `n` threads, files or whatever `ι` is have the property `P`.  There may be infinitely many
others, as of a type of threads there always are. -/
def Census {ι : Type u} (P : ι → Prop) (n : ℕ) : Prop :=
  ∃ who : Finset ι, who.card = n ∧ ∀ t, t ∈ who ↔ P t

namespace Census

variable {ι : Type u} {P Q : ι → Prop} {n : ℕ} {t : ι}

theorem empty (h : ∀ t, ¬ P t) : Census P 0 :=
  ⟨∅, rfl, fun t => iff_of_false (Finset.notMem_empty t) (h t)⟩

theorem congr (h : Census P n) (hPQ : ∀ t, P t ↔ Q t) : Census Q n := by
  obtain ⟨who, hcard, hmem⟩ := h
  exact ⟨who, hcard, fun t => (hmem t).trans (hPQ t)⟩

/-- One more. -/
theorem add [DecidableEq ι] (h : Census P n) (hP : ¬ P t) (hQ : Q t)
    (hothers : ∀ u, u ≠ t → (P u ↔ Q u)) : Census Q (n + 1) := by
  obtain ⟨who, hcard, hmem⟩ := h
  refine ⟨insert t who, ?_, fun u => ?_⟩
  · rw [Finset.card_insert_of_notMem (mt (hmem t).mp hP), hcard]
  · rw [Finset.mem_insert, hmem]
    by_cases hu : u = t
    · exact iff_of_true (.inl hu) (hu ▸ hQ)
    · rw [or_iff_right hu, hothers u hu]

/-- One less: there was one. -/
theorem remove [DecidableEq ι] (h : Census P n) (hP : P t) (hQ : ¬ Q t)
    (hothers : ∀ u, u ≠ t → (P u ↔ Q u)) : ∃ m, n = m + 1 ∧ Census Q m := by
  obtain ⟨who, hcard, hmem⟩ := h
  have ht : t ∈ who := (hmem t).mpr hP
  refine ⟨(who.erase t).card, ?_, who.erase t, rfl, fun u => ?_⟩
  · rw [← hcard, ← Finset.card_erase_add_one ht]
  · rw [Finset.mem_erase, hmem]
    by_cases hu : u = t
    · exact iff_of_false (fun h => h.1 hu) (hu ▸ hQ)
    · rw [and_iff_right hu, hothers u hu]

/-- The property changes for one of them. -/
theorem change [DecidableEq ι] [Decidable (P t)] [Decidable (Q t)] (h : Census P n)
    (hothers : ∀ u, u ≠ t → (P u ↔ Q u)) :
    ∃ m, Census Q m ∧ (m : ℤ) = n + (if Q t then 1 else 0) - if P t then 1 else 0 := by
  by_cases hP : P t <;> by_cases hQ : Q t
  · exact ⟨n, h.congr fun u => (em (u = t)).elim (by rintro rfl; exact iff_of_true hP hQ)
      (hothers u), by simp [hP, hQ]⟩
  · obtain ⟨m, rfl, hm⟩ := h.remove hP hQ hothers
    exact ⟨m, hm, by simp [hP, hQ]⟩
  · exact ⟨n + 1, h.add hP hQ hothers, by simp [hP, hQ]⟩
  · exact ⟨n, h.congr fun u => (em (u = t)).elim (by rintro rfl; exact iff_of_false hP hQ)
      (hothers u), by simp [hP, hQ]⟩

/-- Nobody is counted exactly if nobody has the property. -/
theorem eq_zero_iff (h : Census P n) : n = 0 ↔ ∀ t, ¬ P t := by
  obtain ⟨who, rfl, hmem⟩ := h
  rw [Finset.card_eq_zero, Finset.eq_empty_iff_forall_notMem]
  exact forall_congr' fun t => not_congr (hmem t)

/-- There is only one such number. -/
theorem unique {m : ℕ} (h : Census P n) (h' : Census P m) : n = m := by
  obtain ⟨who, rfl, hmem⟩ := h
  obtain ⟨who', rfl, hmem'⟩ := h'
  exact congrArg Finset.card (Finset.ext fun t => (hmem t).trans (hmem' t).symm)

/-- Who has it is counted. -/
theorem pos (h : Census P n) (ht : P t) : 0 < n :=
  Nat.pos_of_ne_zero fun hzero => h.eq_zero_iff.mp hzero t ht

end Census

namespace Threads

variable {ι : Type u} {σ : Type v} {κ : Type w} {Λ : Type x} [DecidableEq ι]
  {T : Threads ι σ κ Λ} {A : Type*} [AddGroupWithOne A] {c : σ → A} {p : κ → Bool}
  {s : State ι σ κ}

/-- **A counter is right** if every statement adds to it what its own thread adds to those that are
counted: it is their number, in whatever numbers it counts.  In machine words that is the number
modulo the word. -/
theorem census_of_counter (hinit : ∀ s, T.init s → c s = 0) (hstart : p T.start = false)
    (hstep : ∀ t s k e s' k', T.step t s k e s' k' →
      c s' = c s + (if p k' = true then 1 else 0) - if p k = true then 1 else 0)
    (h : T.lts.Reachable s) :
    ∃ n : ℕ, Census (fun t => p (s.pc t) = true) n ∧ c s.shared = n := by
  induction h with
  | @init s hs =>
      refine ⟨0, .empty fun t => ?_, (hinit _ hs.1).trans Nat.cast_zero.symm⟩
      rw [hs.2 t, hstart]
      exact Bool.false_ne_true
  | @step s s' l _ hmoves ih =>
      obtain ⟨n, hn, hc⟩ := ih
      obtain ⟨k', hk', hpc⟩ := hmoves
      obtain ⟨m, hm, hmn⟩ := hn.change (t := l.1) (Q := fun t => p (s'.pc t) = true)
        fun u hu => by rw [pc_other hpc hu]
      refine ⟨m, hm, ?_⟩
      have hcast : (m : A) = n + (if p k' = true then 1 else 0) -
          if p (s.pc l.1) = true then 1 else 0 := by
        rw [pc_self hpc] at hmn
        have hcast := congrArg (Int.cast : ℤ → A) hmn
        push_cast at hcast
        exact hcast
      rw [hstep _ _ _ _ _ _ hk', hc, hcast]

end Threads

end LeipoCode
