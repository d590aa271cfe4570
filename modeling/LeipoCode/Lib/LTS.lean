import Mathlib.Data.List.Induction
import Mathlib.Tactic.Common
import Mathlib.Order.Basic

/-!
# Labelled transition systems

The subsystems of this development are all state machines: a list under a
sequence of calls, two tasks sharing a file, a driver under a sequence of system
calls.  This module has what their proofs share, over arbitrary state and label
types:

* `LTS` — initial states and a labelled step relation;
* `LTS.Run` — a finite run, with the labels it performs in order;
* `LTS.Reachable.invariant` — an inductive invariant holds of every reachable
  state, and `LTS.Run.invariant` is the same fact along one run;
* `LTS.restrict` — the runs all of whose steps meet a condition, which is how a
  result that holds only under a condition on every step is stated;
* `LTS.Run.keeps_iff` — a value that never falls is kept by a run just when every
  step keeps it;
* `LTS.Simulation` — a forward simulation carries every run of the concrete
  system to a run of the abstract one **with the same labels**.

Runs grow at their end (`Run.snoc`), because that is the end at which a step
lemma speaks about them.

### How a result about a system is stated

A result about states is one about `Reachable`, and one about what has happened is one about `Run`,
with the labels.  A condition on what the environment does is put into the step relation
(`LTS.restrict`) and not into the conclusion, so that it is asked of each step on its own and before
it is made: a run of the restricted system is a run of the system, and the invariant rule is the
same.

Labels are what can be observed.  A simulation keeps them, and so it is a statement about what the
two systems do and not only about their states; steps of the concrete system that the abstract one
does not have must show nothing, or be labelled and be steps of the abstract one that change
nothing.
-/

namespace LeipoCode

universe u v w

/-- A labelled transition system over states `σ` and labels `Λ`.  Neither need be finite, and a
state may have any number of steps, or none. -/
structure LTS (σ : Type u) (Λ : Type v) where
  /-- The states a run may start from. -/
  init : σ → Prop
  /-- `step s l s'`: in state `s` the system may perform `l` and be in `s'`. -/
  step : σ → Λ → σ → Prop

namespace LTS

variable {σ : Type u} {Λ : Type v} {τ : Type w}

/-- `M.Run s ls s'`: the labels `ls`, performed in order, lead from `s` to `s'`. -/
inductive Run (M : LTS σ Λ) (s : σ) : List Λ → σ → Prop
  | nil : Run M s [] s
  | snoc {ls : List Λ} {l : Λ} {t t' : σ} :
      Run M s ls t → M.step t l t' → Run M s (ls ++ [l]) t'

/-- The states some run from an initial state ends in.  It is defined by single steps, so that an
invariant is shown of it by induction. -/
inductive Reachable (M : LTS σ Λ) : σ → Prop
  | init {s : σ} : M.init s → Reachable M s
  | step {s s' : σ} {l : Λ} : Reachable M s → M.step s l s' → Reachable M s'

variable {M : LTS σ Λ}

/-- **The invariant rule.**  A predicate that holds initially and survives every step holds of every
reachable state.  It is the only induction over reachable states that a result of a subsystem needs.
-/
theorem Reachable.invariant {I : σ → Prop} (hinit : ∀ s, M.init s → I s)
    (hstep : ∀ s l s', I s → M.step s l s' → I s') {s : σ}
    (h : M.Reachable s) : I s := by
  induction h with
  | init h0 => exact hinit _ h0
  | step _ hs ih => exact hstep _ _ _ ih hs

/-- The invariant rule along one run: what every step preserves holds at the end if it does at the
start. -/
theorem Run.invariant {I : σ → Prop}
    (hstep : ∀ s l s', I s → M.step s l s' → I s') {s s' : σ} {ls : List Λ}
    (h : M.Run s ls s') (h0 : I s) : I s' := by
  induction h with
  | nil => exact h0
  | snoc _ hs ih => exact hstep _ _ _ ih hs

/-- The invariant rule for a predicate that also speaks about the labels
performed so far. -/
theorem Run.invariant_trace {I : List Λ → σ → Prop} {s : σ} (h0 : I [] s)
    (hstep : ∀ ls l t t', I ls t → M.step t l t' → I (ls ++ [l]) t')
    {ls : List Λ} {s' : σ} (h : M.Run s ls s') : I ls s' := by
  induction h with
  | nil => exact h0
  | snoc _ hs ih => exact hstep _ _ _ _ ih hs

theorem Run.reachable {s s' : σ} {ls : List Λ} (h : M.Run s ls s') (hs : M.Reachable s) :
    M.Reachable s' := by
  induction h with
  | nil => exact hs
  | snoc _ hstep ih => exact ih.step hstep

theorem Reachable.exists_run {s : σ} (h : M.Reachable s) :
    ∃ s₀ ls, M.init s₀ ∧ M.Run s₀ ls s := by
  induction h with
  | init h₀ => exact ⟨_, [], h₀, .nil⟩
  | step _ hstep ih =>
      obtain ⟨s₀, ls, h₀, hrun⟩ := ih
      exact ⟨s₀, _, h₀, hrun.snoc hstep⟩

/-- A run with a label at its end is a run and one more step with that label. -/
theorem Run.last {s s' : σ} {ls : List Λ} {l : Λ} (h : M.Run s (ls ++ [l]) s') :
    ∃ t, M.Run s ls t ∧ M.step t l s' := by
  generalize hall : ls ++ [l] = all at h
  cases h with
  | nil => exact absurd hall (List.append_ne_nil_of_right_ne_nil _ (List.cons_ne_nil _ _))
  | @snoc ls' l' t _ hrun hstep =>
      obtain ⟨rfl, hl⟩ := List.append_inj' hall rfl
      obtain rfl := List.singleton_inj.mp hl
      exact ⟨t, hrun, hstep⟩

theorem Run.eq_of_nil {s s' : σ} (h : M.Run s [] s') : s' = s := by
  generalize hnil : ([] : List Λ) = ls at h
  cases h with
  | nil => rfl
  | snoc => exact absurd hnil.symm (List.append_ne_nil_of_right_ne_nil _ (List.cons_ne_nil _ _))

theorem Run.step_of_singleton {s s' : σ} {l : Λ} (h : M.Run s [l] s') : M.step s l s' := by
  obtain ⟨t, hnil, hstep⟩ := Run.last (List.nil_append [l] ▸ h)
  rwa [hnil.eq_of_nil] at hstep

/-- One run after the other is a run, with the labels of both. -/
theorem Run.append {s t s' : σ} {ls ls' : List Λ} (h : M.Run s ls t) (h' : M.Run t ls' s') :
    M.Run s (ls ++ ls') s' := by
  induction h' with
  | nil => rwa [List.append_nil]
  | snoc _ hstep ih =>
      rw [← List.append_assoc]
      exact ih.snoc hstep

/-- A run can be cut in two wherever its labels are. -/
theorem Run.split {s s' : σ} {ls ls' : List Λ} (h : M.Run s (ls ++ ls') s') :
    ∃ t, M.Run s ls t ∧ M.Run t ls' s' := by
  induction ls' using List.reverseRecOn generalizing s' with
  | nil =>
      rw [List.append_nil] at h
      exact ⟨s', h, .nil⟩
  | append_singleton ls' l ih =>
      rw [← List.append_assoc] at h
      obtain ⟨u, hrun, hstep⟩ := h.last
      obtain ⟨t, hfirst, hrest⟩ := ih hrun
      exact ⟨t, hfirst, hrest.snoc hstep⟩

/-! ### Conditional runs -/

/-- The runs of `M` all of whose steps meet `P`, a condition on the state before
the step and the label performed there. -/
def restrict (M : LTS σ Λ) (P : σ → Λ → Prop) : LTS σ Λ where
  init := M.init
  step s l s' := P s l ∧ M.step s l s'

theorem Reachable.of_restrict {P : σ → Λ → Prop} {s : σ}
    (h : (M.restrict P).Reachable s) : M.Reachable s := by
  induction h with
  | init h0 => exact .init h0
  | step _ hs ih => exact .step ih hs.2

theorem Run.of_restrict {P : σ → Λ → Prop} {s s' : σ} {ls : List Λ}
    (h : (M.restrict P).Run s ls s') : M.Run s ls s' := by
  induction h with
  | nil => exact .nil
  | snoc _ hs ih => exact ih.snoc hs.2

/-- **The rule of a value that never falls.**  If no step lowers `f`, and a step keeps `f`
just when it meets `P`, a run ends with the value it started with just when all of its steps
meet `P`. -/
theorem Run.keeps_iff {α : Type w} [PartialOrder α] {f : σ → α} {P : σ → Λ → Prop}
    (hle : ∀ s l s', M.step s l s' → f s ≤ f s')
    (hiff : ∀ s l s', M.step s l s' → (f s' = f s ↔ P s l)) {s s' : σ} {ls : List Λ}
    (h : M.Run s ls s') : f s' = f s ↔ (M.restrict P).Run s ls s' := by
  constructor
  · intro heq
    induction h with
    | nil => exact .nil
    | @snoc ls l t t' hrun hstep ih =>
        have hprefix : f s ≤ f t :=
          hrun.invariant (I := fun u => f s ≤ f u)
            (fun u l u' hu hstep => hu.trans (hle u l u' hstep)) le_rfl
        -- between two equal values there is room for one only
        have ht : f t = f s := le_antisymm (heq ▸ hle t l t' hstep) hprefix
        exact (ih ht).snoc ⟨(hiff t l t' hstep).mp (heq.trans ht.symm), hstep⟩
  · intro hrun
    refine hrun.invariant (I := fun u => f u = f s) ?_ rfl
    rintro u l u' hu ⟨hP, hstep⟩
    exact ((hiff u l u' hstep).mpr hP).trans hu

/-! ### Forward simulation -/

/-- A forward simulation of `C` by `A`: related states have related successors
under the same label. -/
structure Simulation (C : LTS σ Λ) (A : LTS τ Λ) (R : σ → τ → Prop) : Prop where
  init : ∀ s, C.init s → ∃ t, A.init t ∧ R s t
  step : ∀ s l s' t, R s t → C.step s l s' → ∃ t', A.step t l t' ∧ R s' t'

/-- A simulation carries a run of the concrete system to a run of the abstract
one with the same labels. -/
theorem Simulation.run {C : LTS σ Λ} {A : LTS τ Λ} {R : σ → τ → Prop}
    (sim : Simulation C A R) {s s' : σ} {t : τ} {ls : List Λ} (hR : R s t)
    (h : C.Run s ls s') : ∃ t', A.Run t ls t' ∧ R s' t' := by
  induction h with
  | nil => exact ⟨t, .nil, hR⟩
  | snoc _ hs ih =>
      obtain ⟨u, hrun, hu⟩ := ih
      obtain ⟨u', hstep, hu'⟩ := sim.step _ _ _ _ hu hs
      exact ⟨u', hrun.snoc hstep, hu'⟩

end LTS

end LeipoCode
