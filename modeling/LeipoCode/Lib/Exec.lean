import LeipoCode.Lib.Prog

/-!
# Executions of sequential programs

A program of `LeipoCode.Lib.Prog` run to its end, in a world that has a state and
answers every call.

* `Prog.Exec` — the program runs to its end, makes these calls with these responses, and
  leaves the world in this state;
* `Prog.Calls` — every call of the program has a property, whatever the responses: a
  syntactic fact, for which the program is only walked through;
* `Discipline.sound` — **a program that obeys a discipline ends as the discipline says**,
  if the world keeps the side of the discipline that is granted;
* `Prog.runWith` — an execution that can be computed.

The world is a relation between states, calls and responses, and may refuse a call by having no
response to it; a program that is refused does not end.  So a result about `Exec` is one about
executions that end, and where a program is claimed to end there is `Prog.runWith`, which computes
one.
-/

namespace LeipoCode

namespace Prog

variable {C : Type} {R : C → Type} {α β S : Type}

/-- The calls a program made, in order, with their responses.  Each response has the type that
belongs to its call. -/
abbrev Trace (C : Type) (R : C → Type) : Type := List ((c : C) × R c)

/-- `Exec step s p tr a s'`: started in `s`, the program `p` may make the calls `tr`, have the
result `a`, and leave the world in `s'`.  The induction is on the program, one call at a time. -/
inductive Exec (step : S → (c : C) → R c → S → Prop) :
    S → Prog C R α → Trace C R → α → S → Prop
  | pure {s : S} {a : α} : Exec step s (.pure a) [] a s
  | call {s t s' : S} {c : C} {r : R c} {k : R c → Prog C R α} {tr : Trace C R} {a : α} :
      step s c r t → Exec step t (k r) tr a s' → Exec step s (.call c k) (⟨c, r⟩ :: tr) a s'

section Exec

variable {step : S → (c : C) → R c → S → Prop} {s s' : S} {tr : Trace C R}

/-- An execution that begins with a call: what the call returns, the state behind it, and the
execution of the rest. -/
theorem Exec.of_call {c : C} {k : R c → Prog C R α} {a : α}
    (h : Exec step s (.call c k) tr a s') :
    ∃ r t tr', step s c r t ∧ Exec step t (k r) tr' a s' ∧ tr = ⟨c, r⟩ :: tr' := by
  cases h with
  | call hstep hrest => exact ⟨_, _, _, hstep, hrest, rfl⟩

/-- A program that has come to its end has one execution, without calls. -/
theorem Exec.of_pure {a a' : α} (h : Exec step s (.pure a') tr a s') :
    a = a' ∧ s' = s ∧ tr = [] := by
  cases h
  exact ⟨rfl, rfl, rfl⟩

end Exec

/-! ### What a program may call -/

/-- Every call the program makes satisfies `P`, whatever the responses are. -/
def Calls (P : C → Prop) : Prog C R α → Prop
  | .pure _ => True
  | .call c k => P c ∧ ∀ r, (k r).Calls P

section Calls

variable {P : C → Prop}

@[simp] theorem calls_pure {a : α} : Calls P (Pure.pure a : Prog C R α) :=
  trivial

@[simp] theorem calls_lift {c : C} : Calls P (lift c : Prog C R (R c)) ↔ P c :=
  ⟨fun h => h.1, fun h => ⟨h, fun _ => trivial⟩⟩

theorem Calls.mono {P' : C → Prop} (h : ∀ c, P c → P' c) {p : Prog C R α} (hp : p.Calls P) :
    p.Calls P' := by
  induction p with
  | pure a => trivial
  | call c k ih => exact ⟨h c hp.1, fun r => ih r (hp.2 r)⟩

theorem Calls.bind {p : Prog C R α} {f : α → Prog C R β} (hp : p.Calls P)
    (hf : ∀ a, (f a).Calls P) : (p >>= f).Calls P := by
  induction p with
  | pure a => exact hf a
  | call c k ih => exact ⟨hp.1, fun r => ih r (hp.2 r)⟩

theorem Calls.ite {c : Prop} [Decidable c] {p₁ p₂ : Prog C R α} (h₁ : c → p₁.Calls P)
    (h₂ : ¬ c → p₂.Calls P) : (if c then p₁ else p₂).Calls P := by
  split
  · exact h₁ ‹_›
  · exact h₂ ‹_›

theorem calls_mapCall {C' : Type} {R' : C' → Type} {ι : C → C'} {P : C' → Prop}
    {p : Prog C (fun c => R' (ι c)) α} :
    (p.mapCall ι : Prog C' R' α).Calls P ↔ p.Calls (fun c => P (ι c)) := by
  induction p with
  | pure a => rfl
  | call c k ih => exact and_congr_right fun _ => forall_congr' ih

/-- **The frame rule.**  What no call of the program changes is the same at its end. -/
theorem Exec.frame {step : S → (c : C) → R c → S → Prop} {I : S → Prop}
    (hstep : ∀ s c r s', P c → I s → step s c r s' → I s') {p : Prog C R α} {s s' : S}
    {tr : Trace C R} {a : α} (h : Exec step s p tr a s') (hp : p.Calls P) (hs : I s) :
    I s' := by
  induction h with
  | pure => exact hs
  | call hcall _ ih => exact ih (hp.2 _) (hstep _ _ _ _ hp.1 hs hcall)

end Calls

/-! ### Executions that can be computed -/

/-- The execution in a world that answers each call by `reply` and moves on by `next`;
nothing if the world blocks. -/
def runWith (reply : S → (c : C) → R c) (next : S → (c : C) → R c → Option S) :
    Prog C R α → S → Option (Trace C R × α × S)
  | .pure a, s => some ([], a, s)
  | .call c k, s =>
      (next s c (reply s c)).bind fun t =>
        ((k (reply s c)).runWith reply next t).map fun (tr, a, s') =>
          (⟨c, reply s c⟩ :: tr, a, s')

theorem exec_runWith {reply : S → (c : C) → R c} {next : S → (c : C) → R c → Option S}
    {p : Prog C R α} {s s' : S} {tr : Trace C R} {a : α}
    (h : p.runWith reply next s = some (tr, a, s')) :
    Exec (fun s c r s' => next s c r = some s') s p tr a s' := by
  induction p generalizing s tr with
  | pure a =>
      cases h
      exact .pure
  | call c k ih =>
      obtain ⟨t, ht, h⟩ := Option.bind_eq_some_iff.mp h
      obtain ⟨⟨tr', a', u⟩, hrest, h⟩ := Option.map_eq_some_iff.mp h
      cases h
      exact .call ht (ih _ hrest)

end Prog

/-! ### Disciplines along an execution -/

namespace Discipline

open Prog

variable {C : Type} {R : C → Type} {Q S : Type} {α : Type}

/-- The state of the discipline when these calls have returned, which is determined by the trace
alone. -/
def after (D : Discipline C R Q) : Q → Trace C R → Q
  | q, [] => q
  | q, ⟨c, r⟩ :: tr => D.after (D.next q c r) tr

/-- `Rel` ties the states of the world to those of the discipline: in related states a call
that is allowed gets a response that is granted, and leads to related states. -/
def Honours (D : Discipline C R Q) (step : S → (c : C) → R c → S → Prop)
    (Rel : S → Q → Prop) : Prop :=
  ∀ ⦃s q c r s'⦄, Rel s q → D.allowed q c → step s c r s' →
    D.granted q c r ∧ Rel s' (D.next q c r)

/-- **Soundness.**  In a world that honours the discipline, a program that obeys it ends as
the postcondition says. -/
theorem sound {D : Discipline C R Q} {step : S → (c : C) → R c → S → Prop}
    {Rel : S → Q → Prop} (hD : D.Honours step Rel) {post : α → Q → Prop}
    {p : Prog C R α} {s s' : S} {tr : Trace C R} {a : α} (h : Exec step s p tr a s') {q : Q}
    (hp : D.wp post p q) (hrel : Rel s q) :
    post a (D.after q tr) ∧ Rel s' (D.after q tr) := by
  induction h generalizing q with
  | pure => exact ⟨hp, hrel⟩
  | call hcall _ ih =>
      obtain ⟨hgranted, hrel'⟩ := hD hrel hp.1 hcall
      exact ih (hp.2 _ hgranted) hrel'

/-- The calls of an execution are ones the discipline allows, if the world honours it and the
program keeps it. -/
theorem allowed_of_exec {D : Discipline C R Q} {step : S → (c : C) → R c → S → Prop}
    {Rel : S → Q → Prop} (hD : D.Honours step Rel) {post : α → Q → Prop}
    {p : Prog C R α} {s s' : S} {tr : Trace C R} {a : α} (h : Exec step s p tr a s') {q : Q}
    (hp : D.wp post p q) (hrel : Rel s q) : ∀ x ∈ tr, ∃ q', D.allowed q' x.1 := by
  induction h generalizing q with
  | pure => exact nofun
  | call hcall _ ih =>
      obtain ⟨hgranted, hrel'⟩ := hD hrel hp.1 hcall
      exact List.forall_mem_cons.mpr ⟨⟨q, hp.1⟩, ih (hp.2 _ hgranted) hrel'⟩

/-- **The rule of neutral parts.**  A program all of whose calls are allowed in `q` and leave
it alone ends in `q`. -/
theorem returns_of_calls {D : Discipline C R Q} {q : Q} {P : C → Prop}
    (hP : ∀ c, P c → D.allowed q c ∧ ∀ r, D.next q c r = q) {p : Prog C R α} (hp : p.Calls P) :
    D.Returns q p := by
  induction p with
  | pure a => exact ⟨trivial, rfl⟩
  | call c k ih =>
      obtain ⟨hallowed, hnext⟩ := hP c hp.1
      refine ⟨hallowed, fun r _ => ?_⟩
      rw [hnext r]
      exact ih r (hp.2 r)

/-- A call that is allowed and changes nothing of the state of the discipline is passed over. -/
theorem wp_neutral {D : Discipline C R Q} {q : Q} {c : C} {β : Type} {post : β → Q → Prop}
    {rest : R c → Prog C R β} (hallowed : D.allowed q c) (hnext : ∀ r, D.next q c r = q)
    (hrest : ∀ r, D.granted q c r → D.wp post (rest r) q) :
    D.wp post (lift c >>= rest) q := by
  refine wp_bind.mpr ⟨hallowed, fun r hr => ?_⟩
  rw [hnext r]
  exact hrest r hr

end Discipline

end LeipoCode
