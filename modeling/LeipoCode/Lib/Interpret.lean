import LeipoCode.Lib.Exec
import LeipoCode.Lib.Fallible

/-!
# Programs run by a handler that may fail

A program of `LeipoCode.Lib.Prog` whose calls are answered by a function, which may refuse
to answer:

* `Prog.interpret` — the program as one in `Except`;
* `Discipline.answered` — the discipline that allows some of the calls, all of which are
  answered by the handler;
* `allCalls_answered_iff` — **a program only makes calls that are answered** exactly if it runs
  without a failure.

This is for programs that are sequential as a whole and are run on their own, a parser on its buffer
for example: the failure is what such a program does to itself, a read outside the buffer.  A result
for all responses would be too much to ask of it, since the responses are determined; and a result
for one interpreter alone would not say where the failure was.
-/

namespace LeipoCode

open Fallible

variable {C : Type} {R : C → Type} {ε α β : Type}

namespace Prog

/-- Run the program with the answers of the handler, up to the first failure. -/
def interpret (handler : (c : C) → Except ε (R c)) : Prog C R α → Except ε α
  | .pure a => .ok a
  | .call c k => handler c >>= fun r => (k r).interpret handler

variable {handler : (c : C) → Except ε (R c)}

@[simp] theorem interpret_pure (a : α) :
    (Pure.pure a : Prog C R α).interpret handler = .ok a := rfl

@[simp] theorem interpret_lift (c : C) :
    (lift c : Prog C R (R c)).interpret handler = handler c := by
  show (handler c >>= fun r => .ok r) = handler c
  cases handler c <;> rfl

@[simp] theorem interpret_bind (p : Prog C R α) (f : α → Prog C R β) :
    (p >>= f).interpret handler = p.interpret handler >>= fun a => (f a).interpret handler := by
  induction p with
  | pure a => rfl
  | call c k ih =>
      show (handler c >>= fun r => (k r >>= f).interpret handler) = _
      cases hc : handler c with
      | error e => simp [interpret, hc]
      | ok r => simp [interpret, hc, ih]

theorem interpret_ite (c : Prop) [Decidable c] (p₁ p₂ : Prog C R α) :
    (if c then p₁ else p₂).interpret handler =
      if c then p₁.interpret handler else p₂.interpret handler := by
  split <;> rfl

end Prog

namespace Discipline

variable {handler : (c : C) → Except ε (R c)} {P Q : C → Prop}

/-- The calls that satisfy `P` are allowed, and answered by the handler: the response that is
granted is the one the handler gives. -/
def answered (handler : (c : C) → Except ε (R c)) (P : C → Prop) : Discipline C R Unit where
  allowed _ c := P c
  granted _ c r := handler c = .ok r
  next _ _ _ := ()

/-- Every call the program makes up to the first failure satisfies `P`, and so does the call that
fails. -/
def AllCalls (handler : (c : C) → Except ε (R c)) (P : C → Prop) (p : Prog C R α) : Prop :=
  (answered handler P).wp (fun _ _ => True) p ()

theorem allCalls_and {p : Prog C R α} :
    AllCalls handler (fun c => P c ∧ Q c) p ↔
      AllCalls handler P p ∧ AllCalls handler Q p := by
  induction p with
  | pure a => exact iff_of_true trivial ⟨trivial, trivial⟩
  | call c k ih =>
      constructor
      · rintro ⟨⟨hP, hQ⟩, hk⟩
        exact ⟨⟨hP, fun r hr => ((ih r).mp (hk r hr)).1⟩, hQ, fun r hr => ((ih r).mp (hk r hr)).2⟩
      · rintro ⟨⟨hP, hk⟩, hQ, hk'⟩
        exact ⟨⟨hP, hQ⟩, fun r hr => (ih r).mpr ⟨hk r hr, hk' r hr⟩⟩

theorem allCalls_of_calls {p : Prog C R α} (h : p.Calls P) : AllCalls handler P p := by
  induction p with
  | pure a => trivial
  | call c k ih => exact ⟨h.1, fun r _ => ih r (h.2 r)⟩

/-- A call that is answered satisfies the property itself, and the rest does with that answer. -/
theorem allCalls_call {c : C} {k : R c → Prog C R α} {r : R c} (hc : handler c = .ok r) :
    AllCalls handler P (.call c k) ↔ P c ∧ AllCalls handler P (k r) := by
  constructor
  · rintro ⟨hP, hk⟩
    exact ⟨hP, hk r hc⟩
  · rintro ⟨hP, hk⟩
    refine ⟨hP, fun r' hr' => ?_⟩
    obtain rfl := Except.ok.inj (hc.symm.trans hr')
    exact hk

theorem allCalls_lift_bind {c : C} {f : R c → Prog C R α} {r : R c} (hc : handler c = .ok r) :
    AllCalls handler P (Prog.lift c >>= f) ↔ P c ∧ AllCalls handler P (f r) :=
  allCalls_call hc

theorem allCalls_ite {c : Prop} [Decidable c] {p₁ p₂ : Prog C R α} :
    AllCalls handler P (if c then p₁ else p₂) ↔
      (c → AllCalls handler P p₁) ∧ (¬ c → AllCalls handler P p₂) := by
  split_ifs with hc
  · simp [hc]
  · simp [hc]

/-- **Sequencing**, where the first program does not fail: both satisfy the property, the second
with what the first has returned. -/
theorem allCalls_bind {p : Prog C R α} {f : α → Prog C R β} {a : α}
    (hp : p.interpret handler = .ok a) :
    AllCalls handler P (p >>= f) ↔ AllCalls handler P p ∧ AllCalls handler P (f a) := by
  induction p with
  | pure a' =>
      cases hp
      exact (and_iff_right trivial).symm
  | call c k ih =>
      cases hc : handler c with
      | error e =>
          rw [Prog.interpret, hc] at hp
          cases hp
      | ok r =>
          rw [Prog.interpret, hc, ok_bind] at hp
          rw [allCalls_call hc, and_assoc, ← ih r hp]
          exact allCalls_call hc

/-- **A program only makes calls that are answered** exactly if it runs without a failure. -/
theorem allCalls_answered_iff {p : Prog C R α} :
    AllCalls handler (fun c => ∃ r, handler c = .ok r) p ↔ ∃ a, p.interpret handler = .ok a := by
  induction p with
  | pure a => exact iff_of_true trivial ⟨a, rfl⟩
  | call c k ih =>
      cases hc : handler c with
      | error e =>
          apply iff_of_false
          · rintro ⟨⟨r, hr⟩, -⟩
            rw [hc] at hr
            cases hr
          · rintro ⟨a, ha⟩
            rw [Prog.interpret, hc] at ha
            cases ha
      | ok r => rw [Prog.interpret, hc, ok_bind, ← ih r, allCalls_call hc, and_iff_right ⟨r, hc⟩]

end Discipline

end LeipoCode
