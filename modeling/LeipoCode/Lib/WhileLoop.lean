import Mathlib.Tactic.Common

/-!
# While loops with an output

A loop over any type of states whose body puts something out at each pass:

* `Ends pass s os` — the loop started in `s` ends, and has put out `os`;
* `Ends.of_pass` — an ending loop, seen from its first pass;
* `not_ends_of_fixed` — a loop that comes back to where it was does not end.
-/

namespace LeipoCode.WhileLoop

universe u v

variable {σ : Type u} {ω : Type v}

/-- The loop ends with this output; `pass` is nothing where the test of the loop fails. -/
inductive Ends (pass : σ → Option (ω × σ)) : σ → List ω → Prop
  | stop {s : σ} : pass s = none → Ends pass s []
  | pass {s s' : σ} {o : ω} {os : List ω} :
      pass s = some (o, s') → Ends pass s' os → Ends pass s (o :: os)

variable {pass : σ → Option (ω × σ)} {s s' : σ} {o : ω} {os : List ω}

/-- **The first pass** of a loop that ends puts out the first of its output. -/
theorem Ends.of_pass (h : Ends pass s os) (hpass : pass s = some (o, s')) :
    ∃ os', os = o :: os' ∧ Ends pass s' os' := by
  cases h with
  | stop hstop =>
      rw [hpass] at hstop
      cases hstop
  | pass hpass' hrest =>
      rw [hpass] at hpass'
      cases hpass'
      exact ⟨_, rfl, hrest⟩

/-- A loop that makes a first pass has put something out by its end. -/
theorem Ends.ne_nil (h : Ends pass s os) (hpass : pass s = some (o, s')) : os ≠ [] := by
  obtain ⟨os', rfl, -⟩ := h.of_pass hpass
  exact List.cons_ne_nil o os'

/-- A pass that changes nothing is made again and again, so the loop does not end with any output.
-/
theorem not_ends_of_fixed (hpass : pass s = some (o, s)) : ¬ Ends pass s os := by
  intro h
  induction os with
  | nil => exact h.ne_nil hpass rfl
  | cons o' os ih =>
      obtain ⟨os', hos, hrest⟩ := h.of_pass hpass
      obtain ⟨-, rfl⟩ := List.cons.inj hos
      exact ih hrest

end LeipoCode.WhileLoop
