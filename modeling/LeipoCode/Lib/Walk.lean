import Mathlib.Tactic.Common

/-!
# Walks to a sentinel

A loop that calls `x = next(x)` until it meets a sentinel `stop`, for any type of
positions and a `next` that may fail:

* `Walk next stop x xs` — the loop started at `x` visits `xs`, in this order, and ends;
* `Walk.unique` — there is at most one such `xs`;
* `walk_of_next` — a sequence is walked from its first element if `next` leads from
  every element of it to the one behind it.
-/

namespace LeipoCode

universe u v

variable {α : Type u} {ε : Type v}

/-- The loop started at `x` visits the positions `xs` before it meets `stop`. -/
inductive Walk (next : α → Except ε α) (stop : α) : α → List α → Prop
  | stop : Walk next stop stop []
  | visit {x y : α} {xs : List α} :
      x ≠ stop → next x = .ok y → Walk next stop y xs → Walk next stop x (x :: xs)

variable {next : α → Except ε α} {stop : α}

/-- **A walk is determined by where it starts**, so what one walk visits is all there is to visit.
-/
theorem Walk.unique {x : α} {xs ys : List α} (hx : Walk next stop x xs)
    (hy : Walk next stop x ys) : xs = ys := by
  induction hx generalizing ys with
  | stop =>
      cases hy with
      | stop => rfl
      | visit hne _ _ => exact absurd rfl hne
  | visit hne hnext _ ih =>
      cases hy with
      | stop => exact absurd rfl hne
      | visit _ hnext' hrest =>
          rw [hnext] at hnext'
          obtain rfl := Except.ok.inj hnext'
          rw [ih hrest]

/-- A sequence that `next` leads through is walked from its first element. -/
theorem walk_of_next {xs : List α}
    (h : ∀ ys x zs, xs = ys ++ x :: zs → x ≠ stop ∧ next x = .ok (zs.head?.getD stop)) :
    Walk next stop (xs.head?.getD stop) xs := by
  induction xs with
  | nil => exact .stop
  | cons x xs ih =>
      obtain ⟨hne, hnext⟩ := h [] x xs rfl
      refine .visit hne hnext (ih fun ys y zs hsplit => h (x :: ys) y zs ?_)
      rw [hsplit, List.cons_append]

end LeipoCode
