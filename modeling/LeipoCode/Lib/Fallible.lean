import Mathlib.Tactic.Common

/-!
# Fallible programs

How a program in `Except ε` runs, one operation at a time, for any type of errors:
the equations that `simp` unfolds a `do` block with.
-/

namespace LeipoCode.Fallible

universe u v

variable {ε : Type u} {α β : Type v}

@[simp] theorem ok_bind (a : α) (f : α → Except ε β) : (Except.ok a >>= f) = f a := rfl

@[simp] theorem error_bind (e : ε) (f : α → Except ε β) :
    ((Except.error e : Except ε α) >>= f) = .error e := rfl

@[simp] theorem pure_eq_ok (a : α) : (pure a : Except ε α) = .ok a := rfl

end LeipoCode.Fallible
