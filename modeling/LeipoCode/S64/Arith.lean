import LeipoCode.Lib.Words
import LeipoCode.S64.Model

/-!
# What the U64 macros compute

A `U64` variable stands for the number `v`, its two words put together.  Every macro
is reduced to one assignment of both words to its result (`setLSW_setMSW`), from
which the value of the result and the frame follow at once; that the words are
written one after the other matters only where the second is computed after the
first was written, in `I64_Sub` and `I64_SubLit`, and there it reads low words only
(`setMSW_LSW`).  So nothing below asks the operands and the result to be different
variables.

The macros that add, subtract, multiply and shift to the left are covered here, and the tests, for
all values of their operands and in every store.  Overflow is part of the result: a sum is one
modulo `2^64`, as it is for the type the macros stand for.  A 32-bit operand is an `unsigned int`
here, and `Literals` has what becomes of an `int`.
-/

namespace LeipoCode.S64

open Words

/-- The number a variable stands for: its upper word counts for multiples of `2 ^ 32`.  Every number
below `2 ^ 64` is one of them, once. -/
def v (X : U64) : ℕ := X.MSW.toNat * 2 ^ 32 + X.LSW.toNat

theorem v_eq_append (X : U64) : v X = (X.MSW ++ X.LSW).toNat := (toNat_append _ _).symm

theorem longLong_eq_append (X : U64) : longLong X = X.MSW ++ X.LSW :=
  shiftLeft_or_eq_append X.MSW X.LSW

theorem toNat_longLong (X : U64) : (longLong X).toNat = v X := by
  rw [longLong_eq_append, v_eq_append]

/-! ### Assignments -/

section Assign

variable {ν : Type} [DecidableEq ν] {σ : Store ν} {X Value : ν}

/-- The two assignments of a macro write both words of one variable. -/
theorem setLSW_setMSW (lsw msw : BitVec 32) :
    setLSW X lsw (setMSW X msw σ) = Function.update σ X ⟨lsw, msw⟩ := by
  unfold setLSW setMSW
  rw [Function.update_self, Function.update_idem]

/-- The first assignment of a macro leaves every low word alone. -/
theorem setMSW_LSW (word : BitVec 32) (Y : ν) : (setMSW X word σ Y).LSW = (σ Y).LSW := by
  unfold setMSW
  by_cases hY : Y = X
  · subst hY
    rw [Function.update_self]
  · rw [Function.update_of_ne hY]

/-- `σ'` is `σ` with the number `r` modulo `2^64` in `Value`; every other variable is as it was. -/
structure Computes (σ σ' : Store ν) (Value : ν) (r : ℤ) : Prop where
  value : (v (σ' Value) : ℤ) = r % 2 ^ 64
  frame : ∀ X, X ≠ Value → σ' X = σ X

theorem computes_update {x : U64} {r : ℤ} (hx : (v x : ℤ) = r % 2 ^ 64) :
    Computes σ (Function.update σ Value x) Value r where
  value := by rw [Function.update_self, hx]
  frame := fun X hX => Function.update_of_ne hX _ _

/-- The macros that compute in a `long long` leave that number in their result. -/
theorem computes_setVal {Val : BitVec 64} {r : ℤ} (hVal : (Val.toNat : ℤ) = r % 2 ^ 64) :
    Computes σ (setVal Value Val σ) Value r := by
  rw [setVal, setLSW_setMSW]
  apply computes_update
  rw [v_eq_append]
  have hjoin := append_of_shift (w := 32) Val
  rw [show ((Val.sshiftRight 32).setWidth 32 ++ Val.setWidth 32) = Val from hjoin]
  exact hVal

end Assign

/-! ### The macros in a `long long` -/

section LongLong

variable {ν : Type} [DecidableEq ν] (A B Value : ν) (σ : Store ν) (b : BitVec 32)

theorem toNat_longLong_uint : ((Lit.uint b).longLong).toNat = b.toNat := by
  rw [Lit.longLong, BitVec.toNat_setWidth]
  have hlt := b.isLt
  exact Nat.mod_eq_of_lt (by omega)

theorem i64Add_computes :
    Computes σ (i64Add A B Value σ) Value (v (σ A) + v (σ B)) := by
  apply computes_setVal
  rw [BitVec.toNat_add, toNat_longLong, toNat_longLong]
  push_cast
  rfl

theorem i64AddLit_computes :
    Computes σ (i64AddLit A (.uint b) Value σ) Value (v (σ A) + b.toNat) := by
  apply computes_setVal
  rw [BitVec.toNat_add, toNat_longLong, toNat_longLong_uint]
  push_cast
  rfl

theorem i64Mul_computes :
    Computes σ (i64Mul A B Value σ) Value (v (σ A) * v (σ B)) := by
  apply computes_setVal
  rw [BitVec.toNat_mul, toNat_longLong, toNat_longLong]
  push_cast
  rfl

theorem i64MulLit_computes :
    Computes σ (i64MulLit A (.uint b) Value σ) Value (v (σ A) * b.toNat) := by
  apply computes_setVal
  rw [BitVec.toNat_mul, toNat_longLong, toNat_longLong_uint]
  push_cast
  rfl

theorem i64ShiftLeft_computes (s : Fin 64) :
    Computes σ (i64ShiftLeft s Value σ) Value (v (σ Value) * 2 ^ s.val) := by
  apply computes_setVal
  rw [BitVec.toNat_shiftLeft, toNat_longLong, Nat.shiftLeft_eq]
  push_cast
  rfl

end LongLong

/-! ### The macros in the words -/

section InWords

variable {ν : Type} [DecidableEq ν] (A B Value : ν) (σ : Store ν)

theorem i64Sub_computes :
    Computes σ (i64Sub A B Value σ) Value (v (σ A) - v (σ B)) := by
  unfold i64Sub
  dsimp only
  rw [setMSW_LSW, setMSW_LSW, setLSW_setMSW]
  apply computes_update
  rw [v_eq_append, v_eq_append, v_eq_append]
  exact append_sub (σ A).MSW (σ A).LSW (σ B).MSW (σ B).LSW

/-- The operand is a number whose high word is zero. -/
theorem i64SubLit_computes (B : Lit) :
    Computes σ (i64SubLit A B Value σ) Value (v (σ A) - B.unsigned.toNat) := by
  unfold i64SubLit
  dsimp only
  rw [setMSW_LSW, setLSW_setMSW]
  apply computes_update
  have hlit : B.unsigned.toNat = ((0 : BitVec 32) ++ B.unsigned).toNat := by
    rw [toNat_append]
    simp
  have hword : (σ A).MSW - (if (σ A).LSW < B.unsigned then (1 : BitVec 32) else 0)
      = (σ A).MSW - 0 - if (σ A).LSW < B.unsigned then 1 else 0 := by
    simp
  rw [v_eq_append, v_eq_append, hlit, hword]
  exact append_sub (σ A).MSW (σ A).LSW 0 B.unsigned

end InWords

/-! ### The tests -/

section Tests

variable (A B : U64)

theorem i64IsEqual_eq : i64IsEqual A B = decide (v A = v B) := by
  rw [i64IsEqual, v_eq_append, v_eq_append, Bool.eq_iff_iff, decide_eq_true_eq,
    toNat_append_eq, Bool.and_eq_true, beq_iff_eq, beq_iff_eq]
  exact And.comm

theorem i64AreNotEqual_eq : i64AreNotEqual A B = decide (v A ≠ v B) := by
  have hnot : i64AreNotEqual A B = !i64IsEqual A B := by
    rw [i64AreNotEqual, i64IsEqual, Bool.not_and]
    rfl
  rw [hnot, i64IsEqual_eq, decide_not]

theorem i64IsLessThan_eq : i64IsLessThan A B = decide (v A < v B) := by
  rw [i64IsLessThan, v_eq_append, v_eq_append, Bool.eq_iff_iff, decide_eq_true_eq,
    toNat_append_lt]
  simp

theorem i64IsLessOrEqual_eq : i64IsLessOrEqual A B = decide (v A ≤ v B) := by
  rw [i64IsLessOrEqual, v_eq_append, v_eq_append, Bool.eq_iff_iff, decide_eq_true_eq,
    toNat_append_le]
  simp

theorem i64IsGreaterThan_eq : i64IsGreaterThan A B = decide (v A > v B) := by
  have hswap : i64IsGreaterThan A B = i64IsLessThan B A := by
    rw [i64IsGreaterThan, i64IsLessThan, Bool.beq_comm (a := A.MSW)]
  rw [hswap, i64IsLessThan_eq]

theorem i64IsGreaterOrEqual_eq : i64IsGreaterOrEqual A B = decide (v A ≥ v B) := by
  have hswap : i64IsGreaterOrEqual A B = i64IsLessOrEqual B A := by
    rw [i64IsGreaterOrEqual, i64IsLessOrEqual, Bool.beq_comm (a := A.MSW)]
  rw [hswap, i64IsLessOrEqual_eq]

theorem i64IsZero_eq : i64IsZero A = decide (v A = 0) := by
  have hzero : i64IsZero A = i64IsEqual A ⟨0, 0⟩ := rfl
  rw [hzero, i64IsEqual_eq]
  rfl

end Tests

/-- **The U64 macros compute on the number.**  For any variables `A`, `B` and
`Value`, the same or not, and any contents: the arithmetic macros leave the result
modulo `2^64` in `Value` and every other variable as it was, and the tests decide
the relation they are named after. -/
theorem u64_macros_compute {ν : Type} [DecidableEq ν] (A B Value : ν) (σ : Store ν)
    (b : BitVec 32) (s : Fin 64) :
    (Computes σ (i64Add A B Value σ) Value (v (σ A) + v (σ B)) ∧
      Computes σ (i64Sub A B Value σ) Value (v (σ A) - v (σ B)) ∧
      Computes σ (i64Mul A B Value σ) Value (v (σ A) * v (σ B))) ∧
    (Computes σ (i64AddLit A (.uint b) Value σ) Value (v (σ A) + b.toNat) ∧
      Computes σ (i64SubLit A (.uint b) Value σ) Value (v (σ A) - b.toNat) ∧
      Computes σ (i64MulLit A (.uint b) Value σ) Value (v (σ A) * b.toNat)) ∧
    Computes σ (i64ShiftLeft s Value σ) Value (v (σ Value) * 2 ^ s.val) ∧
    ∀ X Y : U64,
      i64IsEqual X Y = decide (v X = v Y) ∧ i64AreNotEqual X Y = decide (v X ≠ v Y) ∧
      i64IsLessThan X Y = decide (v X < v Y) ∧ i64IsLessOrEqual X Y = decide (v X ≤ v Y) ∧
      i64IsGreaterThan X Y = decide (v X > v Y) ∧
      i64IsGreaterOrEqual X Y = decide (v X ≥ v Y) ∧ i64IsZero X = decide (v X = 0) :=
  ⟨⟨i64Add_computes A B Value σ, i64Sub_computes A B Value σ, i64Mul_computes A B Value σ⟩,
    ⟨i64AddLit_computes A Value σ b, i64SubLit_computes A Value σ (.uint b),
      i64MulLit_computes A Value σ b⟩,
    i64ShiftLeft_computes Value σ s,
    fun X Y => ⟨i64IsEqual_eq X Y, i64AreNotEqual_eq X Y, i64IsLessThan_eq X Y,
      i64IsLessOrEqual_eq X Y, i64IsGreaterThan_eq X Y, i64IsGreaterOrEqual_eq X Y,
      i64IsZero_eq X⟩⟩

/-- Doubling in place: all three arguments are one variable. -/
example : v (i64Add () () () (fun _ => ⟨0x80000000, 7⟩) ()) = 2 * (7 * 2 ^ 32 + 0x80000000) := by
  decide

end LeipoCode.S64
