import LeipoCode.S64.Division

/-!
# The 32-bit operand of `I64_AddLit` and `I64_SubLit`

The two macros take the same operand, an `unsigned int` or an `int`.  `I64_AddLit` adds
it to a `long long`, so it is widened by its value; `I64_SubLit` compares and subtracts
it in the low word, where C reads it as unsigned, and its high word counts as zero
whatever the sign.  A negative operand is thus widened in the one and not in the other,
and the two are `2^32` apart (`toNat_unsigned`): everything below follows from that.

Whether an operand is negative is the whole of the condition (`addSubInverse_iff`), for every `U64`
and every operand of either type.  An `unsigned int` is widened alike by both macros, and for it
they are inverse to each other.
-/

namespace LeipoCode.S64

/-- The value of an operand, by its C type: the same bits are a negative number for an `int` and a
large one for an `unsigned int`. -/
def Lit.value : Lit → ℤ
  | .uint b => b.toNat
  | .int b => b.toInt

/-- `B` widened to a `U64` by its value: what a variable would have that was assigned the operand.
-/
def Lit.widened (B : Lit) : U64 :=
  ⟨B.longLong.setWidth 32, (B.longLong.sshiftRight 32).setWidth 32⟩

/-! ### The value of an operand -/

theorem Lit.toInt_longLong (B : Lit) : B.longLong.toInt = B.value := by
  cases B with
  | uint b =>
    change (b.setWidth 64).toInt = b.toNat
    rw [BitVec.toInt_setWidth, Int.bmod_eq_of_le]
    · omega
    · have hlt := b.isLt
      omega
  | int b => exact BitVec.toInt_signExtend_of_le (by decide)

/-- The `long long` of an operand, and its widened words, stand for its value modulo
`2^64`. -/
theorem Lit.toNat_longLong (B : Lit) : (B.longLong.toNat : ℤ) = B.value % 2 ^ 64 := by
  rw [← B.toInt_longLong, BitVec.toInt_eq_toNat_cond]
  have hlt := B.longLong.isLt
  split_ifs <;> omega

theorem Lit.v_widened (B : Lit) : v B.widened = B.longLong.toNat := by
  rw [v_eq_append]
  exact congrArg BitVec.toNat (Words.append_of_shift (w := 32) B.longLong)

/-- **The operand in the low word** is its value, or `2^32` more if that is negative. -/
theorem Lit.toNat_unsigned (B : Lit) :
    (B.unsigned.toNat : ℤ) = B.value + if B.value < 0 then 2 ^ 32 else 0 := by
  cases B with
  | uint b =>
    have hnonneg : ¬ (Lit.uint b).value < 0 := Int.not_lt.mpr (Int.natCast_nonneg _)
    rw [if_neg hnonneg, add_zero]
    rfl
  | int b =>
    change (b.toNat : ℤ) = b.toInt + if b.toInt < 0 then 2 ^ 32 else 0
    have hlt := b.isLt
    rw [BitVec.toInt_eq_toNat_cond]
    split_ifs <;> omega

theorem Lit.value_bounds (B : Lit) : -2 ^ 31 ≤ B.value ∧ B.value < 2 ^ 32 := by
  cases B with
  | uint b =>
    have hlt := b.isLt
    change -2 ^ 31 ≤ (b.toNat : ℤ) ∧ (b.toNat : ℤ) < 2 ^ 32
    omega
  | int b =>
    have hle := b.le_toInt
    have hlt := b.toInt_lt
    change -2 ^ 31 ≤ b.toInt ∧ b.toInt < 2 ^ 32
    omega

/-! ### Results that are the same -/

section Results

variable {ν : Type} [DecidableEq ν] {σ σ₁ σ₂ : Store ν} {Value : ν} {r r' : ℤ}

theorem v_injective : Function.Injective v := by
  rintro ⟨lsw, msw⟩ ⟨lsw', msw'⟩ h
  rw [v_eq_append, v_eq_append, Words.toNat_append_eq] at h
  obtain ⟨rfl, rfl⟩ := h
  rfl

/-- Two macros that leave the same number leave the same store, and conversely. -/
theorem Computes.eq_iff (h₁ : Computes σ σ₁ Value r) (h₂ : Computes σ σ₂ Value r') :
    σ₁ = σ₂ ↔ r % 2 ^ 64 = r' % 2 ^ 64 := by
  rw [← h₁.value, ← h₂.value, Int.natCast_inj]
  constructor
  · intro h
    rw [h]
  · intro h
    funext X
    by_cases hX : X = Value
    · subst hX
      exact v_injective h
    · rw [h₁.frame X hX, h₂.frame X hX]

omit [DecidableEq ν] in
/-- A macro leaves a given number if and only if it computes it. -/
theorem Computes.value_eq_iff (h : Computes σ σ₁ Value r) (x : U64) :
    σ₁ Value = x ↔ r % 2 ^ 64 = v x := by
  rw [← h.value, Int.natCast_inj, v_injective.eq_iff]

end Results

/-! ### The two macros -/

section AddSub

variable {ν : Type} [DecidableEq ν] {A W Sum Difference : ν} {σ : Store ν} {B : Lit}

theorem i64AddLit_computes_value :
    Computes σ (i64AddLit A B Sum σ) Sum (v (σ A) + B.value) := by
  apply computes_setVal
  rw [BitVec.toNat_add, toNat_longLong, Int.natCast_emod, Int.natCast_add, B.toNat_longLong]
  exact Int.add_emod_emod ..

variable (A W Sum Difference σ B) in
/-- Adding an operand and subtracting it again gives the number back, and both macros
agree with the ones for two `U64` variables, the operand widened by its value in `W`. -/
structure AddSubInverse : Prop where
  back : i64SubLit Sum B Difference (i64AddLit A B Sum σ) Difference = σ A
  add : σ W = B.widened → i64AddLit A B Sum σ = i64Add A W Sum σ
  sub : σ W = B.widened → i64SubLit A B Difference σ = i64Sub A W Difference σ

/-- `I64_AddLit` is right for every operand. -/
theorem i64AddLit_eq_i64Add (hW : σ W = B.widened) :
    i64AddLit A B Sum σ = i64Add A W Sum σ := by
  rw [i64AddLit_computes_value.eq_iff (i64Add_computes A W Sum σ), hW, B.v_widened,
    B.toNat_longLong, Int.add_emod_emod]

theorem i64SubLit_eq_i64Sub (hW : σ W = B.widened) (hB : 0 ≤ B.value) :
    i64SubLit A B Difference σ = i64Sub A W Difference σ := by
  rw [(i64SubLit_computes A Difference σ B).eq_iff (i64Sub_computes A W Difference σ), hW,
    B.v_widened, B.toNat_longLong, B.toNat_unsigned, if_neg (Int.not_lt.mpr hB), add_zero,
    Int.sub_emod_emod]

/-- The way there and back is off by `2^32` for a negative operand. -/
theorem addLit_subLit_back_iff :
    i64SubLit Sum B Difference (i64AddLit A B Sum σ) Difference = σ A ↔ 0 ≤ B.value := by
  have hsum := (i64AddLit_computes_value : Computes σ (i64AddLit A B Sum σ) Sum _).value
  rw [(i64SubLit_computes Sum Difference (i64AddLit A B Sum σ) B).value_eq_iff, hsum,
    B.toNat_unsigned, Int.emod_sub_emod]
  have hv := v_lt (σ A)
  obtain ⟨hlow, hhigh⟩ := B.value_bounds
  split_ifs with hneg <;> omega

/-- **Adding and subtracting a 32-bit operand** are inverse, and agree with the macros for two
variables, exactly when the operand is not negative: for every `unsigned int`, and for every `int`
from zero on.  The variables may be the same, and the number any with 64 bits. -/
theorem addSubInverse_iff : AddSubInverse A W Sum Difference σ B ↔ 0 ≤ B.value := by
  constructor
  · intro h
    exact addLit_subLit_back_iff.mp h.back
  · intro hB
    exact ⟨addLit_subLit_back_iff.mpr hB, i64AddLit_eq_i64Add,
      fun hW => i64SubLit_eq_i64Sub hW hB⟩

end AddSub

/-- `I64_AddLit` of the `int` −1 to 5, in place, leaves 4, but `I64_SubLit` of it then
leaves `2^64 + 5 - 2^32`. -/
theorem minus_one_comes_back_short :
    ¬ AddSubInverse () () () () (fun _ => ⟨5, 0⟩) (.int (-1)) := by
  intro h
  exact absurd h.back (by decide)

end LeipoCode.S64
