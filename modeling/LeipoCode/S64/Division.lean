import LeipoCode.S64.Arith

/-!
# Division, remainder and right shift of U64

The three macros work on a `long long`, so a number whose top bit is set is negative to
them: the quotient is truncated toward zero from below and the shift brings in ones.
Below `2^63` nothing of this shows.  From there on each macro is right only where the
sign makes no difference:

* `divMod_iff` — dividing by one;
* `shiftsRight_iff` — shifting by nothing;
* `shiftDivides_iff` — shift and division agree where the division is exact.

The comments of the source call the operands U64, so the specification is division with remainder of
natural numbers, and a shift that brings in zeros.  Each of the results is an equivalence, for all
values of the number and of the other operand; only division by zero is left out, which C leaves
undefined.

### How it goes

A number with its top bit set is, as a `long long`, what it lacks to `2^64`, negated; so its
quotient is that of this distance, negated, and its remainder likewise (`v_divLit`, `v_modLit`), and
a shift is one of the complement (`v_shiftRight`).  That the law of division holds of such a
quotient and remainder only for the divisor one is arithmetic (`negated_divMod_iff`): the remainder
of the distance, negated, is beyond every divisor unless it is zero, and then the quotient is wrong.
-/

namespace LeipoCode.S64

open Words

section Division

variable {ν : Type} [DecidableEq ν] {A Value : ν} {σ : Store ν} {b : BitVec 32}

/-- The value the macros that compute in a `long long` leave in their result. -/
theorem v_setVal (Val : BitVec 64) : v (setVal Value Val σ Value) = Val.toNat := by
  have hcomputes : Computes σ (setVal Value Val σ) Value Val.toNat := computes_setVal ?_
  have hval := hcomputes.value
  · rw [Int.emod_eq_of_lt (Int.natCast_nonneg _) (by exact_mod_cast Val.isLt)] at hval
    exact_mod_cast hval
  · rw [Int.emod_eq_of_lt (Int.natCast_nonneg _) (by exact_mod_cast Val.isLt)]

theorem v_lt (X : U64) : v X < 2 ^ 64 := by
  rw [← toNat_longLong]
  exact (longLong X).isLt

/-- The sign of the `long long`. -/
theorem msb_longLong (X : U64) : (longLong X).msb = decide (2 ^ 63 ≤ v X) := by
  rw [BitVec.msb_eq_decide, toNat_longLong]

theorem msb_of_le {X : U64} (htop : 2 ^ 63 ≤ v X) : (longLong X).msb = true :=
  (msb_longLong X).trans (decide_eq_true htop)

theorem not_msb_of_not_le {X : U64} (htop : ¬ 2 ^ 63 ≤ v X) : (longLong X).msb = false :=
  (msb_longLong X).trans (decide_eq_false htop)

theorem msb_longLong_uint (b : BitVec 32) : (Lit.uint b).longLong.msb = false := by
  rw [BitVec.msb_eq_decide, toNat_longLong_uint, decide_eq_false_iff_not]
  have hlt := b.isLt
  omega

/-! ### What the macros leave -/

theorem v_divLit : v (i64DivLit A (.uint b) Value σ Value) =
    if 2 ^ 63 ≤ v (σ A) then (2 ^ 64 - (2 ^ 64 - v (σ A)) / b.toNat) % 2 ^ 64
    else v (σ A) / b.toNat := by
  rw [i64DivLit, v_setVal]
  split_ifs with htop
  · rw [toNat_sdiv_of_msb (msb_of_le htop) (msb_longLong_uint b), toNat_longLong,
      toNat_longLong_uint]
  · rw [toNat_sdiv_of_not_msb (not_msb_of_not_le htop) (msb_longLong_uint b),
      toNat_longLong, toNat_longLong_uint]

theorem v_modLit : v (i64ModLit A (.uint b) Value σ Value) =
    if 2 ^ 63 ≤ v (σ A) then (2 ^ 64 - (2 ^ 64 - v (σ A)) % b.toNat) % 2 ^ 64
    else v (σ A) % b.toNat := by
  rw [i64ModLit, v_setVal]
  split_ifs with htop
  · rw [toNat_srem_of_msb (msb_of_le htop) (msb_longLong_uint b), toNat_longLong,
      toNat_longLong_uint]
  · rw [toNat_srem_of_not_msb (not_msb_of_not_le htop) (msb_longLong_uint b),
      toNat_longLong, toNat_longLong_uint]

theorem v_shiftRight (s : Fin 64) : v (i64ShiftRight s A σ A) =
    if 2 ^ 63 ≤ v (σ A) then 2 ^ 64 - 1 - (2 ^ 64 - 1 - v (σ A)) / 2 ^ s.val
    else v (σ A) / 2 ^ s.val := by
  rw [i64ShiftRight, v_setVal]
  split_ifs with htop
  · rw [toNat_sshiftRight_of_msb (msb_of_le htop), toNat_longLong]
  · rw [toNat_sshiftRight_of_not_msb (not_msb_of_not_le htop), toNat_longLong]

end Division

/-! ### The laws of unsigned division -/

section Laws

variable {ν : Type} [DecidableEq ν] (A Q R : ν) (σ : Store ν)

/-- `I64_DivLit` leaves the quotient and `I64_ModLit` the remainder, of the numbers without a sign
that the comments speak of. -/
def DivMod (b : BitVec 32) : Prop :=
  v (σ A) = v (i64DivLit A (.uint b) Q σ Q) * b.toNat + v (i64ModLit A (.uint b) R σ R) ∧
    v (i64ModLit A (.uint b) R σ R) < b.toNat

/-- `I64_ShiftRight` leaves the number divided by a power of two, as a shift that brings in zeros
does. -/
def ShiftsRight (s : Fin 64) : Prop :=
  v (i64ShiftRight s A σ A) = v (σ A) / 2 ^ s.val

/-- `I64_ShiftRight` agrees with `I64_DivLit` by the power of two, whatever the two of them compute.
The power has to be a 32-bit operand, so the shift is by 31 at most. -/
def ShiftDivides (s : Fin 32) : Prop :=
  v (i64ShiftRight (s.castLE (Nat.le_add_right 32 32)) A σ A) =
    v (i64DivLit A (.uint (BitVec.twoPow 32 s.val)) Q σ Q)

variable {A Q R σ}

/-- Quotient and remainder of the distance to `2^64`, both negated, are quotient and
remainder of the number only for the divisor one. -/
theorem negated_divMod_iff {n d : ℕ} (htop : 2 ^ 63 ≤ n) (hn : n < 2 ^ 64) (hpos : 0 < d)
    (hd : d < 2 ^ 32) :
    (n = (2 ^ 64 - (2 ^ 64 - n) / d) % 2 ^ 64 * d + (2 ^ 64 - (2 ^ 64 - n) % d) % 2 ^ 64 ∧
      (2 ^ 64 - (2 ^ 64 - n) % d) % 2 ^ 64 < d) ↔ d = 1 := by
  obtain ⟨m, hm, hmpos, hmle⟩ : ∃ m, n = 2 ^ 64 - m ∧ 0 < m ∧ m ≤ 2 ^ 63 :=
    ⟨2 ^ 64 - n, by omega, by omega, by omega⟩
  have hdist : 2 ^ 64 - n = m := by omega
  rw [hdist]
  have hlaw : m / d * d + m % d = m := Nat.div_add_mod' m d
  have hrem : m % d < d := Nat.mod_lt _ hpos
  by_cases hdvd : m % d = 0
  · -- an exact division: the remainder is right, and the quotient is off by `2^64 * (d - 1)`
    have hquot : 0 < m / d := Nat.pos_of_ne_zero fun h => by
      rw [h, hdvd] at hlaw
      omega
    have hquotLe : m / d ≤ m := Nat.div_le_self m d
    have hmod : (2 ^ 64 - m / d) % 2 ^ 64 = 2 ^ 64 - m / d := Nat.mod_eq_of_lt (by omega)
    rw [hmod, hdvd, Nat.sub_mul, hm]
    rw [hdvd, Nat.add_zero] at hlaw
    rw [hlaw]
    omega
  · -- the remainder is negative, so it is beyond any divisor
    have hmod : (2 ^ 64 - m % d) % 2 ^ 64 = 2 ^ 64 - m % d := Nat.mod_eq_of_lt (by omega)
    rw [hmod]
    refine iff_of_false (fun h => ?_) fun h => hdvd (by rw [h, Nat.mod_one])
    omega

/-- **Division and remainder** are the unsigned ones below `2^63`, and for the divisor
one. -/
theorem divMod_iff {b : BitVec 32} (hb : b ≠ 0) :
    DivMod A Q R σ b ↔ v (σ A) < 2 ^ 63 ∨ b = 1 := by
  have hpos : 0 < b.toNat := Nat.pos_of_ne_zero fun h => hb (BitVec.eq_of_toNat_eq h)
  have hone : b = 1 ↔ b.toNat = 1 := by
    rw [BitVec.toNat_eq]
    rfl
  rw [DivMod, v_divLit, v_modLit, hone]
  split_ifs with htop
  · rw [or_iff_right (Nat.not_lt.mpr htop)]
    exact negated_divMod_iff htop (v_lt _) hpos b.isLt
  · exact iff_of_true ⟨(Nat.div_add_mod' _ _).symm, Nat.mod_lt _ hpos⟩ (.inl (Nat.not_le.mp htop))

/-- **The right shift** is the unsigned one below `2^63`, and the shift by nothing. -/
theorem shiftsRight_iff {s : Fin 64} : ShiftsRight A σ s ↔ v (σ A) < 2 ^ 63 ∨ s = 0 := by
  have hzero : s = 0 ↔ s.val = 0 := Fin.ext_iff
  rw [ShiftsRight, v_shiftRight, hzero]
  split_ifs with htop
  · rw [or_iff_right (Nat.not_lt.mpr htop)]
    have hv := v_lt (σ A)
    constructor
    · -- a shift by one place or more brings a one in at the top
      intro h
      by_contra hs
      have htwo : 2 ≤ 2 ^ s.val := Nat.le_self_pow hs 2
      have hin : (2 ^ 64 - 1 - v (σ A)) / 2 ^ s.val ≤ (2 ^ 64 - 1 - v (σ A)) / 2 :=
        Nat.div_le_div_left htwo (by decide)
      have hout : v (σ A) / 2 ^ s.val ≤ v (σ A) / 2 := Nat.div_le_div_left htwo (by decide)
      omega
    · intro hs
      rw [hs, Nat.pow_zero, Nat.div_one, Nat.div_one]
      omega
  · exact iff_of_true rfl (.inl (Nat.not_le.mp htop))

/-- **Shift and division agree** below `2^63`, and where the division is exact. -/
theorem shiftDivides_iff {s : Fin 32} :
    ShiftDivides A Q σ s ↔ v (σ A) < 2 ^ 63 ∨ 2 ^ s.val ∣ v (σ A) := by
  have hpow : (BitVec.twoPow 32 s.val).toNat = 2 ^ s.val := by
    rw [BitVec.toNat_twoPow]
    exact Nat.mod_eq_of_lt (Nat.pow_lt_pow_right (by decide) s.isLt)
  have hval : (s.castLE (Nat.le_add_right 32 32) : Fin 64).val = s.val := rfl
  rw [ShiftDivides, v_shiftRight, v_divLit, hpow, hval]
  split_ifs with htop
  · rw [or_iff_right (Nat.not_lt.mpr htop)]
    have hv := v_lt (σ A)
    have hdvd64 : 2 ^ s.val ∣ 2 ^ 64 := Nat.pow_dvd_pow 2 (by omega)
    obtain ⟨m, hm⟩ : ∃ m, 2 ^ 64 - v (σ A) = m + 1 := ⟨2 ^ 64 - 1 - v (σ A), by omega⟩
    have hm' : 2 ^ 64 - 1 - v (σ A) = m := by omega
    -- the divisor divides `2^64`, so it divides the number if and only if its distance to it
    have hdvd : 2 ^ s.val ∣ v (σ A) ↔ 2 ^ s.val ∣ m + 1 := by
      rw [← hm, Nat.dvd_sub_iff_right hv.le hdvd64]
    have hle : m / 2 ^ s.val ≤ m := Nat.div_le_self m _
    rw [hm, hm', hdvd, Nat.succ_div]
    generalize m / 2 ^ s.val = q at hle ⊢
    split_ifs with hexact
    · refine iff_of_true ?_ hexact
      have hmod : (2 ^ 64 - (q + 1)) % 2 ^ 64 = 2 ^ 64 - (q + 1) := Nat.mod_eq_of_lt (by omega)
      rw [hmod]
      omega
    · refine iff_of_false (fun h => ?_) hexact
      rw [Nat.add_zero] at h
      rcases Nat.eq_zero_or_pos q with rfl | hq
      · have hmod : (2 ^ 64 - 0) % 2 ^ 64 = 0 := by decide
        rw [hmod] at h
        omega
      · have hmod : (2 ^ 64 - q) % 2 ^ 64 = 2 ^ 64 - q := Nat.mod_eq_of_lt (by omega)
        rw [hmod] at h
        omega
  · exact iff_of_true rfl (.inl (Nat.not_le.mp htop))

end Laws

/-- **Division, remainder and right shift**, for every number, every divisor but zero and every
shift: each is the unsigned operation exactly where its condition says.  The numbers are those with
64 bits, and from `2^63` on each of the three is right only where the sign does not matter. -/
theorem unsigned_division_iff {ν : Type} [DecidableEq ν] (A Q R : ν) (σ : Store ν) :
    (∀ b : BitVec 32, b ≠ 0 → (DivMod A Q R σ b ↔ v (σ A) < 2 ^ 63 ∨ b = 1)) ∧
    (∀ s : Fin 64, ShiftsRight A σ s ↔ v (σ A) < 2 ^ 63 ∨ s = 0) ∧
    (∀ s : Fin 32, ShiftDivides A Q σ s ↔ v (σ A) < 2 ^ 63 ∨ 2 ^ s.val ∣ v (σ A)) :=
  ⟨fun _ hb => divMod_iff hb, fun _ => shiftsRight_iff, fun _ => shiftDivides_iff⟩

/-- The number 7 divided by two, whose top bit is clear. -/
theorem unsigned_division_seven :
    DivMod () () () (fun _ => ⟨7, 0⟩) 2 ∧ ShiftsRight () (fun _ => ⟨7, 0⟩) 1 ∧
      ShiftDivides () () (fun _ => ⟨7, 0⟩) 1 := by
  obtain ⟨hdivMod, hshift, hagree⟩ := unsigned_division_iff () () () (fun _ => ⟨7, 0⟩)
  exact ⟨(hdivMod 2 (by decide)).mpr (.inl (by decide)), (hshift 1).mpr (.inl (by decide)),
    (hagree 1).mpr (.inl (by decide))⟩

/-- The number `2^63 + 1` divided by two: the quotient is that of a negative number, the
remainder is beyond the divisor, and the shift disagrees with both. -/
theorem upper_half_divides_signed :
    ∃ σ : Store Unit, v (σ ()) = 2 ^ 63 + 1 ∧ ¬ DivMod () () () σ 2 ∧ ¬ ShiftsRight () σ 1 ∧
      ¬ ShiftDivides () () σ 1 := by
  refine ⟨fun _ => ⟨1, 0x80000000⟩, by decide, ?_, ?_, ?_⟩
  · rw [divMod_iff (by decide)]
    decide
  · rw [shiftsRight_iff]
    decide
  · rw [shiftDivides_iff]
    decide

end LeipoCode.S64
