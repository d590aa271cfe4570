import Mathlib.Data.Int.ModEq
import Mathlib.Tactic.Ring
import Mathlib.Tactic.Linarith

/-!
# Numbers made of two words

A `2w`-bit number held as two `w`-bit words, for any width `w`: how the words are
taken out of the number and put back, and how comparison and subtraction are done
on the words.

* `toNat_append` — the number is `hi * 2^w + lo`;
* `toNat_append_lt` and its kin — comparison is lexicographic;
* `append_sub` — subtraction word by word, with a borrow, is subtraction modulo
  `2^(2w)`;
* `toNat_sdiv_of_msb` and its kin — what the signed division, remainder and right shift
  make of a number whose top bit is set.

The width is a parameter and not 32, so that none of the proofs is by cases on bits: each goes over
to numbers, where the two words are a quotient and a remainder, and is arithmetic there.  Words are
Lean's `BitVec`, and only what it has no lemma for is proved here.
-/

namespace LeipoCode.Words

variable {w : ℕ}

/-- The value of two words put together: the high one counts `2^w` times. -/
theorem toNat_append (hi lo : BitVec w) : (hi ++ lo).toNat = hi.toNat * 2 ^ w + lo.toNat := by
  rw [BitVec.toNat_append, ← Nat.shiftLeft_add_eq_or_of_lt lo.isLt, Nat.shiftLeft_eq]

/-! ### Taking the words out and putting them back -/

/-- Shift the high word up and put the low word under it. -/
theorem shiftLeft_or_eq_append (hi lo : BitVec w) :
    (hi.setWidth (w + w) <<< w) ||| lo.setWidth (w + w) = hi ++ lo := by
  ext i hi'
  simp only [BitVec.getElem_or, BitVec.getElem_append, BitVec.getElem_shiftLeft,
    BitVec.getElem_setWidth]
  by_cases hlo : i < w
  · simp [hlo]
  · have hhi : i - w < w := by omega
    have hnone : lo.getLsbD i = false := BitVec.getLsbD_of_ge lo i (by omega)
    simp [hlo, hnone, BitVec.getLsbD_eq_getElem hhi]

/-- The high word by an arithmetic shift, the low word by truncation. -/
theorem append_of_shift (x : BitVec (w + w)) :
    (x.sshiftRight w).setWidth w ++ x.setWidth w = x := by
  ext i hi
  simp only [BitVec.getElem_append, BitVec.getElem_setWidth, BitVec.getLsbD_sshiftRight]
  by_cases hlo : i < w
  · simp [hlo, BitVec.getLsbD_eq_getElem hi]
  · have hsum : w + (i - w) = i := by omega
    have hin : i - w < w + w := by omega
    simp [hlo, hsum, hi, hin]

/-! ### Comparison -/

section Compare

variable (hi lo hi' lo' : BitVec w)

theorem toNat_append_eq :
    (hi ++ lo).toNat = (hi' ++ lo').toNat ↔ hi = hi' ∧ lo = lo' := by
  constructor
  · intro h
    rw [toNat_append, toNat_append] at h
    have hlo := lo.isLt
    have hlo' := lo'.isLt
    have hhi : hi.toNat = hi'.toNat := by
      have hdiv := congrArg (· / 2 ^ w) h
      simpa [Nat.mul_comm _ (2 ^ w), Nat.mul_add_div (Nat.two_pow_pos w),
        Nat.div_eq_of_lt hlo, Nat.div_eq_of_lt hlo'] using hdiv
    rw [hhi] at h
    exact ⟨BitVec.eq_of_toNat_eq hhi, BitVec.eq_of_toNat_eq (Nat.add_left_cancel h)⟩
  · rintro ⟨rfl, rfl⟩
    rfl

/-- Numbers of two words compare by the high words, and by the low ones where these are equal. -/
theorem toNat_append_lt :
    (hi ++ lo).toNat < (hi' ++ lo').toNat ↔ hi < hi' ∨ (hi = hi' ∧ lo < lo') := by
  rw [toNat_append, toNat_append, BitVec.lt_def, BitVec.lt_def]
  have hlo := lo.isLt
  have hlo' := lo'.isLt
  rcases lt_trichotomy hi.toNat hi'.toNat with hlt | heq | hgt
  · have hstep : (hi.toNat + 1) * 2 ^ w ≤ hi'.toNat * 2 ^ w := Nat.mul_le_mul_right _ hlt
    rw [Nat.add_mul, Nat.one_mul] at hstep
    exact iff_of_true (by omega) (Or.inl hlt)
  · obtain rfl := BitVec.eq_of_toNat_eq heq
    simp
  · have hstep : (hi'.toNat + 1) * 2 ^ w ≤ hi.toNat * 2 ^ w := Nat.mul_le_mul_right _ hgt
    rw [Nat.add_mul, Nat.one_mul] at hstep
    apply iff_of_false (by omega)
    rintro (hlt | ⟨rfl, -⟩)
    · omega
    · omega

theorem toNat_append_le :
    (hi ++ lo).toNat ≤ (hi' ++ lo').toNat ↔ hi < hi' ∨ (hi = hi' ∧ lo ≤ lo') := by
  have hle : lo ≤ lo' ↔ lo < lo' ∨ lo = lo' := by
    rw [BitVec.le_def, BitVec.lt_def, Nat.le_iff_lt_or_eq, BitVec.toNat_eq]
  rw [Nat.le_iff_lt_or_eq, toNat_append_lt, toNat_append_eq, hle]
  tauto

end Compare

/-! ### Subtraction with a borrow -/

/-- A word subtraction is the exact difference plus `2^w` if it borrows. -/
theorem toNat_sub_borrow (a b : BitVec w) :
    ((a - b).toNat : ℤ) = a.toNat - b.toNat + if a < b then 2 ^ w else 0 := by
  have ha := a.isLt
  have hb := b.isLt
  have hpow : ((2 ^ w : ℕ) : ℤ) = 2 ^ w := by push_cast; rfl
  split_ifs with hlt
  · rw [BitVec.lt_def] at hlt
    rw [BitVec.toNat_sub_of_lt hlt]
    omega
  · rw [BitVec.lt_def, not_lt] at hlt
    rw [BitVec.toNat_sub_of_le (BitVec.le_def.mpr hlt)]
    omega

/-- A word subtraction is the difference modulo `2^w`. -/
theorem toNat_sub_modEq (a b : BitVec w) :
    ((a - b).toNat : ℤ) ≡ a.toNat - b.toNat [ZMOD 2 ^ w] := by
  rw [toNat_sub_borrow]
  split_ifs
  · exact Int.modEq_iff_dvd.mpr ⟨-1, by ring⟩
  · rw [add_zero]

/-- **Subtraction word by word**: the high words are subtracted with the borrow of
the low ones. -/
theorem append_sub (hi lo hi' lo' : BitVec w) :
    ((((hi - hi' - if lo < lo' then 1 else 0) ++ (lo - lo')).toNat : ℕ) : ℤ) =
      (((hi ++ lo).toNat : ℤ) - (hi' ++ lo').toNat) % 2 ^ (w + w) := by
  set borrow : BitVec w := if lo < lo' then 1 else 0 with hborrow
  have hone : (borrow.toNat : ℤ) ≡ (if lo < lo' then 1 else 0) [ZMOD 2 ^ w] := by
    rw [hborrow]
    split_ifs
    · change (((1#w).toNat : ℕ) : ℤ) ≡ 1 [ZMOD 2 ^ w]
      rw [BitVec.toNat_ofNat]
      push_cast
      exact Int.mod_modEq 1 _
    · simp
  have hhigh : ((hi - hi' - borrow).toNat : ℤ)
      ≡ hi.toNat - hi'.toNat - (if lo < lo' then 1 else 0) [ZMOD 2 ^ w] :=
    (toNat_sub_modEq _ _).trans ((toNat_sub_modEq hi hi').sub hone)
  have hlow := toNat_sub_borrow lo lo'
  -- a congruence of the high words, scaled, is one of the numbers
  have hscaled := (hhigh.mul_right' (c := 2 ^ w)).add_right ((lo - lo').toNat : ℤ)
  have hlt : (((hi - hi' - borrow) ++ (lo - lo')).toNat : ℤ) < 2 ^ (w + w) := by
    exact_mod_cast (((hi - hi' - borrow) ++ (lo - lo')).isLt)
  rw [← Int.emod_eq_of_lt (Int.natCast_nonneg _) hlt]
  have hexact : ((hi.toNat : ℤ) - hi'.toNat - (if lo < lo' then 1 else 0)) * 2 ^ w
      + (lo - lo').toNat = (hi ++ lo).toNat - (hi' ++ lo').toNat := by
    rw [hlow, toNat_append, toNat_append]
    push_cast
    split_ifs <;> ring
  rw [hexact, ← pow_add] at hscaled
  rw [toNat_append (hi - hi' - borrow)]
  push_cast
  exact hscaled

/-! ### Integers as words -/

theorem ofInt_sub (x y : ℤ) : BitVec.ofInt w (x - y) = BitVec.ofInt w x - BitVec.ofInt w y := by
  rw [Int.sub_eq_add_neg, BitVec.ofInt_add, BitVec.ofInt_neg, BitVec.sub_eq_add_neg]

/-! ### Signed operations on unsigned numbers -/

section Signed

variable {x y : BitVec w}

/-- Without top bits, signed division is unsigned division. -/
theorem toNat_sdiv_of_not_msb (hx : x.msb = false) (hy : y.msb = false) :
    (x.sdiv y).toNat = x.toNat / y.toNat := by
  rw [BitVec.sdiv_eq, hx, hy]
  exact BitVec.toNat_udiv

theorem toNat_srem_of_not_msb (hx : x.msb = false) (hy : y.msb = false) :
    (x.srem y).toNat = x.toNat % y.toNat := by
  rw [BitVec.srem_eq, hx, hy]
  exact BitVec.toNat_umod

theorem toNat_sshiftRight_of_not_msb (hx : x.msb = false) (s : ℕ) :
    (x.sshiftRight s).toNat = x.toNat / 2 ^ s := by
  rw [BitVec.sshiftRight_eq_of_msb_false hx, BitVec.toNat_ushiftRight, Nat.shiftRight_eq_div_pow]

/-- The negation of a number with its top bit set does not wrap. -/
theorem toNat_neg_of_msb (hx : x.msb = true) : (-x).toNat = 2 ^ w - x.toNat := by
  have hpos : 0 < x.toNat := by
    rw [BitVec.msb_eq_decide, decide_eq_true_eq] at hx
    exact lt_of_lt_of_le (Nat.two_pow_pos _) hx
  rw [BitVec.toNat_neg]
  exact Nat.mod_eq_of_lt (Nat.sub_lt (Nat.two_pow_pos w) hpos)

/-- With the top bit of the dividend set, the quotient is that of its distance to `2^w`,
negated. -/
theorem toNat_sdiv_of_msb (hx : x.msb = true) (hy : y.msb = false) :
    (x.sdiv y).toNat = (2 ^ w - (2 ^ w - x.toNat) / y.toNat) % 2 ^ w := by
  rw [BitVec.sdiv_eq, hx, hy, ← toNat_neg_of_msb hx, ← BitVec.toNat_udiv]
  exact BitVec.toNat_neg _

theorem toNat_srem_of_msb (hx : x.msb = true) (hy : y.msb = false) :
    (x.srem y).toNat = (2 ^ w - (2 ^ w - x.toNat) % y.toNat) % 2 ^ w := by
  rw [BitVec.srem_eq, hx, hy, ← toNat_neg_of_msb hx, ← BitVec.toNat_umod]
  exact BitVec.toNat_neg _

/-- With the top bit set, the shift is that of the complement, complemented. -/
theorem toNat_sshiftRight_of_msb (hx : x.msb = true) (s : ℕ) :
    (x.sshiftRight s).toNat = 2 ^ w - 1 - (2 ^ w - 1 - x.toNat) / 2 ^ s := by
  rw [BitVec.sshiftRight_eq_of_msb_true hx, BitVec.toNat_not, BitVec.toNat_ushiftRight,
    BitVec.toNat_not, Nat.shiftRight_eq_div_pow]

end Signed

end LeipoCode.Words
