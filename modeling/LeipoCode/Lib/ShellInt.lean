import LeipoCode.Lib.Printf
import Mathlib.Data.Int.Notation
import Mathlib.Data.List.TakeWhile

/-!
# Integers in a shell

A shell keeps an integer as its numeral, and bash reads a numeral in three ways:

* `testNumber` — `[ ... ]` takes it for decimal whatever it starts with, and rejects one that
  is out of range;
* `printfNumber` — `%d` of `printf` takes it for octal if it starts with a zero, reads as far
  as the digits go, and stops at the end of the range;
* `arithOperand` — `let` and `(( ))` take it for octal likewise, reject a digit that is not
  octal, and wrap around.

A numeral is a string of decimal digits, perhaps with a minus before it.  On the numerals
that bash writes itself the three agree (`testNumber_dec` and its kin): `dec` never writes a
leading zero.

Each of the three returns nothing where the shell reports an error, and a value where it goes on;
that `printf` goes on with a value after it has reported an error is why it always has one.  The
integers are those of `intmax_t`, with 64 bits, and a numeral may be longer than they are.
-/

namespace LeipoCode.ShellInt

open Printf

/-- The range of `intmax_t`, which is what a shell computes in: that of 64 bits with a sign. -/
def IsIntmax (n : ℤ) : Prop := -2 ^ 63 ≤ n ∧ n < 2 ^ 63

instance (n : ℤ) : Decidable (IsIntmax n) := inferInstanceAs (Decidable (_ ∧ _))

/-- `intmax_t` arithmetic wraps around: the number in the range that is the same modulo `2 ^ 64`. -/
def toIntmax (n : ℤ) : ℤ := (BitVec.ofInt 64 n).toInt

/-! ### Numerals -/

/-- A numeral with a minus, which is its first character if it has one.  A plus is not taken for a
sign. -/
def negative (s : List Char) : Bool := s.head? == some '-'

/-- The digits of a numeral, which is what is left of it behind the minus; they are digits only if
the text is a numeral. -/
def digits (s : List Char) : List Char := if negative s then s.tail else s

/-- The base of these digits: a leading zero means octal, and a single zero is the same number in
either. -/
def base (ds : List Char) : ℕ := if ds.head? = some '0' then 8 else 10

/-- A digit of the base: a decimal digit that is less than it, so 8 and 9 are none in octal. -/
def isDigitOf (b : ℕ) (c : Char) : Bool := c.isDigit && decide (c.toNat - '0'.toNat < b)

/-- A magnitude with the sign of the numeral that it was read from. -/
def signed (s : List Char) (n : ℕ) : ℤ := if negative s then -n else n

/-- How `[ ... ]` reads a numeral: always as decimal.  A text that is no numeral, or one out of the
range, is an error. -/
def testNumber (s : List Char) : Option ℤ :=
  let n := signed s (Nat.ofDigitChars 10 (digits s) 0)
  if digits s ≠ [] ∧ (digits s).all Char.isDigit ∧ IsIntmax n then some n else none

/-- How `printf` reads a numeral for `%d`: in the base that it begins like, as far as the digits of
that base go, and stopped at the ends of the range. -/
def printfNumber (s : List Char) : ℤ :=
  let ds := digits s
  let n := signed s (Nat.ofDigitChars (base ds) (ds.takeWhile (isDigitOf (base ds))) 0)
  max (-2 ^ 63) (min n (2 ^ 63 - 1))

/-- How `let` and `(( ))` read a numeral: in the base that it begins like.  A digit that the base
does not have is an error, and a number out of the range wraps around. -/
def arithOperand (s : List Char) : Option ℤ :=
  let ds := digits s
  if ds ≠ [] ∧ ds.all (isDigitOf (base ds)) then
    let n := toIntmax (Nat.ofDigitChars (base ds) ds 0)
    some (if negative s then toIntmax (-n) else n)
  else none

/-! ### What a script does with numerals -/

/-- `[ s -le t ]`, false also if it fails: the status of an error is not zero, so a loop with this
test ends. -/
def testLe (s t : List Char) : Bool :=
  ((testNumber s).bind fun n => (testNumber t).map fun m => decide (n ≤ m)).getD false

/-- `[ s -ne t ]`, false also if it fails, as `testLe` is: an error takes the branch of a test that
does not hold. -/
def testNe (s t : List Char) : Bool :=
  ((testNumber s).bind fun n => (testNumber t).map fun m => decide (n ≠ m)).getD false

/-- The value of `s + n`, if it has one: none if `s` is no numeral for an expression, and wrapped
around otherwise. -/
def arithAdd (s : List Char) (n : ℤ) : Option ℤ := (arithOperand s).map fun a => toIntmax (a + n)

/-- The value of `s - t`, if it has one: both must be numerals for an expression, and the difference
wraps around. -/
def arithSub (s t : List Char) : Option ℤ :=
  (arithOperand s).bind fun a => (arithOperand t).map fun b => toIntmax (a - b)

/-- A variable after an assignment; an expression that is in error leaves it as it was. -/
def assign (old : List Char) (value : Option ℤ) : List Char := (value.map dec).getD old

/-! ### The range -/

section Range

variable {n : ℤ}

theorem toIntmax_eq (h : IsIntmax n) : toIntmax n = n :=
  BitVec.toInt_ofInt_eq_self (by decide) h.1 h.2

theorem isIntmax_toIntmax (n : ℤ) : IsIntmax (toIntmax n) :=
  ⟨BitVec.le_toInt (BitVec.ofInt 64 n), BitVec.toInt_lt⟩

/-- A number that wrapped around is negated as if it had not. -/
theorem toIntmax_neg (n : ℤ) : toIntmax (-(toIntmax n)) = toIntmax (-n) := by
  unfold toIntmax
  rw [BitVec.ofInt_neg, BitVec.ofInt_toInt, ← BitVec.ofInt_neg]

theorem toIntmax_eq_iff : toIntmax n = n ↔ IsIntmax n := by
  constructor
  · intro h
    rw [← h]
    exact isIntmax_toIntmax n
  · exact toIntmax_eq

end Range

/-! ### Decimal numerals without leading zeros -/

section Dec

variable {n m : ℤ} {k : ℕ}

/-- The digits of a positive number do not start with a zero, so no shell takes it for octal. -/
theorem head?_toDigits (hk : 0 < k) : (Nat.toDigits 10 k).head? ≠ some '0' := by
  induction k using Nat.strong_induction_on with
  | _ k ih =>
      rw [Nat.toDigits_eq_if (by decide)]
      split_ifs with hlt
      · have hdigit : ∀ d < 10, 0 < d → Nat.digitChar d ≠ '0' := by decide
        simpa using hdigit k hlt hk
      · rw [List.head?_append_of_ne_nil _ Nat.toDigits_ne_nil]
        exact ih _ (by omega) (by omega)

theorem isDigitOf_of_mem_toDigits {b : ℕ} {c : Char} (hb : 1 < b) (hb' : b ≤ 10)
    (hc : c ∈ Nat.toDigits b k) : isDigitOf b c = true := by
  induction k using Nat.strong_induction_on with
  | _ k ih =>
      have hdigit : ∀ d < 10, ∀ b ≤ 10, d < b → isDigitOf b (Nat.digitChar d) = true := by decide
      rw [Nat.toDigits_eq_if hb] at hc
      split_ifs at hc with hlt
      · rw [List.mem_singleton.mp hc]
        exact hdigit k (by omega) b hb' hlt
      · rcases List.mem_append.mp hc with hc | hc
        · exact ih _ (Nat.div_lt_self (by omega) hb) hc
        · have hmod : k % b < b := Nat.mod_lt k (by omega)
          rw [List.mem_singleton.mp hc]
          exact hdigit _ (by omega) b hb' hmod

theorem negative_dec (n : ℤ) : negative (dec n) = decide (n < 0) := by
  have hminus (ds : List Char) (hds : '-' ∉ ds) : ds.head? ≠ some '-' :=
    fun h => hds (List.mem_of_mem_head? h)
  have hdigits : '-' ∉ Nat.toDigits 10 n.natAbs :=
    fun h => absurd (mem_toDigits (by decide) (by decide) h) (by decide)
  unfold negative dec
  split_ifs with hneg
  · simp [hneg]
  · simp [hneg, hminus _ hdigits]

theorem digits_dec (n : ℤ) : digits (dec n) = Nat.toDigits 10 n.natAbs := by
  unfold digits
  rw [negative_dec]
  unfold dec
  by_cases hneg : n < 0
  · simp [hneg]
  · simp [hneg]

theorem signed_dec (n : ℤ) : signed (dec n) n.natAbs = n := by
  unfold signed
  rw [negative_dec]
  by_cases hneg : n < 0
  · simp only [hneg, decide_true, if_true]
    omega
  · simp only [hneg, decide_false, Bool.false_eq_true, if_false]
    omega

/-- In its own base a decimal numeral has its value, and no digit is left out. -/
theorem ofDigitChars_base (k : ℕ) :
    Nat.ofDigitChars (base (Nat.toDigits 10 k)) (Nat.toDigits 10 k) 0 = k ∧
      ∀ c ∈ Nat.toDigits 10 k, isDigitOf (base (Nat.toDigits 10 k)) c = true := by
  by_cases hk : k = 0
  · subst hk
    exact ⟨by decide, List.all_eq_true.mp (by decide)⟩
  · have hbase : base (Nat.toDigits 10 k) = 10 := if_neg (head?_toDigits (Nat.pos_of_ne_zero hk))
    rw [hbase]
    exact ⟨Nat.ofDigitChars_ten_toDigits,
      fun c hc => isDigitOf_of_mem_toDigits (by decide) (by decide) hc⟩

/-- A number that the shell has written is read back by `[ ... ]` as it was. -/
theorem testNumber_dec (h : IsIntmax n) : testNumber (dec n) = some n := by
  have hdigits : (Nat.toDigits 10 n.natAbs).all Char.isDigit = true :=
    List.all_eq_true.mpr fun c hc => Nat.isDigit_of_mem_toDigits (by decide) (by decide) hc
  unfold testNumber
  rw [digits_dec, Nat.ofDigitChars_ten_toDigits, signed_dec]
  exact if_pos ⟨Nat.toDigits_ne_nil, hdigits, h⟩

/-- A number that the shell has written is read back by `printf` as it was. -/
theorem printfNumber_dec (h : IsIntmax n) : printfNumber (dec n) = n := by
  obtain ⟨hvalue, hall⟩ := ofDigitChars_base n.natAbs
  unfold printfNumber
  dsimp only
  rw [digits_dec, List.takeWhile_eq_self_iff.mpr hall, hvalue, signed_dec]
  obtain ⟨hlow, hhigh⟩ := h
  omega

/-- A number that the shell has written is read back by `(( ))` as it was. -/
theorem arithOperand_dec (h : IsIntmax n) : arithOperand (dec n) = some n := by
  obtain ⟨hvalue, hall⟩ := ofDigitChars_base n.natAbs
  obtain ⟨hlow, hhigh⟩ := id h
  unfold arithOperand
  dsimp only
  rw [digits_dec, if_pos ⟨Nat.toDigits_ne_nil, List.all_eq_true.mpr hall⟩, hvalue, negative_dec]
  by_cases hneg : n < 0
  · -- the magnitude may be `2^63`, which wraps around once and is then negated
    have habs : (n.natAbs : ℤ) = -n := by omega
    simp only [hneg, decide_true, if_true, habs, toIntmax_neg, neg_neg, toIntmax_eq h]
  · have habs : (n.natAbs : ℤ) = n := by omega
    simp only [hneg, decide_false, Bool.false_eq_true, if_false, habs, toIntmax_eq h]

theorem testNe_dec (hn : IsIntmax n) (hm : IsIntmax m) :
    testNe (dec n) (dec m) = decide (n ≠ m) := by
  simp [testNe, testNumber_dec hn, testNumber_dec hm]

theorem arithSub_dec (hn : IsIntmax n) (hm : IsIntmax m) :
    arithSub (dec n) (dec m) = some (toIntmax (n - m)) := by
  simp [arithSub, arithOperand_dec hn, arithOperand_dec hm]

end Dec

end LeipoCode.ShellInt
