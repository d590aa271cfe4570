import LeipoCode.Lib.ShellInt
import LeipoCode.Lib.WhileLoop
import Mathlib.Data.List.Nodup

/-!
# `script/remove_log.sh`

The loop keeps its counter as a numeral, `$START`, which `[ -le ]` takes for decimal, and
`printf` and `(( ))` for octal if it starts with a zero.  Only the numeral that was given can
start with one: after the first increment the counter is as bash writes numbers, and all
three read it alike (`ends_dec`).  So everything depends on the first pass (`pass_numeral`),
and on the counter not running past the largest number there is.

The arguments are those that `help_menu` asks for, numerals of three digits or more (`Numeral`), in
order.  A loop that does not end and a file that is removed and should not be are both failures of
the script, and `remove_log_iff` has one condition for both of them, on the two arguments: the
largest number must not be reached, and `START` must be one that is the same in decimal and in
octal.

### Both directions

If the condition holds, the first pass removes the file of `START` and leaves the next number as
bash writes it, and the others follow by induction on how many are left (`ends_dec`); the test fails
as soon as the number is beyond `END`.

If it does not hold, the script goes wrong in one of two ways, and a loop that ends as requested
would have had to make its first pass as requested (`first_pass_of_ends`).  A `START` with a zero in
front that is eight or more is less when it is read as octal, or is cut short at a digit that is not
octal (`ofDigitChars_eight_lt_of_le`), so a file with another number is removed.  And if `END` is
the largest number there is, the counter gets there and wraps around to the smallest, so the test
never fails (`not_ends_dec`).
-/

namespace LeipoCode.Script

open Printf ShellInt WhileLoop

/-! ### The script -/

/-- `log-%03d`: at least three digits, with zeros in front, and more if the number has more. -/
def logName (n : ℤ) : List Char := "log-".toList ++ decZero 3 n

/-- A pass of the loop, unless its test fails: the file `rm` is called for, and `$START`
after the increment. -/
def removePass (END START : List Char) : Option (List Char × List Char) :=
  if testLe START END = true then
    some (logName (printfNumber START), assign START (arithAdd START 1))
  else none

/-- An argument as `help_menu` asks for it: three digits, or more where three are not enough. -/
structure Numeral where
  text : List Char
  isDigit : ∀ c ∈ text, c.isDigit = true
  three_le : 3 ≤ text.length

/-- The decimal number, which is what an argument stands for to who gives it, with zeros in front or
without. -/
def Numeral.value (x : Numeral) : ℕ := Nat.ofDigitChars 10 x.text 0

/-- The files for the numbers from `first` on, in order: the ones that the script is asked to
remove. -/
def logNames (first count : ℕ) : List (List Char) :=
  (List.range' first count).map fun n : ℕ => logName n

/-- The script ends and has removed the files for the numbers from `START` to `END`, each of
them once, and no others. -/
structure RemovesRequested (START END : Numeral) : Prop where
  removes : Ends (removePass END.text) START.text
    (logNames START.value (END.value + 1 - START.value))
  once : (logNames START.value (END.value + 1 - START.value)).Nodup

/-! ### The names -/

theorem logName_inj {n m : ℕ} (h : logName n = logName m) : n = m := by
  have hvalue (k : ℕ) : Nat.ofDigitChars 10 (decZero 3 k) 0 = k := by
    have hneg : ¬ (k : ℤ) < 0 := by omega
    simp [decZero, hneg, Nat.ofDigitChars_append, Nat.ofDigitChars_replicate_zero,
      Nat.ofDigitChars_ten_toDigits]
  rw [← hvalue n, ← hvalue m, List.append_cancel_left h]

theorem nodup_logNames (first count : ℕ) : (logNames first count).Nodup :=
  List.Nodup.map (fun _ _ => logName_inj) (List.nodup_range' (h := by decide))

/-! ### Digits in two bases -/

section Bases

variable {ds : List Char} {a c : ℕ}

/-- Further digits never make a number smaller, in base ten. -/
theorem le_ofDigitChars_ten (ds : List Char) (c : ℕ) : c ≤ Nat.ofDigitChars 10 ds c := by
  induction ds generalizing c with
  | nil => exact le_rfl
  | cons d ds ih =>
      rw [Nat.ofDigitChars_cons]
      exact le_trans (by omega) (ih _)

/-- If the octal number is behind already, it stays behind: further digits make the decimal one grow
faster. -/
theorem ofDigitChars_eight_lt (h : a < c) :
    Nat.ofDigitChars 8 (ds.takeWhile (isDigitOf 8)) a < Nat.ofDigitChars 10 ds c := by
  induction ds generalizing a c with
  | nil => exact h
  | cons d ds ih =>
      by_cases hd : isDigitOf 8 d = true
      · rw [List.takeWhile_cons_of_pos hd, Nat.ofDigitChars_cons, Nat.ofDigitChars_cons]
        exact ih (by omega)
      · rw [List.takeWhile_cons_of_neg hd]
        exact lt_of_lt_of_le h (le_ofDigitChars_ten _ c)

/-- **Read as octal, a number from eight on is less**, or is cut short at a digit that is not octal.
-/
theorem ofDigitChars_eight_lt_of_le (ha : a < 8) (h : 8 ≤ Nat.ofDigitChars 10 ds a) :
    Nat.ofDigitChars 8 (ds.takeWhile (isDigitOf 8)) a < Nat.ofDigitChars 10 ds a := by
  induction ds generalizing a with
  | nil => exact absurd h (Nat.not_le.mpr ha)
  | cons d ds ih =>
      by_cases hd : isDigitOf 8 d = true
      · rw [List.takeWhile_cons_of_pos hd, Nat.ofDigitChars_cons, Nat.ofDigitChars_cons]
        rw [Nat.ofDigitChars_cons] at h
        have hlt : d.toNat - '0'.toNat < 8 := by
          simp only [isDigitOf, Bool.and_eq_true, decide_eq_true_eq] at hd
          exact hd.2
        rcases Nat.eq_zero_or_pos a with rfl | hpos
        · exact ih (by omega) h
        · exact ofDigitChars_eight_lt (by omega)
      · rw [List.takeWhile_cons_of_neg hd]
        exact lt_of_lt_of_le ha h

/-- **Below eight the bases agree**: all digits are octal, and the number is the same. -/
theorem ofDigitChars_eight_eq (hds : ∀ d ∈ ds, d.isDigit = true)
    (h : Nat.ofDigitChars 10 ds a < 8) :
    (∀ d ∈ ds, isDigitOf 8 d = true) ∧ Nat.ofDigitChars 8 ds a = Nat.ofDigitChars 10 ds a := by
  induction ds generalizing a with
  | nil => exact ⟨nofun, rfl⟩
  | cons d ds ih =>
      obtain ⟨hd, hds⟩ := List.forall_mem_cons.mp hds
      rw [Nat.ofDigitChars_cons] at h
      have hle := le_ofDigitChars_ten ds (10 * a + (d.toNat - '0'.toNat))
      obtain rfl : a = 0 := by omega
      obtain ⟨hall, heq⟩ := ih hds h
      refine ⟨List.forall_mem_cons.mpr ⟨?_, hall⟩, ?_⟩
      · simp only [isDigitOf, hd, Bool.true_and, decide_eq_true_eq]
        omega
      · rw [Nat.ofDigitChars_cons, Nat.ofDigitChars_cons]
        exact heq

end Bases

/-! ### The arguments -/

namespace Numeral

variable (x : Numeral)

theorem text_ne_nil : x.text ≠ [] := by
  intro h
  have hlen := x.three_le
  rw [h] at hlen
  exact absurd hlen (by decide)

theorem negative_text : negative x.text = false := by
  unfold negative
  rw [beq_eq_false_iff_ne]
  intro h
  exact absurd (x.isDigit _ (List.mem_of_mem_head? h)) (by decide)

theorem digits_text : digits x.text = x.text := by
  rw [digits, x.negative_text]
  rfl

theorem signed_text (n : ℕ) : signed x.text n = n := by
  rw [signed, x.negative_text]
  rfl

/-- An argument is decimal to `[ -le ]`, if it is in the range. -/
theorem testNumber_text :
    testNumber x.text = if x.value < 2 ^ 63 then some (x.value : ℤ) else none := by
  have hrange : IsIntmax (x.value : ℤ) ↔ x.value < 2 ^ 63 := by
    unfold IsIntmax
    omega
  unfold testNumber
  dsimp only
  rw [digits_text, signed_text]
  simp only [ne_eq, x.text_ne_nil, not_false_eq_true, List.all_eq_true.mpr x.isDigit, true_and]
  exact if_congr hrange rfl rfl

/-- An argument that does not start with a zero is read in base ten, and no part of it is left out.
-/
theorem takeWhile_of_head (h : x.text.head? ≠ some '0') :
    base x.text = 10 ∧ ∀ c ∈ x.text, isDigitOf 10 c = true := by
  refine ⟨if_neg h, fun c hc => ?_⟩
  have hdigit := x.isDigit c hc
  have hle := (Char.isDigit_iff_toNat.mp hdigit).2
  have hnine : '9'.toNat = 57 := rfl
  have hzero : '0'.toNat = 48 := rfl
  simp only [isDigitOf, hdigit, Bool.true_and, decide_eq_true_eq]
  omega

/-- The three readings of an argument are one: it does not start with a zero, or is below eight. -/
def Agrees : Prop := x.text.head? ≠ some '0' ∨ x.value < 8

/-- An argument in the range that agrees is its decimal number to `printf` and `(( ))` too. -/
theorem Agrees.reads (h : x.Agrees) (hrange : x.value < 2 ^ 63) :
    printfNumber x.text = x.value ∧ arithOperand x.text = some (x.value : ℤ) := by
  have hread : (∀ c ∈ x.text, isDigitOf (base x.text) c = true) ∧
      Nat.ofDigitChars (base x.text) x.text 0 = x.value := by
    by_cases hhead : x.text.head? = some '0'
    · have hbase : base x.text = 8 := if_pos hhead
      rw [hbase]
      exact ofDigitChars_eight_eq x.isDigit (h.resolve_left (not_not_intro hhead))
    · obtain ⟨hbase, hall⟩ := x.takeWhile_of_head hhead
      rw [hbase]
      exact ⟨hall, rfl⟩
  have hintmax : IsIntmax (x.value : ℤ) := by
    unfold IsIntmax
    omega
  obtain ⟨hall, hvalue⟩ := hread
  constructor
  · unfold printfNumber
    dsimp only
    rw [x.digits_text, List.takeWhile_eq_self_iff.mpr hall, hvalue, x.signed_text]
    omega
  · unfold arithOperand
    dsimp only
    rw [x.digits_text, if_pos ⟨x.text_ne_nil, List.all_eq_true.mpr hall⟩, hvalue,
      x.negative_text, toIntmax_eq hintmax]
    rfl

theorem printfNumber_nonneg : 0 ≤ printfNumber x.text := by
  unfold printfNumber
  dsimp only
  rw [x.digits_text, x.signed_text]
  omega

/-- Only an argument that agrees is its decimal number to `printf`; any other is less, or was cut
short. -/
theorem agrees_of_printfNumber (h : printfNumber x.text = x.value) : x.Agrees := by
  by_contra hnot
  obtain ⟨hhead, hlarge⟩ := not_or.mp hnot
  have hbase : base x.text = 8 := if_pos (not_not.mp hhead)
  have hlt := ofDigitChars_eight_lt_of_le (a := 0) (by decide) (Nat.not_lt.mp hlarge)
  unfold printfNumber at h
  dsimp only at h
  rw [x.digits_text, hbase, x.signed_text] at h
  unfold value at h
  omega

end Numeral

/-! ### The loop -/

section Loop

variable {START END : Numeral} {n count : ℕ}

/-- A counter that bash wrote is decimal to the test as well, and is compared with `END` if that is
in the range. -/
theorem testLe_dec_text {i : ℤ} (hi : IsIntmax i) :
    testLe (dec i) END.text = decide (END.value < 2 ^ 63 ∧ i ≤ END.value) := by
  rw [testLe, testNumber_dec hi, END.testNumber_text]
  split_ifs with hend
  · exact decide_eq_decide.mpr ⟨fun h => ⟨hend, h⟩, fun h => h.2⟩
  · exact (decide_eq_false fun h => hend h.1).symm

/-- A pass with a counter that bash wrote removes the file of that number, and counts on. -/
theorem removePass_dec {i : ℤ} (hi : IsIntmax i) (hend : END.value < 2 ^ 63)
    (hle : i ≤ END.value) :
    removePass END.text (dec i) = some (logName i, dec (toIntmax (i + 1))) := by
  have htest : testLe (dec i) END.text = true := by
    rw [testLe_dec_text hi]
    exact decide_eq_true ⟨hend, hle⟩
  rw [removePass, if_pos htest, printfNumber_dec hi, arithAdd, arithOperand_dec hi]
  rfl

/-- The first pass, with an argument that the three readings agree on, removes the file of its
number, and counts on. -/
theorem removePass_text (hagrees : START.Agrees) (hle : START.value ≤ END.value)
    (hend : END.value < 2 ^ 63) :
    removePass END.text START.text =
      some (logName START.value, dec (toIntmax (START.value + 1))) := by
  obtain ⟨hprintf, harith⟩ := hagrees.reads START (by omega)
  have htest : testLe START.text END.text = true := by
    rw [testLe, START.testNumber_text, END.testNumber_text, if_pos hend, if_pos (by omega)]
    simpa using hle
  rw [removePass, if_pos htest, hprintf, arithAdd, harith]
  rfl

theorem logNames_succ (first count : ℕ) :
    logNames first (count + 1) = logName first :: logNames (first + 1) count := by
  rw [logNames, List.range'_succ, List.map_cons, logNames]

/-- **The loop ends** if the counter can get past the last number, and has removed the files up to
there: by induction on how many are left. -/
theorem ends_dec (hend : END.value ≤ 2 ^ 63 - 2) (hn : n + count = END.value + 1) :
    Ends (removePass END.text) (dec n) (logNames n count) := by
  induction count generalizing n with
  | zero =>
      have hn' : IsIntmax (n : ℤ) := ⟨by omega, by omega⟩
      refine .stop ?_
      rw [removePass, testLe_dec_text hn', if_neg]
      simp only [decide_eq_true_eq]
      omega
  | succ count ih =>
      have hn' : IsIntmax (n : ℤ) := ⟨by omega, by omega⟩
      have hnext : toIntmax ((n : ℤ) + 1) = ((n + 1 : ℕ) : ℤ) :=
        toIntmax_eq ⟨by omega, by omega⟩
      rw [logNames_succ]
      refine .pass (removePass_dec hn' (by omega) (by omega)) ?_
      rw [hnext]
      exact ih (by omega)

/-- **The largest number is never got past**: the counter wraps around and the loop goes
on. -/
theorem not_ends_dec (hend : END.value = 2 ^ 63 - 1) (hn : n + count = END.value + 1) :
    ¬ Ends (removePass END.text) (dec (toIntmax n)) (logNames n count) := by
  induction count generalizing n with
  | zero =>
      have hwrapped : toIntmax (n : ℤ) = -2 ^ 63 := by
        obtain rfl : n = 2 ^ 63 := by omega
        decide
      rw [hwrapped]
      intro h
      exact h.ne_nil (removePass_dec (by decide) (by omega) (by omega)) rfl
  | succ count ih =>
      have hn' : IsIntmax (n : ℤ) := ⟨by omega, by omega⟩
      rw [toIntmax_eq hn', logNames_succ]
      intro h
      obtain ⟨os, hos, hrest⟩ := h.of_pass (removePass_dec hn' (by omega) (by omega))
      obtain ⟨-, rfl⟩ := List.cons.inj hos
      exact ih (n := n + 1) (by omega) hrest

/-- A loop that ends as requested has made its first pass as requested. -/
theorem first_pass_of_ends (h : Ends (removePass END.text) START.text
    (logName START.value :: logNames n count)) :
    END.value < 2 ^ 63 ∧ START.Agrees := by
  cases h with
  | pass hpass hrest =>
      unfold removePass at hpass
      split_ifs at hpass with htest
      · obtain ⟨hname, -⟩ := Prod.mk.inj (Option.some.inj hpass)
        obtain ⟨k, hk⟩ := Int.eq_ofNat_of_zero_le START.printfNumber_nonneg
        rw [hk] at hname
        rw [logName_inj hname] at hk
        refine ⟨?_, START.agrees_of_printfNumber hk⟩
        -- the test fails for an `END` that is out of the range
        by_contra hend
        rw [testLe, END.testNumber_text, if_neg hend] at htest
        simp at htest

end Loop

/-- **`remove_log.sh`** removes the requested files, for any arguments in order, exactly if
`END` is less than the largest number there is and `START` is the same read as decimal and as
octal: it does not start with a zero, or is less than eight. -/
theorem remove_log_iff (START END : Numeral) (hle : START.value ≤ END.value) :
    RemovesRequested START END ↔
      END.value ≤ 2 ^ 63 - 2 ∧ (START.text.head? ≠ some '0' ∨ START.value < 8) := by
  obtain ⟨count, hcount⟩ : ∃ count, END.value + 1 - START.value = count + 1 :=
    ⟨END.value - START.value, by omega⟩
  constructor
  · rintro ⟨hends, -⟩
    rw [hcount, logNames_succ] at hends
    obtain ⟨hend, hagrees⟩ := first_pass_of_ends hends
    obtain ⟨os, hos, hrest⟩ := hends.of_pass (removePass_text hagrees hle hend)
    obtain ⟨-, rfl⟩ := List.cons.inj hos
    refine ⟨?_, hagrees⟩
    by_contra hlarge
    exact not_ends_dec (n := START.value + 1) (by omega) (by omega) hrest
  · rintro ⟨hend, hagrees⟩
    refine ⟨?_, nodup_logNames _ _⟩
    have hnext : toIntmax ((START.value : ℤ) + 1) = ((START.value + 1 : ℕ) : ℤ) :=
      toIntmax_eq ⟨by omega, by omega⟩
    rw [hcount, logNames_succ]
    refine .pass (removePass_text hagrees hle (by omega)) ?_
    rw [hnext]
    exact ends_dec hend (by omega)

/-! ### Arguments with zeros -/

/-- The files from 007 to 012 are removed: 007 is the same number in both bases. -/
theorem remove_log_from_seven : ∃ START END : Numeral, START.text = "007".toList ∧
    END.text = "012".toList ∧ RemovesRequested START END := by
  refine ⟨⟨"007".toList, List.all_eq_true.mp (by decide), by decide⟩,
    ⟨"012".toList, List.all_eq_true.mp (by decide), by decide⟩, rfl, rfl, ?_⟩
  exact (remove_log_iff _ _ (by decide)).mpr ⟨by decide, .inr (by decide)⟩

/-- **From 008 to 009 the script never ends**: 008 is not an octal numeral, so it is never
incremented.  For 010 alone, which is octal for eight, it removes 008 and 009 as well. -/
theorem zero_eight_never_ends : ∃ START END ten : Numeral, START.text = "008".toList ∧
    END.text = "009".toList ∧ ten.text = "010".toList ∧
    ¬ RemovesRequested START END ∧ (∀ os, ¬ Ends (removePass END.text) START.text os) ∧
    ¬ RemovesRequested ten ten ∧
    Ends (removePass ten.text) ten.text [logName 8, logName 9, logName 10] := by
  have hfixed : removePass "009".toList "008".toList = some (logName 0, "008".toList) := by
    decide +kernel
  have height : removePass "010".toList "010".toList = some (logName 8, "9".toList) := by
    decide +kernel
  have hnine : removePass "010".toList "9".toList = some (logName 9, "10".toList) := by
    decide +kernel
  have hten : removePass "010".toList "10".toList = some (logName 10, "11".toList) := by
    decide +kernel
  have heleven : removePass "010".toList "11".toList = none := by
    decide +kernel
  refine ⟨⟨"008".toList, List.all_eq_true.mp (by decide), by decide⟩,
    ⟨"009".toList, List.all_eq_true.mp (by decide), by decide⟩,
    ⟨"010".toList, List.all_eq_true.mp (by decide), by decide⟩, rfl, rfl, rfl, ?_, ?_, ?_, ?_⟩
  · intro h
    exact not_ends_of_fixed hfixed h.removes
  · intro os
    exact not_ends_of_fixed hfixed
  · intro h
    obtain ⟨-, hagrees⟩ := @first_pass_of_ends _ _ 11 0 h.removes
    exact hagrees.elim (fun hhead => hhead rfl) (by decide)
  · exact .pass height (.pass hnine (.pass hten (.stop heleven)))

end LeipoCode.Script
