import Mathlib.Data.Int.Notation
import Mathlib.Data.Nat.Digits.Defs
import Mathlib.Tactic.Common

/-!
# The time of compilation, from `example/example_Time.c`

The macros `YEAR` to `SECOND` read numbers off `__DATE__` and `__TIME__`, which the compiler
writes in the formats of the C standard (`dateText`, `timeText`).  `MONTH` is a chain of
tests of single characters: the test for June repeats the one for January and is never
reached, so that June is decoded as January (`decodedMonth`) and everything else as it is
(`decode_eq`).

The instants are those of the calendar in years of four digits, with leap years and leap seconds.
The formats are the standard's: three letters for a month, a day with a blank in front when it has
one digit, and two digits each for hour, minute and second.  That January and June are told apart by
nothing is a statement about pairs of instants, and the other half, about one instant at a time, is
what inverting the formats means.

### How it goes

Each macro is a sum of digits, and a digit of a text is the last digit of a quotient, so `YEAR` to
`SECOND` are the numbers they are written from (`digit_pair`, and its kin).  `MONTH` is computed for
each of the twelve names (`MONTH_dateText`).  What is decoded is then the instant with another month
at most, and the two questions, whether an instant comes back and whether two are told apart, are
questions about `decodedMonth`.
-/

namespace LeipoCode.Time

/-- `__DATE__` and `__TIME__`, without their terminators: they have a fixed length, so no letter the
macros ask for is missing. -/
abbrev DateText := Vector Char 11
abbrev TimeText := Vector Char 8

/-! ### The macros -/

/-- `c - '0'`, an `int` whatever the character is; a blank would give a negative one. -/
def digit (c : Char) : ℤ := (c.toNat : ℤ) - ('0'.toNat : ℤ)

section Macros

variable (DATE : DateText) (TIME : TimeText)

/-- `YEAR`, of the four digits at the end of `__DATE__`. -/
def YEAR : ℤ :=
  ((digit (DATE.get 7) * 10 + digit (DATE.get 8)) * 10 + digit (DATE.get 9)) * 10 +
    digit (DATE.get 10)

/-- `MONTH`: tests of the third letter of `__DATE__`, and of the first one to tell March from April;
the first test that holds decides. -/
def MONTH : ℤ :=
  if DATE.get 2 = 'n' then 1
  else if DATE.get 2 = 'b' then 2
  else if DATE.get 2 = 'r' then (if DATE.get 0 = 'M' then 3 else 4)
  else if DATE.get 2 = 'y' then 5
  else if DATE.get 2 = 'n' then 6
  else if DATE.get 2 = 'l' then 7
  else if DATE.get 2 = 'g' then 8
  else if DATE.get 2 = 'p' then 9
  else if DATE.get 2 = 't' then 10
  else if DATE.get 2 = 'v' then 11
  else 12

/-- `DAY`: the first digit is a blank in the days before the tenth, which stands for zero. -/
def DAY : ℤ := (if DATE.get 4 = ' ' then 0 else digit (DATE.get 4)) * 10 + digit (DATE.get 5)

/-- `HOUR`, of the first two digits of `__TIME__`. -/
def HOUR : ℤ := digit (TIME.get 0) * 10 + digit (TIME.get 1)

/-- `MIN`, of the two digits behind the first colon of `__TIME__`. -/
def MIN : ℤ := digit (TIME.get 3) * 10 + digit (TIME.get 4)

/-- `SECOND`, of the last two digits of `__TIME__`. -/
def SECOND : ℤ := digit (TIME.get 6) * 10 + digit (TIME.get 7)

/-- The numbers that `example_Time` prints, in the order in which it prints them. -/
def decode : ℤ × ℤ × ℤ × ℤ × ℤ × ℤ :=
  (YEAR DATE, MONTH DATE, DAY DATE, HOUR TIME, MIN TIME, SECOND TIME)

end Macros

/-! ### The formats -/

/-- The months, in order.  The compiler writes each as three letters. -/
inductive Month
  | jan | feb | mar | apr | may | jun | jul | aug | sep | oct | nov | dec
deriving DecidableEq, Repr

namespace Month

/-- The number of a month, counted from one, which is what the macro `MONTH` is to give back. -/
def number : Month → ℕ
  | jan => 1 | feb => 2 | mar => 3 | apr => 4 | may => 5 | jun => 6
  | jul => 7 | aug => 8 | sep => 9 | oct => 10 | nov => 11 | dec => 12

/-- The abbreviation of its name, the three letters that `__DATE__` begins with. -/
def name : Month → Char × Char × Char
  | jan => ('J', 'a', 'n') | feb => ('F', 'e', 'b') | mar => ('M', 'a', 'r')
  | apr => ('A', 'p', 'r') | may => ('M', 'a', 'y') | jun => ('J', 'u', 'n')
  | jul => ('J', 'u', 'l') | aug => ('A', 'u', 'g') | sep => ('S', 'e', 'p')
  | oct => ('O', 'c', 't') | nov => ('N', 'o', 'v') | dec => ('D', 'e', 'c')

/-- The number of its days, of which February has one more in a leap year. -/
def days (year : ℕ) : Month → ℕ
  | feb => if 4 ∣ year ∧ (¬ 100 ∣ year ∨ 400 ∣ year) then 29 else 28
  | apr | jun | sep | nov => 30
  | _ => 31

theorem days_le (year : ℕ) (m : Month) : m.days year ≤ 31 := by
  cases m <;> simp only [days] <;> try split_ifs
  all_goals decide

end Month

/-- A date of the calendar and a time of day, in a year of four digits; a minute may have a
leap second. -/
@[ext]
structure Instant where
  year : ℕ
  month : Month
  day : ℕ
  hour : ℕ
  min : ℕ
  sec : ℕ
  year_lt : year < 10000
  day_pos : 1 ≤ day
  day_le : day ≤ month.days year
  hour_lt : hour < 24
  min_lt : min < 60
  sec_le : sec ≤ 60

/-- The last decimal digit of a number, as a character: each digit of a text is the last one of some
quotient. -/
def lastDigit (n : ℕ) : Char := Nat.digitChar (n % 10)

/-- A number of two digits, the first one of which is a blank instead of zero. -/
def padded (n : ℕ) : Char := if n < 10 then ' ' else lastDigit (n / 10)

namespace Instant

variable (t : Instant)

/-- `__DATE__`, "Mmm dd yyyy": the day with a blank in front if it is less than ten, the year with
zeros. -/
def dateText : DateText :=
  #v[t.month.name.1, t.month.name.2.1, t.month.name.2.2, ' ', padded t.day, lastDigit t.day, ' ',
    lastDigit (t.year / 1000), lastDigit (t.year / 100), lastDigit (t.year / 10),
    lastDigit t.year]

/-- `__TIME__`, "hh:mm:ss", of two digits each, with zeros in front. -/
def timeText : TimeText :=
  #v[lastDigit (t.hour / 10), lastDigit t.hour, ':', lastDigit (t.min / 10), lastDigit t.min, ':',
    lastDigit (t.sec / 10), lastDigit t.sec]

/-- The numbers of an instant, in the order of `decode`: what the macros have to give back. -/
def numbers : ℤ × ℤ × ℤ × ℤ × ℤ × ℤ :=
  (t.year, t.month.number, t.day, t.hour, t.min, t.sec)

end Instant

/-! ### What the macros decode -/

theorem digit_digitChar : ∀ d < 10, digit (Nat.digitChar d) = d := by
  decide

theorem digit_lastDigit (n : ℕ) : digit (lastDigit n) = (n % 10 : ℕ) :=
  digit_digitChar _ (Nat.mod_lt n (by decide))

/-- Two digits of a number below a hundred, read as the macros do, are the number. -/
theorem digit_pair {n : ℕ} (hn : n < 100) :
    digit (lastDigit (n / 10)) * 10 + digit (lastDigit n) = n := by
  rw [digit_lastDigit, digit_lastDigit]
  omega

theorem lastDigit_ne_blank (n : ℕ) : lastDigit n ≠ ' ' := by
  have hdigits : ∀ d < 10, Nat.digitChar d ≠ ' ' := by decide
  exact hdigits _ (Nat.mod_lt n (by decide))

/-- The month that is decoded: June is taken for January, as both have an `n` for the third letter
and the test for January comes first. -/
def decodedMonth : Month → Month
  | .jun => .jan
  | m => m

theorem decodedMonth_eq_self_iff (m : Month) : decodedMonth m = m ↔ m ≠ .jun := by
  cases m <;> decide

/-- Two months are decoded as one only if they are one, or January and June. -/
theorem decodedMonth_eq_iff (m m' : Month) :
    decodedMonth m = decodedMonth m' ↔
      m = m' ∨ (m = .jan ∧ m' = .jun) ∨ (m = .jun ∧ m' = .jan) := by
  cases m <;> cases m' <;> decide

theorem Month.number_injective : Function.Injective Month.number := by
  intro m m' h
  cases m <;> cases m' <;> first | rfl | exact absurd h (by decide)

section Decode

variable (t t' : Instant)

theorem YEAR_dateText : YEAR t.dateText = t.year := by
  change ((digit (lastDigit (t.year / 1000)) * 10 + digit (lastDigit (t.year / 100))) * 10 +
    digit (lastDigit (t.year / 10))) * 10 + digit (lastDigit t.year) = t.year
  have hyear := t.year_lt
  rw [digit_lastDigit, digit_lastDigit, digit_lastDigit, digit_lastDigit]
  omega

/-- The chain of tests comes to `decodedMonth`, for each of the twelve names. -/
theorem MONTH_dateText : MONTH t.dateText = (decodedMonth t.month).number := by
  have hfirst : t.dateText.get 0 = t.month.name.1 := rfl
  have hthird : t.dateText.get 2 = t.month.name.2.2 := rfl
  unfold MONTH
  rw [hfirst, hthird]
  cases t.month <;> decide

theorem DAY_dateText : DAY t.dateText = t.day := by
  change (if padded t.day = ' ' then 0 else digit (padded t.day)) * 10 +
    digit (lastDigit t.day) = t.day
  have hday : t.day < 100 := by
    have hle := t.day_le
    have hdays := t.month.days_le t.year
    omega
  unfold padded
  by_cases hten : t.day < 10
  · rw [if_pos hten, if_pos rfl, digit_lastDigit]
    omega
  · rw [if_neg hten, if_neg (lastDigit_ne_blank _)]
    exact digit_pair hday

/-- **What is decoded** is the instant, with its month as `decodedMonth` has it. -/
theorem decode_eq : decode t.dateText t.timeText =
    ((t.year : ℤ), ((decodedMonth t.month).number : ℤ), (t.day : ℤ), (t.hour : ℤ), (t.min : ℤ),
      (t.sec : ℤ)) := by
  have hhour : HOUR t.timeText = t.hour := digit_pair (by have := t.hour_lt; omega)
  have hmin : MIN t.timeText = t.min := digit_pair (by have := t.min_lt; omega)
  have hsec : SECOND t.timeText = t.sec := digit_pair (by have := t.sec_le; omega)
  rw [decode, YEAR_dateText, MONTH_dateText, DAY_dateText, hhour, hmin, hsec]

/-- The decoder inverts the compiler's formats at `t`: it prints the numbers of the instant. -/
def Inverted : Prop := decode t.dateText t.timeText = t.numbers

/-- The decoder tells two instants apart, if they are two: it does not print the same numbers for
both. -/
def ToldApart : Prop := t ≠ t' → decode t.dateText t.timeText ≠ decode t'.dateText t'.timeText

/-- Two instants that are the same but for their months, which are January and June. -/
structure JanuaryJune : Prop where
  months : (t.month = .jan ∧ t'.month = .jun) ∨ (t.month = .jun ∧ t'.month = .jan)
  year : t.year = t'.year
  day : t.day = t'.day
  hour : t.hour = t'.hour
  min : t.min = t'.min
  sec : t.sec = t'.sec

variable {t t'}

theorem inverted_iff : Inverted t ↔ t.month ≠ .jun := by
  rw [Inverted, decode_eq, Instant.numbers, ← decodedMonth_eq_self_iff]
  simp only [Prod.mk.injEq, true_and, and_true, Int.natCast_inj, Month.number_injective.eq_iff]

theorem JanuaryJune.ne (h : JanuaryJune t t') : t ≠ t' := by
  rintro rfl
  rcases h.months with ⟨hjan, hjun⟩ | ⟨hjun, hjan⟩
  · rw [hjan] at hjun
    cases hjun
  · rw [hjan] at hjun
    cases hjun

theorem decode_eq_iff (hne : t ≠ t') :
    decode t.dateText t.timeText = decode t'.dateText t'.timeText ↔ JanuaryJune t t' := by
  rw [decode_eq, decode_eq]
  simp only [Prod.mk.injEq, Int.natCast_inj, Month.number_injective.eq_iff, decodedMonth_eq_iff]
  constructor
  · rintro ⟨hyear, hmonths, hday, hhour, hmin, hsec⟩
    rcases hmonths with hmonth | hmonths
    · exact absurd (Instant.ext hyear hmonth hday hhour hmin hsec) hne
    · exact ⟨hmonths, hyear, hday, hhour, hmin, hsec⟩
  · intro h
    exact ⟨h.year, .inr h.months, h.day, h.hour, h.min, h.sec⟩

theorem toldApart_iff : ToldApart t t' ↔ ¬ JanuaryJune t t' := by
  constructor
  · intro h hsame
    exact h hsame.ne ((decode_eq_iff hsame.ne).mpr hsame)
  · intro h hne heq
    exact h ((decode_eq_iff hne).mp heq)

end Decode

/-- **The decoder of the time of compilation**, for every instant: it inverts the compiler's
formats in every month but June, and tells any two instants apart that are not one in
January and one in June. -/
theorem build_date_inverted_iff (t t' : Instant) :
    (Inverted t ↔ t.month ≠ .jun) ∧ (ToldApart t t' ↔ ¬ JanuaryJune t t') :=
  ⟨inverted_iff, toldApart_iff⟩

/-- The first of June and the first of January are both decoded as the first of January. -/
theorem june_decodes_as_january : ∃ t t' : Instant,
    t.numbers = (2010, 6, 1, 12, 0, 0) ∧ t'.numbers = (2010, 1, 1, 12, 0, 0) ∧
      ¬ Inverted t ∧ ¬ ToldApart t t' := by
  refine ⟨⟨2010, .jun, 1, 12, 0, 0, by decide, by decide, by decide, by decide, by decide,
    by decide⟩, ⟨2010, .jan, 1, 12, 0, 0, by decide, by decide, by decide, by decide, by decide,
    by decide⟩, rfl, rfl, ?_, ?_⟩
  · rw [inverted_iff]
    intro h
    exact h rfl
  · rw [toldApart_iff]
    intro h
    exact h ⟨.inr ⟨rfl, rfl⟩, rfl, rfl, rfl, rfl, rfl⟩

end LeipoCode.Time
