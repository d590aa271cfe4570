import Mathlib.Data.List.Basic
import Mathlib.Data.Nat.Digits.Defs
import Mathlib.Data.Int.Notation
import Mathlib.Tactic.Common

/-!
# Conversions of `printf`

The texts `%d`, `%x` and a field width put into a line, and what can be read back from
them:

* `hex`, `dec` — the conversions, which are injective (`hex_inj`, `dec_inj`), and as long
  as the number is wide (`length_hex_le`, `length_dec_le`);
* `padLeft` — a field width, which can be taken off again (`padLeft_dec_inj`,
  `padLeft_hex_inj`);
* `append_sep_inj`, `flatten_inj_of_isLine` — a text is split at its separators, and read
  line by line;
* `notMem_hex`, `notMem_dec` — the characters that separate fields are not among those of
  a conversion.

That a conversion can be read back is what a program relies on that compares lines, or that parses
what another one has printed.  It is stated as injectivity, since the reader is not a function of
the source: two numbers with one text are one number, and two lists of lines with one text are one
list.
-/

namespace LeipoCode.Printf

/-- `%x` of an unsigned number: digits and lower-case letters, without leading zeros, and one zero
for the number 0. -/
def hex (n : ℕ) : List Char := Nat.toDigits 16 n

/-- `%d`: the decimal digits without leading zeros, and a minus before those of a negative number.
-/
def dec (n : ℤ) : List Char :=
  if n < 0 then '-' :: Nat.toDigits 10 n.natAbs else Nat.toDigits 10 n.natAbs

/-- A field width: blanks on the left up to the width.  A text that is longer is not cut. -/
def padLeft (width : ℕ) (s : List Char) : List Char :=
  List.replicate (width - s.length) ' ' ++ s

/-- `%0wd`: a field width filled with zeros, which stand behind the sign.  The sign counts for the
width. -/
def decZero (width : ℕ) (n : ℤ) : List Char :=
  let sign : List Char := if n < 0 then ['-'] else []
  let digits := Nat.toDigits 10 n.natAbs
  sign ++ List.replicate (width - sign.length - digits.length) '0' ++ digits

/-! ### The digits -/

section Digits

variable {b n m : ℕ}

/-- The digits of the bases up to 16.  No separator of a line is among them, nor the minus. -/
def digitChars : List Char := "0123456789abcdef".toList

theorem digitChar_inj : ∀ d < 16, ∀ e < 16, Nat.digitChar d = Nat.digitChar e → d = e := by
  decide

theorem digitChar_mem : ∀ d < 16, Nat.digitChar d ∈ digitChars := by
  decide

/-- **The digits determine the number**, in every base up to 16, where each digit has a character of
its own. -/
theorem toDigits_inj (hb : 1 < b) (hb' : b ≤ 16) (h : Nat.toDigits b n = Nat.toDigits b m) :
    n = m := by
  induction n using Nat.strong_induction_on generalizing m with
  | _ n ih =>
      rw [Nat.toDigits_eq_if hb, Nat.toDigits_eq_if (n := m) hb] at h
      split_ifs at h with hn hm hm
      · exact digitChar_inj n (by omega) m (by omega) (List.singleton_inj.mp h)
      · have hne := Nat.toDigits_ne_nil (n := m / b) (b := b)
        have hlen := congrArg List.length h
        simp [hne] at hlen
      · have hne := Nat.toDigits_ne_nil (n := n / b) (b := b)
        have hlen := congrArg List.length h
        simp [hne] at hlen
      · obtain ⟨hdiv, hmod⟩ := List.append_inj' h rfl
        have hrest : n / b = m / b := ih _ (Nat.div_lt_self (by omega) hb) hdiv
        have hn' : n % b < b := Nat.mod_lt n (by omega)
        have hm' : m % b < b := Nat.mod_lt m (by omega)
        have hlast : n % b = m % b :=
          digitChar_inj _ (by omega) _ (by omega) (List.singleton_inj.mp hmod)
        rw [← Nat.div_add_mod n b, ← Nat.div_add_mod m b, hrest, hlast]

theorem mem_toDigits (hb : 1 < b) (hb' : b ≤ 16) {c : Char} (hc : c ∈ Nat.toDigits b n) :
    c ∈ digitChars := by
  induction n using Nat.strong_induction_on with
  | _ n ih =>
      rw [Nat.toDigits_eq_if hb] at hc
      split_ifs at hc with hn
      · rw [List.mem_singleton.mp hc]
        exact digitChar_mem n (by omega)
      · rcases List.mem_append.mp hc with hc | hc
        · exact ih _ (Nat.div_lt_self (by omega) hb) hc
        · rw [List.mem_singleton.mp hc]
          exact digitChar_mem _ (lt_of_lt_of_le (Nat.mod_lt n (by omega)) hb')

end Digits

/-! ### `%x` and `%d` -/

section Conversions

variable {n m : ℕ} {i j : ℤ} {c : Char}

theorem hex_inj (h : hex n = hex m) : n = m :=
  toDigits_inj (by decide) (by decide) h

theorem notMem_hex (hc : c ∉ digitChars) : c ∉ hex n :=
  fun h => hc (mem_toDigits (by decide) (by decide) h)

theorem length_hex_le {k : ℕ} (hk : 0 < k) (hn : n < 16 ^ k) : (hex n).length ≤ k :=
  Nat.toDigits_length 16 n k hk hn

theorem notMem_dec (hc : c ∉ '-' :: digitChars) : c ∉ dec i := by
  obtain ⟨hminus, hc⟩ := List.ne_and_not_mem_of_not_mem_cons hc
  have hdigits : c ∉ Nat.toDigits 10 i.natAbs :=
    fun h => hc (mem_toDigits (by decide) (by decide) h)
  unfold dec
  split_ifs
  · exact List.not_mem_cons_of_ne_of_not_mem hminus hdigits
  · exact hdigits

theorem dec_inj (h : dec i = dec j) : i = j := by
  have hminus (k : ℕ) : '-' ∉ Nat.toDigits 10 k :=
    fun hmem => absurd (mem_toDigits (by decide) (by decide) hmem) (by decide)
  unfold dec at h
  split_ifs at h with hi hj hj
  · have habs : i.natAbs = j.natAbs :=
      toDigits_inj (by decide) (by decide) (List.cons.inj h).2
    omega
  · exact absurd (h ▸ List.mem_cons_self) (hminus _)
  · exact absurd (h ▸ List.mem_cons_self) (hminus _)
  · have habs : i.natAbs = j.natAbs := toDigits_inj (by decide) (by decide) h
    omega

theorem length_dec_le {k : ℕ} (hk : 0 < k) (hi : i.natAbs < 10 ^ k) :
    (dec i).length ≤ k + 1 := by
  have hlen := Nat.toDigits_length 10 i.natAbs k hk hi
  unfold dec
  split_ifs
  · rw [List.length_cons]
    omega
  · omega

end Conversions

/-! ### Field widths -/

section Width

variable {width : ℕ} {s t : List Char} {c : Char}

theorem notMem_padLeft (hc : c ∉ s) (hblank : c ≠ ' ') : c ∉ padLeft width s := by
  intro h
  rcases List.mem_append.mp h with h | h
  · exact hblank (List.eq_of_mem_replicate h)
  · exact hc h

theorem notMem_padLeft_dec {i : ℤ} (hc : c ∉ ' ' :: '-' :: digitChars) :
    c ∉ padLeft width (dec i) := by
  obtain ⟨hblank, hc⟩ := List.ne_and_not_mem_of_not_mem_cons hc
  exact notMem_padLeft (notMem_dec hc) hblank

theorem notMem_padLeft_hex {n : ℕ} (hc : c ∉ ' ' :: digitChars) : c ∉ padLeft width (hex n) := by
  obtain ⟨hblank, hc⟩ := List.ne_and_not_mem_of_not_mem_cons hc
  exact notMem_padLeft (notMem_hex hc) hblank

theorem length_padLeft_le {k : ℕ} (hs : s.length ≤ k) (hwidth : width ≤ k) :
    (padLeft width s).length ≤ k := by
  simp only [padLeft, List.length_append, List.length_replicate]
  omega

/-- A text that is not longer than the width is padded to just the width. -/
theorem length_padLeft (hs : s.length ≤ width) : (padLeft width s).length = width := by
  rw [padLeft, List.length_append, List.length_replicate, Nat.sub_add_cancel hs]

theorem length_decZero {n : ℕ} (hwidth : 0 < width) (hn : n < 10 ^ width) :
    (decZero width n).length = width := by
  have hlen := Nat.toDigits_length 10 n width hwidth hn
  have hsign : ¬ (n : ℤ) < 0 := by omega
  simp only [decZero, if_neg hsign, Int.natAbs_natCast, List.nil_append, List.length_append,
    List.length_replicate, List.length_nil]
  omega

/-- The blanks of the padding can be taken off again, if the text has none of its own. -/
theorem dropWhile_padLeft (width : ℕ) (hs : ' ' ∉ s) :
    (padLeft width s).dropWhile (· == ' ') = s := by
  rw [padLeft, List.dropWhile_append_of_pos (by simp)]
  cases s with
  | nil => rfl
  | cons c s =>
      have hc : c ≠ ' ' := fun h => hs (h ▸ List.mem_cons_self)
      simp [hc]

theorem padLeft_inj (hs : ' ' ∉ s) (ht : ' ' ∉ t) (h : padLeft width s = padLeft width t) :
    s = t := by
  rw [← dropWhile_padLeft width hs, h, dropWhile_padLeft width ht]

theorem padLeft_dec_inj {i j : ℤ} (h : padLeft width (dec i) = padLeft width (dec j)) : i = j :=
  dec_inj (padLeft_inj (notMem_dec (by decide)) (notMem_dec (by decide)) h)

theorem padLeft_hex_inj {n m : ℕ} (h : padLeft width (hex n) = padLeft width (hex m)) : n = m :=
  hex_inj (padLeft_inj (notMem_hex (by decide)) (notMem_hex (by decide)) h)

end Width

/-! ### Separators and lines -/

/-- What stands before a separator can be read off, if the separator does not occur in it. -/
theorem takeWhile_append_sep {c : Char} {a : List Char} (ha : c ∉ a) (x : List Char) :
    (a ++ c :: x).takeWhile (· != c) = a := by
  have hne : ∀ d ∈ a, (d != c) = true := by
    intro d hd
    simpa using fun h : d = c => ha (h ▸ hd)
  rw [List.takeWhile_append_of_pos hne]
  simp

/-- **A separator splits a text** if it does not occur before it. -/
theorem append_sep_inj {c : Char} {a b x y : List Char} (ha : c ∉ a) (hb : c ∉ b)
    (h : a ++ c :: x = b ++ c :: y) : a = b ∧ x = y := by
  have hab : a = b := by rw [← takeWhile_append_sep ha x, h, takeWhile_append_sep hb y]
  subst hab
  exact ⟨rfl, by simpa using h⟩

/-- The separator may have the same blanks before it on both sides. -/
theorem append_blanks_sep_inj {c : Char} {a b blanks x y : List Char} (ha : c ∉ a) (hb : c ∉ b)
    (hblanks : c ∉ blanks) (h : a ++ (blanks ++ c :: x) = b ++ (blanks ++ c :: y)) :
    a = b ∧ x = y := by
  rw [← List.append_assoc, ← List.append_assoc] at h
  have hnotMem {s : List Char} (hs : c ∉ s) : c ∉ s ++ blanks := by
    simp [hs, hblanks]
  obtain ⟨hab, hxy⟩ := append_sep_inj (hnotMem ha) (hnotMem hb) h
  exact ⟨List.append_cancel_right hab, hxy⟩

/-- A line that is not empty, with any blank lines behind it.  A text of such lines is read in one
way only, since none of them begins with a newline. -/
def IsLine (s : List Char) : Prop :=
  ∃ a k, a ≠ [] ∧ '\n' ∉ a ∧ s = a ++ '\n' :: List.replicate k '\n'

/-- Lines do not start with a newline, so a text of lines does not either. -/
theorem dropWhile_flatten {ls : List (List Char)} (h : ∀ s ∈ ls, IsLine s) :
    ls.flatten.dropWhile (· == '\n') = ls.flatten := by
  cases ls with
  | nil => rfl
  | cons s ls =>
      obtain ⟨a, k, hne, ha, rfl⟩ := h s List.mem_cons_self
      cases a with
      | nil => exact absurd rfl hne
      | cons c a =>
          have hc : c ≠ '\n' := fun hc => ha (hc ▸ List.mem_cons_self)
          simp [hc]

/-- **The lines can be read off a text**, however many there are, so two lists of lines with one
text are the same. -/
theorem flatten_inj_of_isLine {ls ls' : List (List Char)} (h : ∀ s ∈ ls, IsLine s)
    (h' : ∀ s ∈ ls', IsLine s) (heq : ls.flatten = ls'.flatten) : ls = ls' := by
  induction ls generalizing ls' with
  | nil =>
      cases ls' with
      | nil => rfl
      | cons s ls' =>
          obtain ⟨a, k, -, -, rfl⟩ := h' s List.mem_cons_self
          simp at heq
  | cons s ls ih =>
      obtain ⟨hs, hls⟩ := List.forall_mem_cons.mp h
      obtain ⟨a, k, -, ha, rfl⟩ := hs
      cases ls' with
      | nil => simp at heq
      | cons s' ls' =>
          obtain ⟨hs', hls'⟩ := List.forall_mem_cons.mp h'
          obtain ⟨a', k', -, ha', rfl⟩ := hs'
          simp only [List.flatten_cons, List.append_assoc, List.cons_append] at heq
          obtain ⟨rfl, hrest⟩ := append_sep_inj ha ha' heq
          -- the blank lines end where the next line starts
          have hdrop := congrArg (List.dropWhile (· == '\n')) hrest
          rw [List.dropWhile_append_of_pos (by simp), List.dropWhile_append_of_pos (by simp),
            dropWhile_flatten hls, dropWhile_flatten hls'] at hdrop
          rw [hdrop] at hrest
          rw [ih hls hls' hdrop, List.append_cancel_right hrest]

end LeipoCode.Printf
