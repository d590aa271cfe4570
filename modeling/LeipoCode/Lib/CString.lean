import Mathlib.Data.List.Basic
import Mathlib.Tactic.Common

/-!
# Strings in arrays

A C string in an array of any kind of characters: the characters before the first `nul`.

* `string` — the string at the start of an array;
* `nul_mem_take_iff` — an array holds a string of less than `n` characters exactly if it
  has a `nul` among its first `n`;
* `Filled.string_copy_iff` — when a text that is copied to the start of an array, without a
  terminator, is the string there afterwards.

The characters are of any kind, and the array a list: what is behind its end is not modelled, and a
result that speaks of a string in an array has that there is a terminator among its first characters
for a hypothesis, or for its conclusion.
-/

namespace LeipoCode.CString

universe u

variable {α : Type u} [DecidableEq α] {nul : α}

/-- The string at the start of an array: everything before the terminator. -/
def string (nul : α) (array : List α) : List α := array.takeWhile (· != nul)

/-- **A terminator among the first characters** is one that is there and stands early. -/
theorem nul_mem_take_iff {array : List α} {n : ℕ} :
    nul ∈ array.take n ↔ nul ∈ array ∧ (string nul array).length < n := by
  unfold string
  induction array generalizing n with
  | nil => simp
  | cons c array ih =>
      cases n with
      | zero => simp
      | succ n =>
          by_cases hc : c = nul
          · subst hc
            simp
          · simp [hc, Ne.symm hc, ih]

/-- An array of `size` characters: a text of `n`, and terminators from there on. -/
def Filled (nul : α) (size n : ℕ) (array : List α) : Prop :=
  n ≤ size ∧ ∃ text : List α, text.length = n ∧ nul ∉ text ∧
    array = text ++ List.replicate (size - n) nul

section Filled

variable {size n : ℕ} {array text : List α}

omit [DecidableEq α]

theorem Filled.nul_mem (h : Filled nul size n array) (hn : n < size) : nul ∈ array := by
  obtain ⟨-, text, -, -, rfl⟩ := h
  apply List.mem_append_right
  exact List.mem_replicate.mpr ⟨Nat.sub_ne_zero_of_lt hn, rfl⟩

/-- What is left of the array behind a text of `m` characters: the rest of the longer text, if that
was longer, and then terminators only. -/
theorem Filled.drop (h : Filled nul size n array) (m : ℕ) :
    ∃ rest : List α, rest.length = n - m ∧ nul ∉ rest ∧
      array.drop m = rest ++ List.replicate (size - max n m) nul := by
  obtain ⟨-, text, hlength, htext, rfl⟩ := h
  refine ⟨text.drop m, by simp [hlength], fun hmem => htext (List.mem_of_mem_drop hmem), ?_⟩
  rw [List.drop_append, List.drop_replicate, hlength]
  congr 2
  omega

/-- A text copied to the start of the array, without its terminator: the array is filled as far as
the longer of the two. -/
theorem Filled.copy (h : Filled nul size n array) (htext : nul ∉ text)
    (hsize : text.length ≤ size) :
    Filled nul size (max n text.length) (text ++ array.drop text.length) := by
  obtain ⟨rest, hlength, hrest, hdrop⟩ := h.drop text.length
  refine ⟨Nat.max_le.mpr ⟨h.1, hsize⟩, text ++ rest, ?_, ?_, by rw [hdrop, List.append_assoc]⟩
  · rw [List.length_append, hlength]
    omega
  · simp [htext, hrest]

variable [DecidableEq α]

/-- **A copied text is the string afterwards** just when nothing longer was there before. -/
theorem Filled.string_copy_iff (h : Filled nul size n array) (htext : nul ∉ text) :
    string nul (text ++ array.drop text.length) = text ↔ n ≤ text.length := by
  obtain ⟨rest, hlength, hrest, hdrop⟩ := h.drop text.length
  have hstring : string nul (text ++ array.drop text.length) = text ++ rest := by
    unfold string
    rw [hdrop, ← List.append_assoc, List.takeWhile_append_of_pos]
    · simp
    · intro c hc
      have hne : c ≠ nul := by
        rintro rfl
        simp [htext, hrest] at hc
      simpa using hne
  rw [hstring, List.append_right_eq_self, ← List.length_eq_zero_iff, hlength]
  omega

end Filled

end LeipoCode.CString
