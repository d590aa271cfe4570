import Mathlib.Data.List.Basic
import Mathlib.Data.Nat.ModEq
import Mathlib.Tactic.Common

/-!
# Circular buffers

`n` cells used in turn, over an arbitrary type of elements.  What is stored begins at a read
position and ends before a write position; as many elements are stored as lie between them
going round, so that a buffer whose positions are equal is empty and one cell is always free.

* `slice`, `store` — consecutive cells, read and written;
* `used` — how many elements are stored; `contents` — which, in order;
* `contents_store` — storing at the write position appends;
* `slice_eq_take`, `contents_advance` — reading at the read position takes from the front.

The cells are a function and not an array, so nothing is said of those outside the `n` that are
used: whether a copy goes outside its block is a question of the program and its positions, and is
answered there.  `contents` goes round and `slice` does not.  A program that copies does so in one
piece, up to the end of the cells at most, and the two lemmas that connect the two ask for just
that.
-/

namespace LeipoCode.RingBuffer

universe u

variable {α : Type u}

/-- `k` cells from `p` on, without going round: this is what one copy out of the buffer delivers. -/
def slice (cells : ℕ → α) (p k : ℕ) : List α := (List.range k).map fun i => cells (p + i)

/-- The cells after `xs` was copied to `p`, in one piece; all others stay as they are. -/
def store (cells : ℕ → α) (p : ℕ) (xs : List α) (i : ℕ) : α :=
  if p ≤ i then (xs[i - p]?).getD (cells i) else cells i

/-- How many cells from the read position the write position is away, going round.  It is less than
`n`, so a full buffer has `n - 1` elements. -/
def used (n rp wp : ℕ) : ℕ := (wp + n - rp) % n

/-- The `k` elements from the read position on, going round at the end of the cells: what the buffer
stands for when `k` is the number used. -/
def contents (cells : ℕ → α) (n rp k : ℕ) : List α :=
  (List.range k).map fun i => cells ((rp + i) % n)

variable {cells : ℕ → α} {n rp wp p k c i : ℕ} {xs : List α}

@[simp] theorem length_slice : (slice cells p k).length = k := by simp [slice]

@[simp] theorem length_contents : (contents cells n rp k).length = k := by simp [contents]

theorem getElem?_contents (hi : i < k) :
    (contents cells n rp k)[i]? = some (cells ((rp + i) % n)) := by
  rw [contents, List.getElem?_map, List.getElem?_range hi, Option.map_some]

theorem getElem?_slice (hi : i < k) : (slice cells p k)[i]? = some (cells (p + i)) := by
  rw [slice, List.getElem?_map, List.getElem?_range hi, Option.map_some]

/-! ### Storing -/

theorem store_inside (cells : ℕ → α) (p : ℕ) (hi : i < xs.length) :
    some (store cells p xs (p + i)) = xs[i]? := by
  rw [store, if_pos (Nat.le_add_right p i), Nat.add_sub_cancel_left,
    List.getElem?_eq_getElem hi, Option.getD_some]

theorem store_outside (hi : i < p ∨ p + xs.length ≤ i) : store cells p xs i = cells i := by
  unfold store
  split_ifs with hle
  · rw [List.getElem?_eq_none (by omega), Option.getD_none]
  · rfl

/-- What was copied into the cells is found again, from the position where it was put. -/
theorem slice_store (cells : ℕ → α) (p : ℕ) (xs ys : List α) :
    slice (store cells p (xs ++ ys)) p xs.length = xs := by
  refine List.ext_getElem? fun i => ?_
  by_cases hi : i < xs.length
  · have hi' : i < (xs ++ ys).length := by
      rw [List.length_append]
      exact hi.trans_le (Nat.le_add_right _ _)
    rw [getElem?_slice hi, store_inside cells p hi', List.getElem?_append_left hi]
  · rw [List.getElem?_eq_none (by simpa using hi), List.getElem?_eq_none (by simpa using hi)]

@[simp] theorem store_nil : store cells p [] = cells := by
  funext i
  exact store_outside (by simp [Nat.lt_or_ge])

/-! ### Going round -/

/-- A position less than a lap away is either in the same lap, or in the next one and less by `n`.
-/
theorem add_mod_cases (hrp : rp < n) (hi : i ≤ n) :
    rp + i < n ∧ (rp + i) % n = rp + i ∨ n ≤ rp + i ∧ (rp + i) % n = rp + i - n := by
  by_cases hlt : rp + i < n
  · exact .inl ⟨hlt, Nat.mod_eq_of_lt hlt⟩
  · refine .inr ⟨by omega, ?_⟩
    rw [Nat.mod_eq_sub_mod (by omega), Nat.mod_eq_of_lt (by omega)]

theorem used_lt (hn : 0 < n) : used n rp wp < n := Nat.mod_lt _ hn

/-- How much is stored, where both positions are inside: by subtraction, and a lap more if the read
position is ahead. -/
theorem used_eq (hrp : rp < n) (hwp : wp < n) :
    used n rp wp = if rp ≤ wp then wp - rp else wp + n - rp := by
  unfold used
  split_ifs with hle
  · rw [Nat.mod_eq_sub_mod (by omega), Nat.mod_eq_of_lt (by omega)]
    omega
  · exact Nat.mod_eq_of_lt (by omega)

theorem used_self : used n rp rp = 0 := by
  rw [used, Nat.add_sub_cancel_left, Nat.mod_self]

theorem used_eq_zero_iff (hrp : rp < n) (hwp : wp < n) : used n rp wp = 0 ↔ rp = wp := by
  rw [used_eq hrp hwp]
  split_ifs <;> omega

/-- The write position is as far from the read position as elements are stored. -/
theorem add_used_mod (hrp : rp < n) (hwp : wp < n) : (rp + used n rp wp) % n = wp := by
  rw [used_eq hrp hwp]
  split_ifs with hle
  · rw [Nat.add_sub_cancel' hle, Nat.mod_eq_of_lt hwp]
  · rw [Nat.add_sub_cancel' (by omega), Nat.add_mod_right, Nat.mod_eq_of_lt hwp]

/-- A position that has come to the end is the start: the test of the code and the remainder are the
same. -/
theorem wrap_eq_mod (hp : p ≤ n) : (if p = n then 0 else p) = p % n := by
  split_ifs with heq
  · rw [heq, Nat.mod_self]
  · rw [Nat.mod_eq_of_lt (by omega)]

/-- Moving the write position on by `c` makes `c` more elements stored, as long as that is less than
a lap. -/
theorem used_write (hrp : rp < n) (hwp : wp < n) (hc : used n rp wp + c < n) :
    used n rp ((wp + c) % n) = used n rp wp + c := by
  have hwp' := Nat.mod_lt (wp + c) (Nat.zero_lt_of_lt hwp)
  have hused := used_eq hrp hwp
  have hused' := used_eq hrp hwp'
  rcases add_mod_cases hwp (i := c) (by omega) with ⟨hlt, heq⟩ | ⟨hge, heq⟩ <;>
    rw [heq] at hused' ⊢ <;> split_ifs at hused hused' <;> omega

/-- If the write position is `k` elements ahead, less than a lap, then `k` are stored. -/
theorem used_of_add_mod (hrp : rp < n) (hk : k < n) (hp : (rp + k) % n = p) :
    used n rp p = k := by
  have hused : used n rp ((rp + k) % n) = used n rp rp + k :=
    used_write hrp hrp (by rwa [used_self, Nat.zero_add])
  rwa [hp, used_self, Nat.zero_add] at hused

/-- Moving the read position on by `c` makes `c` elements fewer stored, if there are as many. -/
theorem used_read (hrp : rp < n) (hwp : wp < n) (hc : c ≤ used n rp wp) :
    used n ((rp + c) % n) wp = used n rp wp - c := by
  have hrp' := Nat.mod_lt (rp + c) (Nat.zero_lt_of_lt hrp)
  have hused := used_eq hrp hwp
  have hused' := used_eq hrp' hwp
  have hlt : used n rp wp < n := used_lt (Nat.zero_lt_of_lt hrp)
  rcases add_mod_cases hrp (i := c) (by omega) with ⟨hlt, heq⟩ | ⟨hge, heq⟩ <;>
    rw [heq] at hused' ⊢ <;> split_ifs at hused hused' <;> omega

/-! ### Contents -/

/-- **Storing at the write position appends**, if what is stored does not run over the end and not
over what is still to be read. -/
theorem contents_store (hrp : rp < n) (hp : (rp + k) % n = p) (hend : p + xs.length ≤ n)
    (hfits : k + xs.length ≤ n) :
    contents (store cells p xs) n rp (k + xs.length) = contents cells n rp k ++ xs := by
  refine List.ext_getElem? fun i => ?_
  by_cases hi : i < k + xs.length
  · rw [getElem?_contents hi]
    rcases add_mod_cases hrp (i := k) (by omega) with ⟨hk, hkeq⟩ | ⟨hk, hkeq⟩ <;>
      rcases add_mod_cases hrp (i := i) (by omega) with ⟨him, hieq⟩ | ⟨him, hieq⟩ <;>
      rw [hkeq] at hp <;> rw [hieq] <;> by_cases hik : i < k
    -- an element that was there keeps its cell; a new one is in the cell it was copied to
    all_goals first
      | (rw [List.getElem?_append_left (by simpa using hik), getElem?_contents hik, hieq,
          store_outside (by omega)])
      | (obtain ⟨j, rfl⟩ := Nat.exists_eq_add_of_le (Nat.le_of_not_lt hik)
         rw [List.getElem?_append_right (by simp), length_contents, Nat.add_sub_cancel_left,
          ← store_inside cells p (by omega)]
         congr 2
         omega)
  · rw [List.getElem?_eq_none (by simpa using hi), List.getElem?_eq_none]
    simpa using hi

/-- Storing in the free cells, or behind the last one, changes nothing that is stored. -/
theorem contents_store_free (hrp : rp < n) (hp : (rp + k) % n = p) (hfits : k + xs.length ≤ n) :
    contents (store cells p xs) n rp k = contents cells n rp k := by
  refine List.map_congr_left fun i hi => store_outside ?_
  rw [List.mem_range] at hi
  rcases add_mod_cases hrp (i := k) (by omega) with ⟨hk, hkeq⟩ | ⟨hk, hkeq⟩ <;>
    rcases add_mod_cases hrp (i := i) (by omega) with ⟨him, hieq⟩ | ⟨him, hieq⟩ <;>
    omega

/-- What lies behind the first `k` elements, up to the end of the cells, is a slice of them. -/
theorem contents_add (hp : (rp + k) % n = p) (hend : p + c ≤ n) :
    contents cells n rp (k + c) = contents cells n rp k ++ slice cells p c := by
  rw [contents, contents, List.range_add, List.map_append, List.map_map, slice]
  congr 1
  refine List.map_congr_left fun i hi => ?_
  rw [List.mem_range] at hi
  change cells ((rp + (k + i)) % n) = cells (p + i)
  rw [← Nat.add_assoc, Nat.add_mod, hp, Nat.add_mod_mod, Nat.mod_eq_of_lt (by omega)]

/-- **What is read at the read position** is what is stored first, as far as the end of the cells.
-/
theorem slice_eq_take (hend : rp + c ≤ n) (hc : c ≤ k) :
    slice cells rp c = (contents cells n rp k).take c := by
  rw [contents, ← List.map_take, List.take_range, Nat.min_eq_left hc, slice]
  refine List.map_congr_left fun i hi => ?_
  rw [Nat.mod_eq_of_lt (by rw [List.mem_range] at hi; omega)]

/-- **Moving the read position on** drops what is stored first, as much as it was moved. -/
theorem contents_advance (hc : c ≤ k) :
    contents cells n ((rp + c) % n) (k - c) = (contents cells n rp k).drop c := by
  refine List.ext_getElem? fun i => ?_
  rw [List.getElem?_drop]
  by_cases hi : i < k - c
  · rw [getElem?_contents hi, getElem?_contents (by omega), Nat.mod_add_mod, Nat.add_assoc]
  · rw [List.getElem?_eq_none (by simpa using hi), List.getElem?_eq_none]
    rw [length_contents]
    omega

/-- The first element, and what is behind it. -/
theorem contents_succ : contents cells n rp (k + 1) =
    cells (rp % n) :: contents cells n ((rp + 1) % n) k := by
  rw [contents, contents, List.range_succ_eq_map, List.map_cons, List.map_map]
  congr 1
  refine List.map_congr_left fun i _ => ?_
  change cells ((rp + (i + 1)) % n) = cells (((rp + 1) % n + i) % n)
  rw [Nat.mod_add_mod, Nat.add_assoc, Nat.add_comm 1]

end LeipoCode.RingBuffer
