import Mathlib.Data.List.Basic
import Mathlib.Tactic.Common

/-!
# Files as sequences of bytes

A regular file under `read` and `write` at an offset, over an arbitrary type of
bytes:

* `readAt file off n` — what a `read` of `n` bytes at `off` delivers when nothing
  cuts it short: everything up to the end of the file;
* `writeAt pad file off bytes` — the file after `bytes` were written at `off`; a
  gap behind the old end is filled with `pad`;
* `overwrite buf bytes` — a buffer after `bytes` were stored at its start.

What cuts a `read` or a `write` short, a signal or a device that is full, is not here: a program
gets a response that says how many bytes were transferred, and these functions say which ones.
-/

namespace LeipoCode.ByteFile

universe u

variable {α : Type u}

/-- The bytes at `off`, at most `n` of them: fewer where the file ends before, and none at its end
or behind it. -/
def readAt (file : List α) (off n : ℕ) : List α := (file.drop off).take n

/-- The file after a write.  What was there is overwritten and what is behind it stays; a write of
nothing does not extend the file, wherever it is made. -/
def writeAt (pad : α) (file : List α) (off : ℕ) (bytes : List α) : List α :=
  if bytes = [] then file
  else file.take off ++ List.replicate (off - file.length) pad ++ bytes ++
    file.drop (off + bytes.length)

/-- A buffer whose first bytes were overwritten; the others keep what they had, which is what a
short read leaves behind in a buffer that is used again. -/
def overwrite (buf bytes : List α) : List α := bytes ++ buf.drop bytes.length

section Read

variable {file : List α} {off n k : ℕ}

@[simp] theorem length_readAt :
    (readAt file off n).length = min n (file.length - off) := by
  simp [readAt]

theorem getElem?_readAt (hk : k < n) : (readAt file off n)[k]? = file[off + k]? := by
  rw [readAt, List.getElem?_take_of_lt hk, List.getElem?_drop]

/-- A part of what was read is what would have been read there from the file itself. -/
theorem readAt_readAt {off' n' : ℕ} (h : off' + n' ≤ n) :
    readAt (readAt file off n) off' n' = readAt file (off + off') n' := by
  rw [readAt, readAt, readAt, List.drop_take, List.take_take, List.drop_drop,
    Nat.min_eq_left (by omega)]

end Read

/-- Writing at the end of the file appends, without padding. -/
theorem writeAt_end (pad : α) (file bytes : List α) :
    writeAt pad file file.length bytes = file ++ bytes := by
  unfold writeAt
  split_ifs with hnil
  · simp [hnil]
  · simp

/-- A buffer that is overwritten from end to end keeps nothing of what was in it. -/
theorem overwrite_full {buf bytes : List α} (hlen : buf.length ≤ bytes.length) :
    overwrite buf bytes = bytes := by
  rw [overwrite, List.drop_eq_nil_of_le hlen, List.append_nil]

/-- What was stored at the start of a buffer is read back, as far as it reaches. -/
theorem readAt_overwrite {buf bytes : List α} {off n : ℕ} (h : off + n ≤ bytes.length) :
    readAt (overwrite buf bytes) off n = readAt bytes off n := by
  rw [readAt, readAt, overwrite, List.drop_append_of_le_length (by omega),
    List.take_append_of_le_length (by rw [List.length_drop]; omega)]

@[simp] theorem length_overwrite {buf bytes : List α} :
    (overwrite buf bytes).length = max buf.length bytes.length := by
  simp only [overwrite, List.length_append, List.length_drop]
  omega

end LeipoCode.ByteFile
