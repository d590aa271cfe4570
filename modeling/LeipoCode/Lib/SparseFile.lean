import LeipoCode.Lib.LTS
import Mathlib.Data.List.GetD

/-!
# Files with holes

A file that is kept in blocks of one size, over an arbitrary type of cells.  A block is a hole
until something is written into it; the file has a size, and calls may stop at the end of a
block.

* `SparseFile` — the file; a block is a hole as a whole, or has all of its cells;
* `SparseFile.system` — the calls, each with what it has transferred;
* `lastWritten`, `extent` — what the calls so far say about the file;
* `read_after_write` — **a read delivers what was written last**, wherever something was.

The calls are those of a program that has failures: a read or a write may transfer less than it was
asked for, up to the end of a block, or nothing for want of memory, and a copy may fail half-way.
Each of them says in its event what it has transferred, and these events are what `lastWritten` and
`extent` are computed from, so that what the file holds is told by what the calls say they have
done, and not by the file.

A block that is begun has all of its cells at once, with those that nobody wrote at arbitrary values
(`fresh`): this is memory that was allocated and not cleared.  So a read may deliver a cell that was
never written, if another one of its block was; what is specified is that it does not deliver
anything else for one that was.
-/

namespace LeipoCode

universe u

/-- A file in blocks of `quantum` cells.  `even` says that a block is a hole as a whole or not at
all, and the size may lie in a hole. -/
structure SparseFile (α : Type u) where
  quantum : ℕ
  size : ℕ
  /-- What is stored at a position, which may lie in a hole. -/
  cells : ℕ → Option α
  quantum_pos : 0 < quantum
  even : ∀ p p', p / quantum = p' / quantum → (cells p).isSome = (cells p').isSome

namespace SparseFile

variable {α : Type u} {f f' f₀ : SparseFile α} {pos count p i n : ℕ} {data bytes : List α}

/-! ### The calls -/

/-- A file without blocks, of size zero.  All of it is one hole, and the size of the blocks is what
it is given. -/
def empty (quantum : ℕ) (h : 0 < quantum) : SparseFile α where
  quantum := quantum
  size := 0
  cells _ := none
  quantum_pos := h
  even _ _ _ := rfl

/-- How many cells there are from a position to the end of its block: one at least, and this is as
far as a call goes. -/
def room (f : SparseFile α) (pos : ℕ) : ℕ := f.quantum - pos % f.quantum

/-- What a read finds: it stops at the end of the file, and of the block.  In a hole it finds
nothing. -/
def readAt (f : SparseFile α) (pos count : ℕ) : List α :=
  (List.range (min count (min (f.size - pos) (f.room pos)))).filterMap fun i => f.cells (pos + i)

/-- The block at a position filled, and cells stored from there on.  `fresh` is what a hole is
filled with. -/
def put (f : SparseFile α) (pos : ℕ) (bytes : List α) (fresh : ℕ → α) : SparseFile α where
  quantum := f.quantum
  size := f.size
  cells p :=
    if p / f.quantum = pos / f.quantum then
      some (if pos ≤ p then bytes.getD (p - pos) ((f.cells p).getD (fresh p))
        else (f.cells p).getD (fresh p))
    else f.cells p
  quantum_pos := f.quantum_pos
  even p p' h := by
    rw [h]
    split
    · rfl
    · exact f.even p p' h

/-- The file is at least so long.  Nothing is stored behind its old end by this alone. -/
def extend (f : SparseFile α) (size : ℕ) : SparseFile α := { f with size := max f.size size }

/-- What a call has done, with the bytes it has transferred: this is all that is known of a call
from outside. -/
inductive Event (α : Type u)
  | read (pos count : ℕ) (data : List α)
  /-- The copy out of the file has failed. -/
  | readFault (pos : ℕ)
  /-- The first `n` cells of `data` are accepted. -/
  | write (pos : ℕ) (data : List α) (n : ℕ)
  /-- The copy into the file has failed, and has left these cells. -/
  | writeFault (pos : ℕ) (arrived : List α)
  /-- There is no memory for a block. -/
  | noMem (pos : ℕ)
  | truncate
deriving DecidableEq, Repr

/-- The calls, each with what it shows.  A write takes what fits into the block; a failed one may
leave cells behind, and the size as it was. -/
inductive Step : SparseFile α → Event α → SparseFile α → Prop
  | read {f : SparseFile α} {pos count : ℕ} : Step f (.read pos count (f.readAt pos count)) f
  | readFault {f : SparseFile α} {pos : ℕ} :
      pos < f.size → f.cells pos ≠ none → Step f (.readFault pos) f
  | write {f : SparseFile α} {pos : ℕ} {data : List α} (fresh : ℕ → α) :
      Step f (.write pos data (min data.length (f.room pos)))
        ((f.put pos (data.take (f.room pos)) fresh).extend (pos + min data.length (f.room pos)))
  | writeFault {f : SparseFile α} {pos : ℕ} {arrived : List α} (fresh : ℕ → α) :
      arrived.length ≤ f.room pos → Step f (.writeFault pos arrived) (f.put pos arrived fresh)
  | noMem {f : SparseFile α} {pos : ℕ} : f.cells pos = none → Step f (.noMem pos) f
  | truncate {f : SparseFile α} {quantum : ℕ} (h : 0 < quantum) :
      Step f .truncate (empty quantum h)

/-- The runs of a file, which begins without blocks, and with any size of them. -/
def system (α : Type u) : LTS (SparseFile α) (Event α) where
  init f := ∃ quantum h, f = empty quantum h
  step := Step

/-! ### One block -/

/-- The positions up to the end of the block are in the block. -/
theorem div_eq_of_lt_room (h : i < f.room pos) : (pos + i) / f.quantum = pos / f.quantum := by
  have hlt : pos % f.quantum + i < f.quantum := by
    unfold room at h
    omega
  calc (pos + i) / f.quantum
      = (f.quantum * (pos / f.quantum) + (pos % f.quantum + i)) / f.quantum := by
        rw [← Nat.add_assoc, Nat.div_add_mod]
    _ = pos / f.quantum + (pos % f.quantum + i) / f.quantum := by
        rw [Nat.mul_add_div f.quantum_pos]
    _ = pos / f.quantum := by rw [Nat.div_eq_of_lt hlt, Nat.add_zero]

theorem mod_eq_of_lt_room (h : i < f.room pos) :
    (pos + i) % f.quantum = pos % f.quantum + i := by
  have hlt : pos % f.quantum + i < f.quantum := by
    unfold room at h
    omega
  rw [← Nat.mod_add_mod, Nat.mod_eq_of_lt hlt]

theorem isSome_of_lt_room (h : i < f.room pos) :
    (f.cells (pos + i)).isSome = (f.cells pos).isSome := f.even _ _ (div_eq_of_lt_room h)

/-- A read that starts in a hole finds nothing, whatever lies behind the hole. -/
theorem readAt_hole (h : f.cells pos = none) (count : ℕ) : f.readAt pos count = [] := by
  rw [readAt, List.filterMap_eq_nil_iff]
  intro i hi
  have hroom : i < f.room pos := by
    have := List.mem_range.mp hi
    omega
  have hsome := isSome_of_lt_room hroom
  rwa [h, Option.isSome_none, Option.isSome_eq_false_iff, Option.isNone_iff_eq_none] at hsome

/-- A read behind the end finds nothing. -/
theorem readAt_end (h : f.size ≤ pos) (count : ℕ) : f.readAt pos count = [] := by
  rw [readAt, Nat.sub_eq_zero_of_le h, Nat.zero_min, Nat.min_zero]
  rfl

/-- A read in a block finds all that was asked for, up to the end of the block and of the file. -/
theorem readAt_block (hbytes : ∀ i < bytes.length, f.cells (pos + i) = bytes[i]?)
    (hlen : bytes.length = min count (min (f.size - pos) (f.room pos))) :
    f.readAt pos count = bytes := by
  have hmap : (List.range bytes.length).map (fun i => f.cells (pos + i)) = bytes.map some := by
    refine List.ext_getElem (by simp) fun i hi _ => ?_
    rw [List.length_map, List.length_range] at hi
    simpa [hi] using hbytes i hi
  calc f.readAt pos count
      = ((List.range bytes.length).map fun i => f.cells (pos + i)).filterMap id := by
        rw [readAt, ← hlen, List.filterMap_map, Function.id_comp]
    _ = bytes := by
        rw [hmap, List.filterMap_map, Function.id_comp]
        exact List.filterMap_some

/-- Each cell of what is read is the one at its position. -/
theorem map_some_readAt (h : f.cells pos ≠ none) (count : ℕ) : (f.readAt pos count).map some =
    (List.range (min count (min (f.size - pos) (f.room pos)))).map fun i => f.cells (pos + i) := by
  rw [readAt, List.map_filterMap_some_eq_filter_map_isSome, List.filter_eq_self]
  rintro c hc
  obtain ⟨i, hi, rfl⟩ := List.mem_map.mp hc
  have hroom : i < f.room pos := by
    have := List.mem_range.mp hi
    omega
  rw [isSome_of_lt_room hroom]
  exact Option.isSome_iff_ne_none.mpr h

theorem length_readAt (h : f.cells pos ≠ none) (count : ℕ) :
    (f.readAt pos count).length = min count (min (f.size - pos) (f.room pos)) := by
  simpa using congrArg List.length (map_some_readAt h count)

theorem length_readAt_le (f : SparseFile α) (pos count : ℕ) :
    (f.readAt pos count).length ≤ min count (min (f.size - pos) (f.room pos)) :=
  (List.length_filterMap_le ..).trans_eq List.length_range

theorem getElem?_readAt (h : i < (f.readAt pos count).length) :
    (f.readAt pos count)[i]? = f.cells (pos + i) := by
  have hcell : f.cells pos ≠ none := by
    intro hnone
    rw [readAt_hole hnone] at h
    cases h
  have hi := congrArg (·[i]?) (map_some_readAt hcell count)
  simp only [List.getElem?_map, List.getElem?_eq_getElem h, Option.map_some] at hi ⊢
  rw [length_readAt hcell] at h
  rw [List.getElem?_range h, Option.map_some] at hi
  exact Option.some.inj hi

/-! ### What is stored -/

theorem put_cells_inside (hbytes : bytes.length ≤ f.room pos) {fresh : ℕ → α}
    (hi : i < bytes.length) : (f.put pos bytes fresh).cells (pos + i) = bytes[i]? := by
  have hblock := div_eq_of_lt_room (Nat.lt_of_lt_of_le hi hbytes)
  simp only [put, if_pos hblock, if_pos (Nat.le_add_right pos i), Nat.add_sub_cancel_left]
  rw [List.getD_eq_getElem _ _ hi, List.getElem?_eq_getElem hi]

/-- What was stored outside the bytes that are written stays as it was. -/
theorem put_cells_outside {fresh : ℕ → α} {b : α} (hp : f.cells p = some b)
    (hout : ¬ (pos ≤ p ∧ p < pos + bytes.length)) :
    (f.put pos bytes fresh).cells p = some b := by
  simp only [put, hp, Option.getD_some]
  split_ifs with hblock hle
  · rw [List.getD_eq_default]
    omega
  · rfl
  · rfl

/-- To fill the block first, and write the bytes then, comes to the same as one write. -/
theorem put_put {fresh fresh' : ℕ → α} :
    ((f.put pos [] fresh).put pos bytes fresh').cells = (f.put pos bytes fresh).cells := by
  funext p
  by_cases h : p / f.quantum = pos / f.quantum <;> simp [put, h]

/-- A block that is there is not filled anew: a write of no bytes changes nothing. -/
theorem put_nil {fresh : ℕ → α} (h : f.cells pos ≠ none) :
    (f.put pos [] fresh).cells = f.cells := by
  funext p
  by_cases hp : p / f.quantum = pos / f.quantum
  · have hsome : (f.cells p).isSome = true := by
      rw [f.even p pos hp]
      exact Option.isSome_iff_ne_none.mpr h
    obtain ⟨b, hb⟩ := Option.isSome_iff_exists.mp hsome
    simp [put, hp, hb]
  · simp [put, hp]

/-! ### What the calls say -/

/-- What is known of the cells after a call: a write makes known what it has accepted, a copy that
has failed what has arrived, and to empty the file makes all unknown. -/
def known (m : ℕ → Option α) : Event α → ℕ → Option α
  | .write pos data n => fun p => if pos ≤ p ∧ p < pos + n then data[p - pos]? else m p
  | .writeFault pos arrived =>
      fun p => if pos ≤ p ∧ p < pos + arrived.length then arrived[p - pos]? else m p
  | .truncate => fun _ => none
  | .read _ _ _ | .readFault _ | .noMem _ => m

/-- What was written last to a position, if anything was since the file was empty. -/
def lastWritten (es : List (Event α)) : ℕ → Option α := es.foldl known fun _ => none

/-- How long the file is after a call: an accepted write may make it longer, one that has failed
does not, and to empty it makes it zero. -/
def reached (size : ℕ) : Event α → ℕ
  | .write pos _ n => max size (pos + n)
  | .truncate => 0
  | .read _ _ _ | .readFault _ | .writeFault _ _ | .noMem _ => size

/-- How far the accepted writes have reached since the file was empty: this is the end of the file,
as a caller can tell it. -/
def extent (es : List (Event α)) : ℕ := es.foldl reached 0

theorem lastWritten_append (es : List (Event α)) (e : Event α) :
    lastWritten (es ++ [e]) = known (lastWritten es) e := by
  rw [lastWritten, List.foldl_append]
  rfl

theorem extent_append (es : List (Event α)) (e : Event α) :
    extent (es ++ [e]) = reached (extent es) e := by
  rw [extent, List.foldl_append]
  rfl

/-- One call: if what was known of the cells is so before it, then what is known after it is so. -/
theorem Step.known {e : Event α} (h : Step f e f') {m : ℕ → Option α}
    (hm : ∀ p b, m p = some b → f.cells p = some b) {b : α}
    (hp : SparseFile.known m e p = some b) : f'.cells p = some b := by
  cases h with
  | read | readFault | noMem => exact hm p b hp
  | truncate => cases hp
  | @write pos data fresh =>
      change (f.put pos (data.take (f.room pos)) fresh).cells p = some b
      have hlen : (data.take (f.room pos)).length = min data.length (f.room pos) := by
        rw [List.length_take, Nat.min_comm]
      simp only [SparseFile.known] at hp
      split_ifs at hp with hin
      · obtain ⟨i, rfl⟩ := Nat.exists_eq_add_of_le hin.1
        have hi : i < (data.take (f.room pos)).length := by omega
        rw [Nat.add_sub_cancel_left] at hp
        rw [put_cells_inside (by omega) hi, List.getElem?_take_of_lt (by omega), hp]
      · exact put_cells_outside (hm p b hp) (by rwa [hlen])
  | @writeFault pos arrived fresh hroom =>
      simp only [SparseFile.known] at hp
      split_ifs at hp with hin
      · obtain ⟨i, rfl⟩ := Nat.exists_eq_add_of_le hin.1
        rw [Nat.add_sub_cancel_left] at hp
        rw [put_cells_inside hroom (by omega), hp]
      · exact put_cells_outside (hm p b hp) hin

theorem Step.size {e : Event α} (h : Step f e f') : f'.size = reached f.size e := by
  cases h with
  | read | readFault | noMem | truncate | write | writeFault => rfl

section Runs

variable {es : List (Event α)}

/-- What was written last at a position, since the file was last empty, is what is stored there. -/
theorem Run.cells (h : (system α).Run f₀ es f) {b : α} (hp : lastWritten es p = some b) :
    f.cells p = some b := by
  refine h.invariant_trace
    (I := fun es f => ∀ p b, lastWritten es p = some b → f.cells p = some b) ?_ ?_ p b hp
  · rintro p b ⟨⟩
  · rintro es e f f' hI hstep p b hp
    rw [lastWritten_append] at hp
    exact Step.known hstep hI hp

/-- The size is as far as the writes have reached, since the file was last empty. -/
theorem Run.size (h : (system α).Run f₀ es f) (h₀ : f₀.size = 0) : f.size = extent es := by
  refine h.invariant_trace (I := fun es f => f.size = extent es) h₀ ?_
  intro es e f f' hI hstep
  rw [Step.size hstep, hI, extent_append]

/-- **A read delivers what was written last.**  It delivers nothing only at the end of the file,
in a hole, or if nothing is asked for. -/
theorem read_after_write (h : (system α).Run f₀ es f) (h₀ : f₀.size = 0)
    (hread : Step f (.read pos count data) f') :
    (∀ i b, i < data.length → lastWritten es (pos + i) = some b → data[i]? = some b) ∧
      data.length ≤ count ∧ data.length ≤ extent es - pos ∧
        (data = [] → count = 0 ∨ extent es ≤ pos ∨ lastWritten es pos = none) := by
  cases hread
  have hle := length_readAt_le f pos count
  have hsize := Run.size h h₀
  refine ⟨fun i b hi hlast => ?_, by omega, by omega, fun hnil => ?_⟩
  · rw [getElem?_readAt hi, Run.cells h hlast]
  · by_contra! hno
    obtain ⟨hcount, hextent, hwritten⟩ := hno
    obtain ⟨b, hb⟩ := Option.ne_none_iff_exists'.mp hwritten
    have hcell : f.cells pos ≠ none := by
      rw [Run.cells h hb]
      exact Option.some_ne_none b
    have hlen := length_readAt hcell count
    have hroom : 0 < f.room pos := Nat.sub_pos_of_lt (Nat.mod_lt _ f.quantum_pos)
    rw [hnil, List.length_nil] at hlen
    omega

end Runs

end SparseFile

end LeipoCode
