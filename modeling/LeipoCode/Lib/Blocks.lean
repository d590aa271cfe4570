import LeipoCode.Lib.SparseFile

/-!
# Storage in blocks

A list of items, each an array of slots once it is allocated, each slot a block of `q` cells
once that is allocated: how a file with holes can be stored, over an arbitrary type of cells.

* `contents` — the cell a position has: with `s` slots to an item the position is in the item
  `p / (q * s)`, in its slot `p % (q * s) / q`, at `p % (q * s) % q`;
* `Shaped` — the arrays and the blocks have their sizes;
* `contents_allocate`, `contents_splice` — a new block, and cells stored in a block, are what
  `SparseFile.put` says.

This is the storage and `SparseFile` what is stored in it; the two are connected by `contents`, a
position at a time.  What a program has to do at a position, find the item, its slot and the cell in
its block, is division with remainder by `q * s` and by `q`, and positions of one block have one
quotient: the arithmetic is here once, for all programs that lay out a file like this.

The items are in a list that only grows at its end, with empty items (`slots_grow`, `block_grow`),
so to get to an item that is not there yet changes nothing that is stored.  An array of slots is put
in empty, and changes nothing either; a block brings its cells with it, all at once.
-/

namespace LeipoCode.Blocks

universe u

/-- The blocks of an item, a slot each; an empty slot is `none`, which is the null pointer of a
program that keeps addresses here. -/
abbrev Slots (α : Type u) := List (Option (List α))

/-- The items, in order.  One that has no array of slots yet is `none`, and so is any behind the
last one, which `slots` does not tell apart from it. -/
abbrev Items (α : Type u) := List (Option (Slots α))

variable {α : Type u} {items : Items α} {ss : Slots α} {b bytes : List α}
  {q s i j i' j' n p pos o : ℕ}

/-- The slots of an item that has them: nothing for an item without an array, and nothing beyond the
last item. -/
def slots (items : Items α) (i : ℕ) : Option (Slots α) := (items[i]?).join

/-- The block in a slot that has one: nothing if the item has no slots, if there are fewer of them,
or if the slot is empty. -/
def block (items : Items α) (i j : ℕ) : Option (List α) :=
  (slots items i).bind fun ss => (ss[j]?).join

/-- What is stored at a position: nothing, if its item has no slots or its slot no block. -/
def contents (q s : ℕ) (items : Items α) (p : ℕ) : Option α :=
  (block items (p / (q * s)) (p % (q * s) / q)).bind fun b => b[p % (q * s) % q]?

/-- An item gets its slots.  There is no item beyond the last one that could get any, so a program
makes it first (`slots_grow`). -/
def setSlots (items : Items α) (i : ℕ) (ss : Slots α) : Items α := items.set i (some ss)

/-- A slot gets its block, in place of the one that was there; an item without slots stays as it is.
-/
def setBlock (items : Items α) (i j : ℕ) (b : List α) : Items α :=
  items.modify i (Option.map fun ss => ss.set j (some b))

/-- A block in which cells were overwritten from `o` on.  It stays as long as it was if the bytes
fit behind `o`. -/
def splice (b : List α) (o : ℕ) (bytes : List α) : List α :=
  b.take o ++ bytes ++ b.drop (o + bytes.length)

/-- The arrays have `s` slots, and the blocks `q` cells.  Of a list in which some have other sizes
nothing is said. -/
structure Shaped (q s : ℕ) (items : Items α) : Prop where
  slots : ∀ i ss, slots items i = some ss → ss.length = s
  block : ∀ i j b, block items i j = some b → b.length = q

/-! ### Where a position is -/

theorem slot_lt (hq : 0 < q) (hs : 0 < s) : p % (q * s) / q < s :=
  Nat.div_lt_of_lt_mul (Nat.mod_lt p (Nat.mul_pos hq hs))

theorem offset_eq : p % (q * s) % q = p % q := Nat.mod_mul_right_mod p q s

/-- Two positions are in one block exactly if they are in one slot of one item. -/
theorem div_eq_iff : p / q = pos / q ↔
    p / (q * s) = pos / (q * s) ∧ p % (q * s) / q = pos % (q * s) / q := by
  simp only [← Nat.div_div_eq_div_mul, Nat.mod_mul_right_div_self]
  constructor
  · intro h
    rw [h]
    exact ⟨rfl, rfl⟩
  · rintro ⟨hdiv, hmod⟩
    rw [← Nat.div_add_mod (p / q) s, hdiv, hmod, Nat.div_add_mod]

/-! ### One item, one slot -/

@[simp] theorem slots_grow : slots (items ++ List.replicate n none) i = slots items i := by
  unfold slots
  by_cases hi : i < items.length
  · rw [List.getElem?_append_left hi]
  · rw [List.getElem?_append_right (by omega), List.getElem?_eq_none (l := items) (by omega)]
    rw [List.getElem?_replicate]
    split <;> rfl

theorem slots_setSlots (hi : i < items.length) :
    slots (setSlots items i ss) i' = if i' = i then some ss else slots items i' := by
  unfold slots setSlots
  rw [List.getElem?_set]
  by_cases h : i = i'
  · simp [h, h ▸ hi]
  · simp [h, Ne.symm h]

theorem slots_setBlock : slots (setBlock items i j b) i' =
    if i' = i then (slots items i).map (·.set j (some b)) else slots items i' := by
  unfold slots setBlock
  by_cases h : i = i'
  · subst h
    rw [List.getElem?_modify_eq, if_pos rfl]
    rcases items[i]? with _ | _ | ss <;> rfl
  · rw [if_neg (Ne.symm h), List.getElem?_modify_ne]
    exact h

@[simp] theorem block_grow : block (items ++ List.replicate n none) i j = block items i j := by
  rw [block, slots_grow]
  rfl

/-- New slots are empty: where there were none, having them changes no block. -/
theorem block_setSlots (hi : i < items.length) (hnone : slots items i = none) :
    block (setSlots items i (List.replicate s none)) i' j' = block items i' j' := by
  unfold block
  rw [slots_setSlots hi]
  split_ifs with h
  · rw [h, hnone, Option.bind_some, List.getElem?_replicate]
    split <;> rfl
  · rfl

theorem block_setBlock (hslots : slots items i = some ss) (hj : j < ss.length) :
    block (setBlock items i j b) i' j' =
      if i' = i ∧ j' = j then some b else block items i' j' := by
  unfold block
  rw [slots_setBlock]
  by_cases hi : i' = i
  · rw [if_pos hi, hi, hslots, Option.map_some, Option.bind_some, Option.bind_some,
      List.getElem?_set]
    by_cases h : j = j'
    · simp [← h, hj]
    · simp [h, Ne.symm h]
  · rw [if_neg hi, if_neg (fun h => hi h.1)]

/-! ### Sizes -/

theorem Shaped.empty : Shaped q s ([] : Items α) where
  slots _ _ h := by cases h
  block _ _ _ h := by cases h

theorem Shaped.grow (h : Shaped q s items) : Shaped q s (items ++ List.replicate n none) := by
  refine ⟨fun i ss hss => h.slots i ss ?_, fun i j b hb => h.block i j b ?_⟩
  · rwa [slots_grow] at hss
  · rwa [block_grow] at hb

theorem Shaped.setSlots (h : Shaped q s items) (hi : i < items.length)
    (hnone : Blocks.slots items i = none) :
    Shaped q s (setSlots items i (List.replicate s none)) := by
  refine ⟨fun i' ss hss => ?_, fun i' j' b hb => ?_⟩
  · rw [slots_setSlots hi] at hss
    split_ifs at hss
    · rw [← Option.some.inj hss, List.length_replicate]
    · exact h.slots i' ss hss
  · rw [block_setSlots hi hnone] at hb
    exact h.block i' j' b hb

theorem Shaped.setBlock (h : Shaped q s items) (hslots : Blocks.slots items i = some ss)
    (hj : j < ss.length) (hb : b.length = q) : Shaped q s (setBlock items i j b) := by
  refine ⟨fun i' ss' hss => ?_, fun i' j' b' hb' => ?_⟩
  · rw [slots_setBlock] at hss
    split_ifs at hss
    · rw [hslots] at hss
      rw [← Option.some.inj hss, List.length_set]
      exact h.slots i ss hslots
    · exact h.slots i' ss' hss
  · rw [block_setBlock hslots hj] at hb'
    split_ifs at hb'
    · rw [← Option.some.inj hb', hb]
    · exact h.block i' j' b' hb'

theorem length_splice (h : o + bytes.length ≤ b.length) :
    (splice b o bytes).length = b.length := by
  simp only [splice, List.length_append, List.length_take, List.length_drop]
  omega

theorem getElem?_splice_before (h : i < o) (hb : o ≤ b.length) :
    (splice b o bytes)[i]? = b[i]? := by
  rw [splice, List.append_assoc, List.getElem?_append_left (by rw [List.length_take]; omega),
    List.getElem?_take_of_lt h]

theorem getElem?_splice_from (hb : o ≤ b.length) :
    (splice b o bytes)[o + i]? = (bytes ++ b.drop (o + bytes.length))[i]? := by
  have hlen : (b.take o).length = o := by
    rw [List.length_take]
    omega
  rw [splice, List.append_assoc, List.getElem?_append_right (by omega), hlen,
    Nat.add_sub_cancel_left]

/-! ### The file that is stored -/

@[simp] theorem contents_empty : contents q s ([] : Items α) p = none := rfl

@[simp] theorem contents_grow :
    contents q s (items ++ List.replicate n none) p = contents q s items p := by
  rw [contents, block_grow]
  rfl

theorem contents_setSlots (hi : i < items.length) (hnone : slots items i = none) :
    contents q s (setSlots items i (List.replicate n none)) p = contents q s items p := by
  rw [contents, block_setSlots hi hnone]
  rfl

/-- A position stores something exactly if it has a block: the blocks of a store that is `Shaped`
are full. -/
theorem Shaped.isSome_contents (h : Shaped q s items) (hq : 0 < q) :
    (contents q s items p).isSome =
      (Blocks.block items (p / (q * s)) (p % (q * s) / q)).isSome := by
  rw [contents]
  cases hb : Blocks.block items (p / (q * s)) (p % (q * s) / q) with
  | none => rfl
  | some b =>
      have hlt : p % (q * s) % q < b.length := by
        rw [h.block _ _ _ hb]
        exact Nat.mod_lt _ hq
      rw [Option.bind_some, List.getElem?_eq_getElem hlt]
      rfl

/-- What is stored is a file with holes: a position that has no block is in a hole, and one block is
a hole as a whole. -/
def Shaped.file (h : Shaped q s items) (hq : 0 < q) (size : ℕ) : SparseFile α where
  quantum := q
  size := size
  cells := contents q s items
  quantum_pos := hq
  even p p' hp := by
    obtain ⟨hdiv, hmod⟩ := (div_eq_iff (s := s)).mp hp
    rw [h.isSome_contents hq, h.isSome_contents hq, hdiv, hmod]

/-- The block of a position is replaced: the positions of that block find the cells of the new one,
and all others what they found before. -/
theorem contents_setBlock (hslots : slots items (pos / (q * s)) = some ss)
    (hj : pos % (q * s) / q < ss.length) :
    contents q s (setBlock items (pos / (q * s)) (pos % (q * s) / q) b) p =
      if p / q = pos / q then b[p % q]? else contents q s items p := by
  rw [if_congr (div_eq_iff (s := s)) rfl rfl, contents, block_setBlock hslots hj, offset_eq]
  split_ifs
  · rfl
  · rw [contents, offset_eq]

/-- The positions of a block find its cells, each by its remainder. -/
theorem contents_of_block (hp : p / q = pos / q)
    (hb : block items (pos / (q * s)) (pos % (q * s) / q) = some b) :
    contents q s items p = b[p % q]? := by
  obtain ⟨hdiv, hmod⟩ := (div_eq_iff (s := s)).mp hp
  rw [contents, hdiv, hmod, hb, offset_eq]
  rfl

theorem contents_of_hole (hp : p / q = pos / q)
    (hb : block items (pos / (q * s)) (pos % (q * s) / q) = none) :
    contents q s items p = none := by
  obtain ⟨hdiv, hmod⟩ := (div_eq_iff (s := s)).mp hp
  rw [contents, hdiv, hmod, hb]
  rfl

section File

variable {f : SparseFile α}

/-- **A new block** fills the hole at its positions, and only there: the file is as after a write of
no bytes to it. -/
theorem contents_allocate (hf : f.cells = contents f.quantum s items)
    (hslots : slots items (pos / (f.quantum * s)) = some ss)
    (hj : pos % (f.quantum * s) / f.quantum < ss.length)
    (hnone : block items (pos / (f.quantum * s)) (pos % (f.quantum * s) / f.quantum) = none)
    (fresh : ℕ → α) :
    contents f.quantum s (setBlock items (pos / (f.quantum * s)) (pos % (f.quantum * s) / f.quantum)
      ((List.range f.quantum).map fresh)) =
        (f.put pos [] fun p => fresh (p % f.quantum)).cells := by
  funext p
  rw [contents_setBlock hslots hj]
  by_cases hblock : p / f.quantum = pos / f.quantum
  · have hhole : f.cells p = none := by
      rw [hf]
      exact contents_of_hole hblock hnone
    have hlt : p % f.quantum < f.quantum := Nat.mod_lt p f.quantum_pos
    simp [SparseFile.put, hblock, hhole, hlt]
  · simp [SparseFile.put, hblock, hf]

/-- **Cells stored in a block** are stored in the file, at the positions they belong to. -/
theorem contents_splice (hf : f.cells = contents f.quantum s items)
    (hslots : slots items (pos / (f.quantum * s)) = some ss)
    (hj : pos % (f.quantum * s) / f.quantum < ss.length)
    (hb : block items (pos / (f.quantum * s)) (pos % (f.quantum * s) / f.quantum) = some b)
    (hlen : b.length = f.quantum) (hroom : bytes.length ≤ f.room pos) (fresh : ℕ → α) :
    contents f.quantum s (setBlock items (pos / (f.quantum * s)) (pos % (f.quantum * s) / f.quantum)
      (splice b (pos % f.quantum) bytes)) = (f.put pos bytes fresh).cells := by
  funext p
  rw [contents_setBlock hslots hj]
  by_cases hblock : p / f.quantum = pos / f.quantum
  · rw [if_pos hblock]
    have hcell : f.cells p = b[p % f.quantum]? := by
      rw [hf]
      exact contents_of_block hblock hb
    have hlt : p % f.quantum < b.length := by
      rw [hlen]
      exact Nat.mod_lt p f.quantum_pos
    have hroom' : pos % f.quantum + bytes.length ≤ b.length := by
      have hmod := Nat.mod_lt pos f.quantum_pos
      unfold SparseFile.room at hroom
      omega
    have hp := Nat.div_add_mod p f.quantum
    have hpos := Nat.div_add_mod pos f.quantum
    rw [hblock] at hp
    rw [List.getElem?_eq_getElem hlt] at hcell
    simp only [SparseFile.put, if_pos hblock, hcell, Option.getD_some]
    by_cases hle : pos ≤ p
    · -- from the place on where the cells were stored
      obtain ⟨i, rfl⟩ := Nat.exists_eq_add_of_le hle
      have hmod : (pos + i) % f.quantum = pos % f.quantum + i := by omega
      simp only [if_pos hle, Nat.add_sub_cancel_left, hmod]
      rw [getElem?_splice_from (by omega), List.getD_eq_getElem?_getD]
      by_cases hi : i < bytes.length
      · rw [List.getElem?_append_left hi, List.getElem?_eq_getElem hi, Option.getD_some]
      · have hi : bytes.length ≤ i := Nat.le_of_not_lt hi
        rw [List.getElem?_append_right hi, List.getElem?_eq_none hi, Option.getD_none,
          List.getElem?_drop, ← List.getElem?_eq_getElem]
        congr 1
        omega
    · rw [if_neg hle, getElem?_splice_before (by omega) (by omega), List.getElem?_eq_getElem hlt]
  · rw [if_neg hblock, SparseFile.put, ← hf]
    simp only [if_neg hblock]

end File

end LeipoCode.Blocks
