import LeipoCode.Scull.Model

/-!
# What the memory device stores

* `Access.Fits` — with parameters that the arithmetic can take, the item, the index and the offset
  that `scull_read` and `scull_write` compute are quotients and remainders;
* `Stored` — **the device stores a file with holes**: what `scull_follow`, `kmalloc` and the copies
  do to the list is what `SparseFile` says of the file.

The relation `Stored` is what a call may assume under the semaphore, and each of its lemmas is about
one statement: the list is walked, an array or a block is put in, bytes are copied.  In between the
file does not stand still with the device.  A new block fills a hole with bytes nobody wrote, so the
file with it is `SparseFile.put` of no bytes, and the copy then puts in the ones of the call.

None of it goes through for a call whose parameters are not those of the device.  `Access.Current`
says that they are, and that the position is one whose item an `int` can count: both are needed for
`Access.Fits`, which all of the arithmetic rests on.

The arithmetic of the source is in `int`s and `size_t`s: the number of the item, of the slot and the
offset are computed from the position by divisions, and come back to `int` by truncation.
`Access.Fits` says under which bounds this is what it is meant to be, and its lemmas are the only
place where the widths of the types are looked at.  Behind them all is `Lib.Blocks`, which has the
same quotients and remainders without a bound.
-/

namespace LeipoCode.Scull

open Blocks

/-! ### Where a position is -/

/-- What an `int` has room for stays as it is when it is put into one. -/
theorem toInt_eq {n : ℤ} (h0 : 0 ≤ n) (hlt : n < 2 ^ 31) : toInt n = n :=
  Int.bmod_eq_of_le (by omega) (by omega)

/-- Parameters with which the arithmetic is what it is meant to be: neither is zero, and an item is
not longer than an `int` can say. -/
structure Valid (quantum qset : ℤ) : Prop where
  quantum_pos : 0 < quantum
  qset_pos : 0 < qset
  small : quantum * qset < 2 ^ 31

/-- The file position is in an item that an `int` can count, and the parameters of the call are
these. -/
structure Access.Fits (c : Access) (q s : ℕ) : Prop where
  quantum : c.quantum = q
  qset : c.qset = s
  quantum_pos : 0 < q
  qset_pos : 0 < s
  small : q * s < 2 ^ 31
  pos : c.pos < q * s * 2 ^ 31

namespace Access.Fits

variable {c : Access} {q s : ℕ}

/-- The size of an item is the product, which does not wrap. -/
theorem itemsize (h : c.Fits q s) : c.itemsize = (q * s : ℕ) := by
  have hsmall := h.small
  rw [Access.itemsize, h.quantum, h.qset, ← Int.natCast_mul]
  exact toInt_eq (Int.natCast_nonneg _) (by exact_mod_cast hsmall)

/-- The number of the item is a quotient, which an `int` has room for by the bound on the position.
-/
theorem item (h : c.Fits q s) : c.item = (c.pos / (q * s) : ℕ) := by
  have hlt : c.pos / (q * s) < 2 ^ 31 := Nat.div_lt_of_lt_mul h.pos
  rw [Access.item, h.itemsize, ← Int.ofNat_tdiv]
  exact toInt_eq (Int.natCast_nonneg _) (by exact_mod_cast hlt)

/-- So `scull_follow` goes on as often as there are items before the one of the position. -/
theorem hops (h : c.Fits q s) : c.hops = c.pos / (q * s) := by
  have hlt : c.pos / (q * s) < 2 ^ 31 := Nat.div_lt_of_lt_mul h.pos
  rw [Access.hops, h.item]
  generalize c.pos / (q * s) = n at hlt
  omega

/-- The position in the item is a remainder, which an `int` has room for as the item does. -/
theorem rest (h : c.Fits q s) : c.rest = (c.pos % (q * s) : ℕ) := by
  have hlt : c.pos % (q * s) < q * s := Nat.mod_lt _ (Nat.mul_pos h.quantum_pos h.qset_pos)
  have hsmall := h.small
  rw [Access.rest, h.itemsize, ← Int.ofNat_tmod]
  exact toInt_eq (Int.natCast_nonneg _) (by exact_mod_cast hlt.trans hsmall)

/-- The index of the slot is a quotient of that remainder. -/
theorem sPos (h : c.Fits q s) : c.sPos = (c.pos % (q * s) / q : ℕ) := by
  rw [Access.sPos, h.rest, h.quantum, ← Int.ofNat_tdiv]

/-- The offset is the remainder by the quantum, wherever the item begins, for an item is a whole
number of quanta. -/
theorem qPos (h : c.Fits q s) : c.qPos = (c.pos % q : ℕ) := by
  rw [Access.qPos, h.rest, h.quantum, ← Int.ofNat_tmod, offset_eq]

/-- A call is cut at the end of the quantum, as the comment in the source has it. -/
theorem clip (h : c.Fits q s) (count : ℕ) : c.clip count = min count (q - c.pos % q) := by
  have hlt : c.pos % q < q := Nat.mod_lt _ h.quantum_pos
  have hsmall : q < 2 ^ 31 := (Nat.le_mul_of_pos_right q h.qset_pos).trans_lt h.small
  rw [Access.clip, h.qPos, h.quantum, Pipe.toSize]
  congr 1
  omega

/-- Neither of the two divisions is by zero. -/
theorem itemsize_ne_zero (h : c.Fits q s) : ¬ (c.itemsize = 0 ∨ c.quantum = 0) := by
  have hpos := Nat.mul_pos h.quantum_pos h.qset_pos
  have hq := h.quantum_pos
  rw [h.itemsize, h.quantum]
  omega

end Access.Fits

/-! ### What is stored -/

/-- The device stores the file: it has its size and its quantum, every array and every block has the
length the parameters say (`shaped`), and what is in the blocks is what is in the file, with a hole
where there is none. -/
structure Stored (d : ScullDev) (f : SparseFile UInt8) : Prop where
  valid : Valid d.quantum d.qset
  quantum : d.quantum = f.quantum
  size : d.size = f.size
  shaped : Shaped f.quantum d.qset.toNat d.data
  cells : f.cells = contents f.quantum d.qset.toNat d.data

/-- The call works with the parameters of the device, on a position they reach.  This is what holds
when nobody trims the device between the look at its parameters and the semaphore. -/
structure Access.Current (c : Access) (d : ScullDev) : Prop where
  quantum : c.quantum = d.quantum
  qset : c.qset = d.qset
  pos : (c.pos : ℤ) < d.quantum * d.qset * 2 ^ 31

/-- A call whose parameters are those of a device that stores a file computes as it should. -/
theorem Access.Current.fits {c : Access} {d : ScullDev} {f : SparseFile UInt8}
    (h : c.Current d) (hs : Stored d f) : c.Fits f.quantum d.qset.toNat := by
  have hqset_pos := hs.valid.qset_pos
  have hqset : (d.qset.toNat : ℤ) = d.qset := Int.toNat_of_nonneg hqset_pos.le
  have hpos := h.pos
  have hsmall := hs.valid.small
  rw [hs.quantum, ← hqset] at hpos hsmall
  refine ⟨h.quantum.trans hs.quantum, h.qset.trans hqset.symm, f.quantum_pos, by omega, ?_, ?_⟩
  · exact_mod_cast hsmall
  · exact_mod_cast hpos

namespace Stored

variable {d d' : ScullDev} {f f' : SparseFile UInt8} {c : Access} {b bytes : List UInt8} {n : ℕ}

/-- A block of the device has the length of a quantum. -/
theorem block_length (h : Stored d f) (hb : c.block d.data = some b) :
    b.length = f.quantum := h.shaped.block _ _ _ hb

/-- No index is outside its array: all arrays have the length of the `qset` of the device, which is
that of the call. -/
theorem not_wildSlot (h : Stored d f) (hc : c.Current d) : ¬ c.WildSlot d.data := by
  rintro ⟨ss, hss, hwild⟩
  have hfits := hc.fits h
  refine hwild ?_
  rw [hfits.sPos, h.shaped.slots _ _ hss]
  have hlt := slot_lt (p := c.pos) hfits.quantum_pos hfits.qset_pos
  exact ⟨Int.natCast_nonneg _, by exact_mod_cast hlt⟩

/-- No copy goes outside its block, if its count is cut at the end of the quantum. -/
theorem inside (h : Stored d f) (hc : c.Current d) (hb : c.block d.data = some b)
    (hn : n ≤ f.quantum - c.pos % f.quantum) : c.Inside n b := by
  have hmod := Nat.mod_lt c.pos f.quantum_pos
  rw [Access.Inside, (hc.fits h).qPos, h.block_length hb]
  omega

/-- A count is cut to the room that the file has in the quantum from the position on. -/
theorem clip (h : Stored d f) (hc : c.Current d) : c.clip n = min n (f.room c.pos) :=
  (hc.fits h).clip n

/-- The block that a call gets to is the one that `contents` finds for its position. -/
theorem block_eq (h : Stored d f) (hc : c.Current d) : c.block d.data =
    Blocks.block d.data (c.pos / (f.quantum * d.qset.toNat))
      (c.pos % (f.quantum * d.qset.toNat) / f.quantum) := by
  have hfits := hc.fits h
  rw [Access.block, hfits.hops, hfits.sPos, Int.toNat_natCast]

/-- Where the call finds no block the file has a hole. -/
theorem hole (h : Stored d f) (hc : c.Current d) (hb : c.block d.data = none) :
    f.cells c.pos = none := by
  rw [h.cells]
  exact contents_of_hole rfl (by rw [← h.block_eq hc, hb])

/-- And where the item has no array, there is none of its blocks. -/
theorem hole_of_slots (h : Stored d f) (hc : c.Current d) (hs : slots d.data c.hops = none) :
    f.cells c.pos = none :=
  h.hole hc (by rw [Access.block, Blocks.block, hs, Option.bind_none])

/-- A block is what its positions find, from the position of the call up to the end of the quantum.
-/
theorem cells_block (h : Stored d f) (hc : c.Current d) (hb : c.block d.data = some b) {i : ℕ}
    (hi : i < f.room c.pos) : f.cells (c.pos + i) = b[c.pos % f.quantum + i]? := by
  rw [h.cells, contents_of_block (SparseFile.div_eq_of_lt_room hi) (by rw [← h.block_eq hc, hb])]
  rw [SparseFile.mod_eq_of_lt_room hi]

/-- Where there is a block there is no hole, for a block has a byte for every offset. -/
theorem cells_ne_none (h : Stored d f) (hc : c.Current d) (hb : c.block d.data = some b) :
    f.cells c.pos ≠ none := by
  have hmod := Nat.mod_lt c.pos f.quantum_pos
  have hcell := h.cells_block hc hb (i := 0) (Nat.sub_pos_of_lt hmod)
  rw [Nat.add_zero, Nat.add_zero, List.getElem?_eq_getElem (by rwa [h.block_length hb])] at hcell
  rw [hcell]
  exact Option.some_ne_none _

/-- What a copy out of a block finds is what the file says: up to the count, the end of the file and
the end of the quantum. -/
theorem readAt_eq (h : Stored d f) (hc : c.Current d) (hb : c.block d.data = some b) {count : ℕ}
    (hn : n = min (min count (f.size - c.pos)) (f.room c.pos)) :
    ByteFile.readAt b c.qPos.toNat n = f.readAt c.pos count := by
  have hq : c.qPos.toNat = c.pos % f.quantum := by
    rw [(hc.fits h).qPos, Int.toNat_natCast]
  have hlen : (ByteFile.readAt b c.qPos.toNat n).length = n := by
    have hroom : n ≤ f.room c.pos := hn ▸ Nat.min_le_right _ _
    rw [ByteFile.length_readAt, h.block_length hb, hq]
    exact Nat.min_eq_left hroom
  symm
  refine SparseFile.readAt_block (fun i hi => ?_) ?_
  · rw [hlen] at hi
    rw [ByteFile.getElem?_readAt hi, h.cells_block hc hb (by omega), hq]
  · rw [hlen, hn, Nat.min_assoc]

/-- The file depends on the list, the parameters and the size of the device, and on nothing else of
it. -/
theorem congr (h : Stored d f) (hdata : d'.data = d.data) (hquantum : d'.quantum = d.quantum)
    (hqset : d'.qset = d.qset) (hsize : d'.size = d.size) : Stored d' f := by
  obtain ⟨h1, h2, h3, h4, h5⟩ := h
  constructor
  · rwa [hquantum, hqset]
  · rwa [hquantum]
  · rwa [hsize]
  · rwa [hqset, hdata]
  · rwa [hqset, hdata]

/-- The device stores any file that has the same quantum, size and bytes. -/
theorem of_cells (h : Stored d f) (hquantum : f'.quantum = f.quantum) (hsize : f'.size = f.size)
    (hcells : f'.cells = f.cells) : Stored d f' := by
  obtain ⟨h1, h2, h3, h4, h5⟩ := h
  constructor
  · exact h1
  · rwa [hquantum]
  · rwa [hsize]
  · rwa [hquantum]
  · rwa [hquantum, hcells]

/-- `scull_follow` changes nothing that is stored: it puts empty items to the end of the list. -/
theorem follow (h : Stored d f) (hops granted : ℕ) :
    Stored { d with data := (scullFollow hops granted d.data).1 } f := by
  refine ⟨h.valid, h.quantum, h.size, ?_, ?_⟩
  · rw [scullFollow_eq]
    exact h.shaped.grow
  · funext p
    rw [h.cells, scullFollow_eq]
    exact contents_grow.symm

/-- An item that `scull_follow` does not get to has no block, so a read that returns nothing is one
in a hole. -/
theorem hole_of_follow (h : Stored d f) (hc : c.Current d) {granted : ℕ}
    (hnone : (scullFollow c.hops granted d.data).2 = false) : f.cells c.pos = none := by
  rw [scullFollow_eq, decide_eq_false_iff_not] at hnone
  refine h.hole_of_slots hc ?_
  rw [slots, List.getElem?_eq_none (by omega)]
  rfl

/-- If `scull_follow` gets to the item, the list is long enough for it. -/
theorem hops_lt {items : Items UInt8} {hops granted : ℕ}
    (hfound : (scullFollow hops granted items).2 = true) :
    hops < (scullFollow hops granted items).1.length := by
  rw [scullFollow_eq, decide_eq_true_eq] at hfound
  rw [scullFollow_eq, List.length_append, List.length_replicate]
  omega

/-- An array of new slots is empty, so the item has no block before and after, and the file is the
same. -/
theorem kmallocSlots (h : Stored d f) (hc : c.Current d) (hnone : slots d.data c.hops = none)
    (hlen : c.hops < d.data.length) :
    Stored { d with data := setSlots d.data c.hops (List.replicate c.qset.toNat none) } f := by
  rw [hc.qset]
  refine ⟨h.valid, h.quantum, h.size, h.shaped.setSlots hlen hnone, ?_⟩
  funext p
  rw [h.cells]
  exact (contents_setSlots hlen hnone).symm

/-- A new block fills the hole with what `kmalloc` has left in it.  From now on the file has bytes
there, which nobody wrote. -/
theorem kmallocBlock (h : Stored d f) (hc : c.Current d) {ss : Slots UInt8}
    (hss : slots d.data c.hops = some ss) (hnone : c.block d.data = none) (junk : ℕ → UInt8) :
    Stored
      { d with
        data := setBlock d.data c.hops c.sPos.toNat ((List.range c.quantum.toNat).map junk) }
      (f.put c.pos [] fun p => junk (p % f.quantum)) := by
  have hfits := hc.fits h
  have hj : c.pos % (f.quantum * d.qset.toNat) / f.quantum < ss.length := by
    rw [h.shaped.slots _ _ hss]
    exact slot_lt hfits.quantum_pos hfits.qset_pos
  rw [h.block_eq hc] at hnone
  rw [hfits.hops] at hss ⊢
  rw [hfits.sPos, hfits.quantum, Int.toNat_natCast, Int.toNat_natCast]
  refine ⟨h.valid, h.quantum, h.size, h.shaped.setBlock hss hj (by simp), ?_⟩
  exact (contents_allocate h.cells hss hj hnone junk).symm

/-- Bytes copied into the block are put into the file.  `hlen` says that they do not go further than
the quantum; what `fresh` says of the hole does not matter, as there is none. -/
theorem copyIn (h : Stored d f) (hc : c.Current d) (hb : c.block d.data = some b)
    (hlen : bytes.length ≤ f.room c.pos) (fresh : ℕ → UInt8) :
    Stored { d with data := setBlock d.data c.hops c.sPos.toNat (splice b c.qPos.toNat bytes) }
      (f.put c.pos bytes fresh) := by
  have hfits := hc.fits h
  have hblock := h.block_length hb
  rw [h.block_eq hc] at hb
  obtain ⟨ss, hss, -⟩ := Option.bind_eq_some_iff.mp hb
  have hj : c.pos % (f.quantum * d.qset.toNat) / f.quantum < ss.length := by
    rw [h.shaped.slots _ _ hss]
    exact slot_lt hfits.quantum_pos hfits.qset_pos
  have hsplice : (splice b (c.pos % f.quantum) bytes).length = f.quantum := by
    have hmod := Nat.mod_lt c.pos f.quantum_pos
    unfold SparseFile.room at hlen
    rw [length_splice (by omega), hblock]
  rw [hfits.hops, hfits.sPos, hfits.qPos, Int.toNat_natCast, Int.toNat_natCast]
  refine ⟨h.valid, h.quantum, h.size, h.shaped.setBlock hss hj hsplice, ?_⟩
  exact (contents_splice h.cells hss hj hb hblock hlen fresh).symm

end Stored

end LeipoCode.Scull
