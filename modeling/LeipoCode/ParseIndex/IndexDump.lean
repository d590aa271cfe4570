import Mathlib.Algebra.BigOperators.Group.Finset.Basic
import LeipoCode.ParseIndex.Model

/-!
# When the dump of the index ends

One pass of the outer loop either writes a line for every whole record that was read, or,
when `read` failed, leaves the buffer: the quotient of -1 and a `size_t` is larger than the
buffer.  So before a read fails `IndexRead` is the number of whole records, as an `int`, and
the loop ends as soon as that number has reached `IndexCnt`.

* `dumpChunk_ok`, `dumpChunk_outOfBounds` — the inner loop;
* `dumpPass_some`, `dumpPass_none` — the body of the outer one;
* `dumpIndex_status` — what a run has come to after any number of reads;
* `index_dump_ends_iff` — when it ends and stays inside its buffer.

The environment is a result for the `lseek` that asks for the length and one for each of the reads,
which may deliver any bytes, but not more than they were asked for (`ReadsFit`).  The condition is
on these: that the records that were delivered are as many as the length has promised before a read
fails.  What happens after the buffer was left is undefined in C, so a run that leaves it ends
there.

### Where the types matter

`IndexRead` and `IndexCnt` are of type `int`, and what is added to the one and stored into the other
is of type `size_t`; both come back by truncation.  So the loop compares truncated numbers, and the
condition of the result compares the same two: it does not ask that the file is small.  That a read
which fails makes the inner loop run away needs one fact about the types only, that the largest
`size_t`, divided by the size of a record, is more than a chunk (`lt_records_neg_one`), and this is
so on every platform whose `size_t` has 32 bits or more.

A line of the index always fits into `str`, with the widths of its four numbers
(`sprintf_indexLine`), so the only fault of this dump is an index outside the array.
-/

namespace LeipoCode.ParseIndex

open ByteFile Printf

theorem READ_IDX_CHUNK_eq : READ_IDX_CHUNK = 1048576 := by
  decide

/-! ### `int` -/

section Int32

variable {a b : ℤ} {n : ℕ}

theorem toInt32_eq (a : ℤ) : toInt32 a = a.bmod (2 ^ 32) :=
  BitVec.toInt_ofInt a

theorem toInt32_toInt32_add : toInt32 (toInt32 a + b) = toInt32 (a + b) := by
  simp [toInt32, BitVec.ofInt_add]

theorem toInt32_natCast_le : toInt32 n ≤ n := by
  rw [toInt32_eq, Int.bmod]
  split_ifs <;> omega

theorem toInt32_of_lt (hn : n < 2 ^ 31) : toInt32 n = n := by
  rw [toInt32_eq, Int.bmod]
  split_ifs <;> omega

/-- A conversion to an unsigned type that is wide enough changes nothing. -/
theorem toNat_natCast_emod {w : ℕ} (hn : n < 2 ^ w) : ((n : ℤ) % 2 ^ w).toNat = n := by
  have hcast : (n : ℤ) % 2 ^ w = (n % 2 ^ w : ℕ) := by
    push_cast
    rfl
  rw [hcast, Int.toNat_natCast, Nat.mod_eq_of_lt hn]

end Int32

/-! ### The size of a record -/

namespace Abi

variable (abi : Abi)

theorem recordSize_pos : 0 < abi.recordSize :=
  Nat.succ_pos _

theorem recordSize_le : abi.recordSize ≤ 24 := by
  rcases abi.align with h | h <;> simp [recordSize, h]

theorem two_pow_le : 2 ^ 32 ≤ 2 ^ abi.sizeWidth :=
  Nat.pow_le_pow_right (by decide) abi.int_le_size

theorem chunkSize_lt : abi.chunkSize < 2 ^ 31 := by
  have hle := Nat.mul_le_mul_left READ_IDX_CHUNK abi.recordSize_le
  rw [READ_IDX_CHUNK_eq] at hle
  rw [chunkSize, READ_IDX_CHUNK_eq]
  omega

/-- What was read is counted in whole records: no conversion on the way to `size_t` and `int`
changes the quotient. -/
theorem records_natCast {n : ℕ} (hn : n ≤ abi.chunkSize) :
    abi.records n = n / abi.recordSize := by
  have hlt := abi.chunkSize_lt
  have hle := abi.two_pow_le
  rw [records, toNat_natCast_emod (by omega)]

/-- The records of one read fit into the buffer, if the read delivers no more than it was asked for.
-/
theorem records_le {n : ℕ} (hn : n ≤ abi.chunkSize) : abi.records n ≤ READ_IDX_CHUNK := by
  rw [records_natCast abi hn]
  exact Nat.div_le_of_le_mul (by rwa [Nat.mul_comm])

/-- **The quotient of -1** is that of the largest `size_t`, so a read that fails counts as more
records than the buffer has. -/
theorem lt_records_neg_one : READ_IDX_CHUNK < abi.records (-1) := by
  have hle := abi.two_pow_le
  have hmod : ((-1 : ℤ) % 2 ^ abi.sizeWidth).toNat = 2 ^ abi.sizeWidth - 1 := by
    have hcast : (2 : ℤ) ^ abi.sizeWidth = (2 ^ abi.sizeWidth : ℕ) := by
      push_cast
      rfl
    rw [hcast, ← Int.add_emod_right, Int.emod_eq_of_lt (by omega) (by omega)]
    omega
  rw [records, hmod, READ_IDX_CHUNK_eq, Nat.lt_iff_add_one_le,
    Nat.le_div_iff_mul_le abi.recordSize_pos]
  have hsize := abi.recordSize_le
  omega

end Abi

/-! ### A line -/

section IndexLine

variable {i : ℕ} {r : IndexInfo}

theorem length_padLeft_dec_le {n : ℤ} (hn : n.natAbs < 10 ^ 10) :
    (padLeft 8 (dec n)).length ≤ 11 :=
  length_padLeft_le (length_dec_le (by decide) hn) (by decide)

theorem length_formatIndex (i time size : ℤ) (pos : ℕ) :
    (formatIndex i time size pos).length =
      55 + (padLeft 8 (dec i)).length + (padLeft 8 (dec time)).length +
        (padLeft 8 (dec size)).length + (padLeft 16 (hex pos)).length := by
  unfold formatIndex
  generalize padLeft 8 (dec i) = number, padLeft 8 (dec time) = time,
    padLeft 8 (dec size) = size, padLeft 16 (hex pos) = pos
  simp
  omega

/-- A line fits into `str`, whatever its record is, since its four numbers have a largest width
each. -/
theorem sprintf_indexLine (hi : i ≤ READ_IDX_CHUNK) :
    sprintf (indexLine i r) = .ok (indexLine i r) := by
  rw [READ_IDX_CHUNK_eq] at hi
  have hnumber : (padLeft 8 (dec i)).length ≤ 11 := length_padLeft_dec_le (by omega)
  have htime : (padLeft 8 (dec r.packetTimeInMs.toInt)).length ≤ 11 := by
    have hlt := BitVec.toInt_lt (x := r.packetTimeInMs)
    have hge := BitVec.le_toInt r.packetTimeInMs
    exact length_padLeft_dec_le (by omega)
  have hsize : (padLeft 8 (dec r.size.toNat)).length ≤ 11 := by
    have hlt := r.size.isLt
    exact length_padLeft_dec_le (by omega)
  have hpos : (padLeft 16 (hex r.packetPosition.toNat)).length ≤ 16 :=
    length_padLeft_le (length_hex_le (by decide) r.packetPosition.isLt) le_rfl
  apply if_pos
  rw [indexLine, length_formatIndex, STR_SIZE]
  omega

end IndexLine

/-! ### A pass -/

section Pass

variable {abi : Abi} {buffer : List Byte} {count i : ℕ} {s : DumpState}

/-- The lines of the records `i`, ... , `i + count - 1` of the buffer, numbered by their places in
it. -/
def chunkText (abi : Abi) (buffer : List Byte) (count i : ℕ) : List Char :=
  (List.range' i count).flatMap fun k => indexLine k (abi.record buffer k)

/-- **The inner loop inside the buffer** writes a line for each of its records, and meets no fault.
-/
theorem dumpChunk_ok (h : i + count ≤ READ_IDX_CHUNK) :
    dumpChunk abi buffer count i = .ok (chunkText abi buffer count i) := by
  induction count generalizing i with
  | zero => rfl
  | succ count ih =>
      have hi : i < READ_IDX_CHUNK := by omega
      simp only [dumpChunk, indexAt, if_pos hi, bind, Except.bind, sprintf_indexLine hi.le,
        ih (i := i + 1) (by omega), pure, Except.pure, chunkText, List.range'_succ,
        List.flatMap_cons]

/-- **The inner loop leaves the buffer** at its end, if it is to write more lines than the array has
records. -/
theorem dumpChunk_outOfBounds (hi : i ≤ READ_IDX_CHUNK) (h : READ_IDX_CHUNK < i + count) :
    dumpChunk abi buffer count i = .error (.outOfBounds READ_IDX_CHUNK) := by
  induction count generalizing i with
  | zero => omega
  | succ count ih =>
      rcases hi.lt_or_eq with hlt | rfl
      · simp only [dumpChunk, indexAt, if_pos hlt, bind, Except.bind, sprintf_indexLine hlt.le,
          ih (i := i + 1) hlt (by omega)]
      · simp only [dumpChunk, indexAt, lt_irrefl, if_false, bind, Except.bind]

/-- The whole records that a read delivers.  A record that is cut off is not counted, and neither is
a read that fails. -/
def deliveredRecords (abi : Abi) (read : Option (List Byte)) : ℕ :=
  (read.getD []).length / abi.recordSize

/-- A pass over what was read counts the whole records and writes their lines.  The rest of the
buffer is what it was cleared to. -/
theorem dumpPass_some {bytes : List Byte} (h : bytes.length ≤ abi.chunkSize) :
    dumpPass abi (some bytes) s =
      .ok ⟨toInt32 (s.indexRead + deliveredRecords abi (some bytes)),
        s.out ++ chunkText abi (overwrite abi.zeroed bytes)
          (deliveredRecords abi (some bytes)) 0⟩ := by
  have hrecords : abi.records (bytesRead (some bytes)) = deliveredRecords abi (some bytes) :=
    abi.records_natCast h
  have hle : deliveredRecords abi (some bytes) ≤ READ_IDX_CHUNK := hrecords ▸ abi.records_le h
  have htext : dumpChunk abi (overwrite abi.zeroed bytes) (deliveredRecords abi (some bytes)) 0 =
      .ok (chunkText abi (overwrite abi.zeroed bytes) (deliveredRecords abi (some bytes)) 0) :=
    dumpChunk_ok (by omega)
  simp only [dumpPass, hrecords, Option.getD_some, htext, bind, Except.bind, pure, Except.pure]

/-- A pass after a read that failed leaves the buffer, whatever was counted before. -/
theorem dumpPass_none : dumpPass abi none s = .error (.outOfBounds READ_IDX_CHUNK) := by
  have hlt := abi.lt_records_neg_one
  have hfault : dumpChunk abi (overwrite abi.zeroed []) (abi.records (-1)) 0 =
      .error (.outOfBounds READ_IDX_CHUNK) :=
    dumpChunk_outOfBounds (Nat.zero_le _) (by omega)
  simp only [dumpPass, bytesRead, Option.getD_none, hfault, bind, Except.bind]

end Pass

/-! ### A run -/

section Run

variable {abi : Abi} {pos : ℤ} {reads : ℕ → Option (List Byte)} {n m : ℕ}

/-- The whole records of the first `n` reads, as a number without bounds: `IndexRead` is what is
left of it in an `int`. -/
def wholeRecords (abi : Abi) (reads : ℕ → Option (List Byte)) (n : ℕ) : ℕ :=
  ∑ i ∈ Finset.range n, deliveredRecords abi (reads i)

/-- The first `n` reads succeed: each delivers something, if only nothing at all, as at the end of a
file. -/
def Succeed (reads : ℕ → Option (List Byte)) (n : ℕ) : Prop := ∀ i < n, reads i ≠ none

/-- After each of the first `n` reads there are records missing, so that the loop goes on. -/
def Pending (abi : Abi) (pos : ℤ) (reads : ℕ → Option (List Byte)) (n : ℕ) : Prop :=
  ∀ m ≤ n, toInt32 (wholeRecords abi reads m) < abi.indexCnt pos

/-- The reads deliver the records that were counted before one of them fails.  The records
are counted by an `int`. -/
def Delivers (abi : Abi) (pos : ℤ) (reads : ℕ → Option (List Byte)) : Prop :=
  ∃ n, Succeed reads n ∧ abi.indexCnt pos ≤ toInt32 (wholeRecords abi reads n)

/-- No read delivers more than it was asked for, so that it stays inside the buffer.  Less it may
deliver. -/
def ReadsFit (abi : Abi) (reads : ℕ → Option (List Byte)) : Prop :=
  ∀ i bytes, reads i = some bytes → bytes.length ≤ abi.chunkSize

/-- What the loop has come to after `n` reads: it is running with the records delivered so far, has
ended, or has left its buffer at the read that failed. -/
def Status (abi : Abi) (pos : ℤ) (reads : ℕ → Option (List Byte)) (n : ℕ) : Progress → Prop
  | .running s =>
      Succeed reads n ∧ Pending abi pos reads n ∧ s.indexRead = toInt32 (wholeRecords abi reads n)
  | .exited s =>
      ∃ m ≤ n, Succeed reads m ∧ abi.indexCnt pos ≤ toInt32 (wholeRecords abi reads m) ∧
        s.indexRead = toInt32 (wholeRecords abi reads m)
  | .fault f =>
      ∃ m < n, reads m = none ∧ Pending abi pos reads m ∧ f = .outOfBounds READ_IDX_CHUNK

theorem wholeRecords_succ :
    wholeRecords abi reads (n + 1) = wholeRecords abi reads n + deliveredRecords abi (reads n) :=
  Finset.sum_range_succ _ n

theorem wholeRecords_mono : Monotone (wholeRecords abi reads) :=
  monotone_nat_of_le_succ fun n => by
    rw [wholeRecords_succ]
    exact Nat.le_add_right _ _

theorem Succeed.succ (h : Succeed reads n) (hn : reads n ≠ none) : Succeed reads (n + 1) := by
  intro i hi
  rcases Nat.lt_succ_iff_lt_or_eq.mp hi with hlt | rfl
  · exact h i hlt
  · exact hn

/-- The test of the loop, with `IndexRead` up to date: it decides between running and having ended,
as `Status` describes the two. -/
theorem status_whileTest {s : DumpState} (hsucceed : Succeed reads n)
    (hpending : ∀ m < n, toInt32 (wholeRecords abi reads m) < abi.indexCnt pos)
    (hs : s.indexRead = toInt32 (wholeRecords abi reads n)) :
    Status abi pos reads n (whileTest (abi.indexCnt pos) s) := by
  unfold whileTest
  split_ifs with htest
  · refine ⟨hsucceed, fun m hm => ?_, hs⟩
    rcases hm.lt_or_eq with hlt | rfl
    · exact hpending m hlt
    · exact hs ▸ htest
  · exact ⟨n, le_rfl, hsucceed, hs ▸ not_lt.mp htest, hs⟩

/-- A read that fails, while the loop is running, leads out of the buffer in that pass. -/
theorem dumpIndex_of_none {s : DumpState} (hn : dumpIndex abi pos reads n = .running s)
    (hread : reads n = none) :
    dumpIndex abi pos reads (n + 1) = .fault (.outOfBounds READ_IDX_CHUNK) := by
  simp only [dumpIndex, hn, hread, dumpPass_none]

/-- A read that succeeds, while the loop is running, is counted and listed, and then the test
decides. -/
theorem dumpIndex_of_some {s : DumpState} {bytes : List Byte}
    (hn : dumpIndex abi pos reads n = .running s) (hread : reads n = some bytes)
    (hbytes : bytes.length ≤ abi.chunkSize) :
    dumpIndex abi pos reads (n + 1) =
      whileTest (abi.indexCnt pos) ⟨toInt32 (s.indexRead + deliveredRecords abi (some bytes)),
        s.out ++ chunkText abi (overwrite abi.zeroed bytes)
          (deliveredRecords abi (some bytes)) 0⟩ := by
  simp only [dumpIndex, hn, hread, dumpPass_some hbytes]

/-- **What a run has come to** after `n` reads, whatever they return, by induction on their number.
-/
theorem dumpIndex_status (hreads : ReadsFit abi reads) (n : ℕ) :
    Status abi pos reads n (dumpIndex abi pos reads n) := by
  induction n with
  | zero => exact status_whileTest nofun nofun rfl
  | succ n ih =>
      cases hn : dumpIndex abi pos reads n with
      | running s =>
          rw [hn] at ih
          obtain ⟨hsucceed, hpending, hs⟩ := ih
          cases hread : reads n with
          | none =>
              rw [dumpIndex_of_none hn hread]
              exact ⟨n, n.lt_succ_self, hread, hpending, rfl⟩
          | some bytes =>
              rw [dumpIndex_of_some hn hread (hreads n bytes hread)]
              refine status_whileTest (hsucceed.succ (by simp [hread]))
                (fun m hm => hpending m (Nat.lt_succ_iff.mp hm)) ?_
              rw [hs, toInt32_toInt32_add, wholeRecords_succ, hread]
              push_cast
              rfl
      | exited s =>
          rw [hn] at ih
          simp only [dumpIndex, hn]
          obtain ⟨m, hm, hrest⟩ := ih
          exact ⟨m, hm.trans n.le_succ, hrest⟩
      | fault f =>
          rw [hn] at ih
          simp only [dumpIndex, hn]
          obtain ⟨m, hm, hrest⟩ := ih
          exact ⟨m, hm.trans n.lt_succ_self, hrest⟩

/-- The loop ends, counts no record that was not read, and stays inside its buffer. -/
structure EndsInside (abi : Abi) (pos : ℤ) (reads : ℕ → Option (List Byte)) : Prop where
  ends : ∃ n s, dumpIndex abi pos reads n = .exited s
  counted : ∀ n s, dumpIndex abi pos reads n = .running s ∨ dumpIndex abi pos reads n = .exited s →
    s.indexRead ≤ wholeRecords abi reads n
  inside : ∀ n f, dumpIndex abi pos reads n ≠ .fault f

/-- `IndexRead` is never above the number of whole records, whether the loop ends or not. -/
theorem indexRead_le (hreads : ReadsFit abi reads) {s : DumpState}
    (hs : dumpIndex abi pos reads n = .running s ∨ dumpIndex abi pos reads n = .exited s) :
    s.indexRead ≤ wholeRecords abi reads n := by
  have hstatus : Status abi pos reads n (dumpIndex abi pos reads n) := dumpIndex_status hreads n
  rcases hs with hs | hs
  · rw [hs] at hstatus
    exact hstatus.2.2.le.trans toInt32_natCast_le
  · rw [hs] at hstatus
    obtain ⟨m, hm, -, -, heq⟩ := hstatus
    exact heq.le.trans (toInt32_natCast_le.trans (Int.ofNat_le.mpr (wholeRecords_mono hm)))

/-- **The dump of the index ends inside its buffer** exactly if the records that were counted are
delivered before a read fails.  `hreads` says that no read delivers more than it was asked for, as
the kernel sees to; what the reads deliver is arbitrary otherwise, and so are the sizes of the types
and what `lseek` has returned. -/
theorem index_dump_ends_iff (hreads : ReadsFit abi reads) :
    EndsInside abi pos reads ↔ Delivers abi pos reads := by
  have hstatus (n : ℕ) : Status abi pos reads n (dumpIndex abi pos reads n) :=
    dumpIndex_status hreads n
  constructor
  · rintro ⟨⟨n, s, hn⟩, -, -⟩
    have hexited := hstatus n
    rw [hn] at hexited
    obtain ⟨m, -, hsucceed, hcounted, -⟩ := hexited
    exact ⟨m, hsucceed, hcounted⟩
  · rintro ⟨n, hsucceed, hcounted⟩
    -- a fault would come before the read that delivers the last record, or be that read
    have hinside : ∀ n' f, dumpIndex abi pos reads n' ≠ .fault f := by
      intro n' f hfault
      have hfaulted := hstatus n'
      rw [hfault] at hfaulted
      obtain ⟨m, -, hfailed, hpending, -⟩ := hfaulted
      rcases lt_or_ge m n with hlt | hge
      · exact hsucceed m hlt hfailed
      · exact absurd (hpending n hge) (not_lt.mpr hcounted)
    refine ⟨?_, fun n s hs => indexRead_le hreads hs, hinside⟩
    cases hn : dumpIndex abi pos reads n with
    | running s =>
        have hrunning := hstatus n
        rw [hn] at hrunning
        exact absurd (hrunning.2.1 n le_rfl) (not_lt.mpr hcounted)
    | exited s => exact ⟨n, s, hn⟩
    | fault f => exact absurd hn (hinside n f)

end Run

/-! ### A file of one record -/

/-- A platform of 64 bits, where both types have that width and a position is aligned to eight
bytes: the one of the runs below. -/
def lp64 : Abi := ⟨64, 64, 8, by decide, by decide, .inr rfl⟩

/-- A file of 24 bytes is counted as one record on this platform. -/
theorem indexCnt_lp64 : lp64.indexCnt 24 = 1 := by
  decide +kernel

theorem dumpIndex_lp64_zero (reads : ℕ → Option (List Byte)) :
    dumpIndex lp64 24 reads 0 = .running ⟨0, []⟩ := by
  simp only [dumpIndex, whileTest, indexCnt_lp64, zero_lt_one, if_true]

/-- The file is gone when it is read: nothing is delivered, over and over. -/
theorem dumpIndex_nothing (n : ℕ) :
    dumpIndex lp64 24 (fun _ => some []) n = .running ⟨0, []⟩ := by
  induction n with
  | zero => exact dumpIndex_lp64_zero _
  | succ n ih =>
      have hnone : deliveredRecords lp64 (some []) = 0 := Nat.zero_div _
      have hzero : toInt32 0 = 0 := by decide
      rw [dumpIndex_of_some ih rfl (Nat.zero_le _), hnone, indexCnt_lp64]
      simp [chunkText, hzero, whileTest]

/-- **Without its records the loop does not end, and a failed read leaves the buffer.** -/
theorem shrunk_file_spins :
    (∀ n, dumpIndex lp64 24 (fun _ => some []) n = .running ⟨0, []⟩) ∧
      dumpIndex lp64 24 (fun _ => none) 1 = .fault (.outOfBounds READ_IDX_CHUNK) :=
  ⟨dumpIndex_nothing, dumpIndex_of_none (dumpIndex_lp64_zero _) rfl⟩

/-- The record is delivered after a read that was cut short: one byte is missing from the first,
which counts as no record. -/
theorem late_record_ends :
    EndsInside lp64 24 fun i => some (List.replicate (if i = 1 then 24 else 23) 0) := by
  have hchunk : lp64.chunkSize = 25165824 := by decide +kernel
  refine (index_dump_ends_iff ?_).mpr ⟨2, fun i _ => nofun, ?_⟩
  · intro i bytes h
    obtain rfl := Option.some.inj h
    rw [List.length_replicate, hchunk]
    split_ifs <;> decide
  · have hone : wholeRecords lp64
        (fun i => some (List.replicate (if i = 1 then 24 else 23) 0)) 2 = 1 := by
      decide +kernel
    rw [hone, indexCnt_lp64]
    decide

end LeipoCode.ParseIndex
