import LeipoCode.RecordRead.Sections
import Mathlib.Tactic.NormNum
import Mathlib.Order.Defs.LinearOrder

/-!
# One file, two tasks

The invariant that ties the file, the two offsets, the two counters and the lock
together while every `write` is complete, and what it says of whole runs.

* `Pattern` — byte `k` is `k mod 188`.  Both buffer sizes are multiples of 188, so
  the pattern survives an append of the record buffer, and a full read at a multiple
  of the read size satisfies `check_buff`.
* `RecorderOk` — at each point of `Record_Task`, its counter and `actual_file_size`
  against the length of the file.  The task stops within one buffer of `FILE_SIZE`,
  far below where 32 bits wrap.
* `ReaderOk` — at each point of `Read_Task`, its counter against the bytes it has
  read.  It may speak of the length of the file only where the lock keeps
  `Record_Task` out, or where that task has returned.

### How it goes

The invariant has a part for each task and one for the file, and a statement of one task must keep
the part of the other.  That is why `ReaderOk` says less where it does: outside its section
`Read_Task` knows that what it has read was there, and not how long the file is now.  Bytes are only
appended and never changed, so what was read stays what is in the file.

The hypothesis on the run is that every `write` is complete.  It is used in one place, where the
file grows by a whole buffer, and with it goes the pattern: a buffer that was written in part would
shift it.

### Where the numbers come from

Both counters are `unsigned int`s, and `FILE_SIZE` is `2^30`: the recorder stops in the iteration in
which it gets there, so the file is less than one buffer longer, and a counter of 32 bits never
wraps (`RecorderOk.length_lt`, `fileSize_lt`).  A buffer of the recorder is two of the reader, so
the file is always a whole number of chunks, and a read gets a full chunk or is at the end
(`readAt_chunk`).  That is why a read that is short delivers nothing at all, and why `check_buff`,
which looks at five bytes and has to find the pattern from its start, accepts every buffer.

A statement of `Record_Task` is covered by `fileOk_recordStep` and `ReaderOk.recordStep`, one of
`Read_Task` by `readerOk_readStep` and `readStep_frame`; `inv_step` puts the four together, with the
semaphore, and `inv_run` is the induction on the run.  What a step may show (`LabelOk`) is shown
beside the invariant, since it is about the step and not about the state it leads to.
-/

namespace LeipoCode.RecordRead

open ByteFile

/-! ### The byte pattern -/

/-- Byte `k` is `k mod 188`: what both buffers have, and the whole file as long as it grows by whole
buffers. -/
def Pattern (bytes : List UInt8) : Prop :=
  ∀ k, k < bytes.length → bytes[k]? = some (patternByte k)

section Pattern

variable {file bytes : List UInt8} {off n : ℕ}

theorem patternByte_add (hoff : 188 ∣ off) (k : ℕ) : patternByte (off + k) = patternByte k := by
  obtain ⟨m, rfl⟩ := hoff
  rw [patternByte, patternByte, Nat.mul_add_mod]

theorem dvd_readBufSize : 188 ∣ READ_BUF_SIZE := ⟨3 * 1024, by norm_num [READ_BUF_SIZE]⟩

theorem recordBufSize_eq : RECORD_BUF_SIZE = 2 * READ_BUF_SIZE := by
  norm_num [RECORD_BUF_SIZE, READ_BUF_SIZE]

theorem dvd_recordBufSize : READ_BUF_SIZE ∣ RECORD_BUF_SIZE :=
  ⟨2, by rw [recordBufSize_eq, Nat.mul_comm]⟩

@[simp] theorem length_recordBuf : recordBuf.length = RECORD_BUF_SIZE := by
  rw [recordBuf, List.length_map, List.length_range]

theorem pattern_recordBuf : Pattern recordBuf := by
  intro k hk
  rw [length_recordBuf] at hk
  rw [recordBuf, List.getElem?_map, List.getElem?_range hk]
  rfl

theorem pattern_nil : Pattern [] := by
  intro k hk
  simp at hk

theorem Pattern.append (hfile : Pattern file) (hbytes : Pattern bytes)
    (hlen : 188 ∣ file.length) : Pattern (file ++ bytes) := by
  intro k hk
  rw [List.length_append] at hk
  by_cases hold : k < file.length
  · rw [List.getElem?_append_left hold, hfile k hold]
  · obtain ⟨j, rfl⟩ := Nat.exists_eq_add_of_le (Nat.le_of_not_lt hold)
    rw [List.getElem?_append_right (Nat.le_add_right _ _), Nat.add_sub_cancel_left,
      patternByte_add hlen, hbytes j (by omega)]

/-- A read at a multiple of 188 sees the pattern from its start. -/
theorem Pattern.readAt (hfile : Pattern file) (hoff : 188 ∣ off) :
    Pattern (readAt file off n) := by
  intro k hk
  rw [length_readAt] at hk
  rw [getElem?_readAt (by omega), hfile (off + k) (by omega), patternByte_add hoff]

/-- **`check_buff` accepts every full buffer of the pattern.** -/
theorem checkBuff_pattern (hlen : bytes.length = READ_BUF_SIZE) (hbytes : Pattern bytes) :
    checkBuff bytes = true := by
  have hget : ∀ k, k < READ_BUF_SIZE → bytes.getD k 0 = patternByte k := by
    intro k hk
    rw [List.getD_eq_getElem?_getD, hbytes k (by omega), Option.getD_some]
  have hsize : 3 ≤ READ_BUF_SIZE := by norm_num [READ_BUF_SIZE]
  rw [checkBuff, hget 0 (by omega), hget 1 (by omega), hget 2 (by omega),
    hget (READ_BUF_SIZE - 2) (by omega), hget (READ_BUF_SIZE - 1) (by omega)]
  simp [patternByte]

end Pattern

/-! ### The 32-bit counters -/

/-- An addition to `TotalSize` that stays below `2^32` does not wrap. -/
theorem toNat_add_ofInt {total : BitVec 32} {n : ℕ} (h : total.toNat + n < 2 ^ 32) :
    (total + BitVec.ofInt 32 n).toNat = total.toNat + n := by
  rw [BitVec.ofInt_natCast, BitVec.toNat_add, BitVec.toNat_ofNat, Nat.add_mod_mod,
    Nat.mod_eq_of_lt h]

/-! ### The invariant -/

/-- `Record_Task` at its program point: its counter, `actual_file_size` and the
length of the file. -/
def RecorderOk (s : State) : Prop :=
  let total := s.recorder.totalSize.toNat
  match s.recorder.pc with
  | .lock | .write | .release =>
      total = s.file.length ∧ s.actualFileSize = s.file.length ∧ s.file.length < FILE_SIZE
  | .account bytesWritten =>
      bytesWritten = RECORD_BUF_SIZE ∧ total + RECORD_BUF_SIZE = s.file.length ∧
        s.actualFileSize + RECORD_BUF_SIZE = s.file.length ∧ (total : ℤ) < FILE_SIZE
  | .test =>
      total = s.file.length ∧ s.actualFileSize = s.file.length ∧
        s.file.length < FILE_SIZE + RECORD_BUF_SIZE
  | .complete | .returned =>
      total = s.file.length ∧ s.actualFileSize = s.file.length ∧ FILE_SIZE ≤ s.file.length ∧
        s.file.length < FILE_SIZE + RECORD_BUF_SIZE

/-- Both tasks are done and have counted the whole file, so there is nothing left to write or to
read. -/
def BothComplete (s : State) : Prop :=
  s.recorder.pc = .returned ∧ s.reader.totalSize.toNat = s.file.length

/-- `Read_Task` at its program point, with `off` bytes read by its loop: what its offset, its count
and its buffer then are. -/
def ReaderAt (s : State) (off : ℕ) : Prop :=
  let total := s.reader.totalSize.toNat
  match s.reader.pc with
  | .lock | .read | .test | .release => s.rdOff = off ∧ total = off
  | .testRead bytesRead =>
      s.rdOff = off ∧
        ((bytesRead = READ_BUF_SIZE ∧ total + READ_BUF_SIZE = off ∧ Pattern s.reader.buf) ∨
          (bytesRead = 0 ∧ total = off ∧ off = s.file.length))
  | .check bytesRead =>
      s.rdOff = off ∧ bytesRead = READ_BUF_SIZE ∧ total + READ_BUF_SIZE = off ∧
        Pattern s.reader.buf
  | .account bytesRead =>
      s.rdOff = off ∧ bytesRead = READ_BUF_SIZE ∧ total + READ_BUF_SIZE = off
  | .leave .notRead => s.rdOff = off ∧ total = off ∧ off = s.file.length
  | .leave .dataError | .returned .dataError => False
  | .leave .complete | .seekCheck | .returned .complete => BothComplete s
  | .returned .notRead => True

/-- `Read_Task` has read a whole number of chunks, none of them behind the end. -/
structure ReaderOk (s : State) (off : ℕ) : Prop where
  chunks : READ_BUF_SIZE ∣ off
  le : off ≤ s.file.length
  bufLen : s.reader.buf.length = READ_BUF_SIZE
  point : ReaderAt s off

/-- The file is made of whole buffers of the pattern, and `Record_Task` accounts
for it. -/
structure FileOk (s : State) : Prop where
  pattern : Pattern s.file
  chunks : READ_BUF_SIZE ∣ s.file.length
  offset : s.wtOff = s.file.length
  recorder : RecorderOk s

/-- **The invariant** of the two tasks: the file and the offsets, what each task has counted, and
the semaphore. -/
structure Inv (s : State) : Prop extends FileOk s where
  access : Access s
  reader : ∃ off, ReaderOk s off

theorem inv_initial : Inv initial where
  pattern := pattern_nil
  chunks := dvd_zero _
  offset := rfl
  recorder := by
    refine ⟨rfl, rfl, ?_⟩
    norm_num [FILE_SIZE, initial]
  access := rfl
  reader := ⟨0, dvd_zero _, le_rfl, List.length_replicate, rfl, rfl⟩

section Bounds

variable {s s' : State} {e : Event} {result : ℤ}

/-- The file stays within one record buffer of `FILE_SIZE`. -/
theorem RecorderOk.length_lt (h : RecorderOk s) :
    (s.file.length : ℤ) < FILE_SIZE + RECORD_BUF_SIZE := by
  unfold RecorderOk at h
  have hpos : (0 : ℤ) ≤ RECORD_BUF_SIZE := Int.natCast_nonneg _
  cases hpc : s.recorder.pc <;> simp only [hpc] at h <;> omega

/-- The bound on both counters: they do not wrap. -/
theorem fileSize_lt : FILE_SIZE + RECORD_BUF_SIZE < 2 ^ 32 := by
  norm_num [FILE_SIZE, RECORD_BUF_SIZE]

/-- Outside its section `Record_Task` has accounted for every byte of the file. -/
theorem RecorderOk.accounted (h : RecorderOk s) (hout : s.inSection .record = false) :
    s.actualFileSize = s.file.length ∧
      (FILE_SIZE ≤ s.file.length → s.recorder.pc = .returned) := by
  unfold RecorderOk at h
  cases hpc : s.recorder.pc with
  | lock =>
      simp only [hpc] at h
      exact ⟨h.2.1, fun hge => absurd h.2.2 (not_lt.mpr hge)⟩
  | returned =>
      simp only [hpc] at h
      exact ⟨h.2.1, fun _ => rfl⟩
  | _ => simp [State.inSection, hpc, RecordPc.inSection] at hout

/-- While one task is inside its section the other is outside. -/
theorem Access.exclusive (h : Access s) (hread : s.inSection .read = true) :
    s.inSection .record = false := by
  unfold Access at h
  rw [hread] at h
  cases hrec : s.inSection .record
  · rfl
  · simp [hrec] at h

/-- `Record_Task` makes a step only while `Read_Task` is outside its section. -/
theorem Access.reader_out (h : Access s) (hstep : recordStep result s = some (e, s')) :
    s.inSection .read = false := by
  obtain ⟨heffect, -, hin⟩ := recordStep_lock hstep
  cases hread : s.inSection .read
  · rfl
  · have hout := h.exclusive hread
    rcases hin with rfl | hin
    · -- a wait needs a free semaphore, and the reader has it
      obtain ⟨-, -, hsem⟩ := heffect
      simp only [Access, hread, hout, Bool.toNat_true, Bool.toNat_false] at h
      omega
    · rw [hout] at hin
      cases hin

end Bounds

/-! ### Steps of `Record_Task` -/

section RecordStep

variable {s s' : State} {e : Event} {result : ℤ}

/-- A step of `Record_Task` whose `write`, if it makes one, is complete: the file stays a file of
the pattern, does not get shorter, and the other task is left where it is. -/
theorem fileOk_recordStep (h : FileOk s) (hstep : recordStep result s = some (e, s'))
    (hfull : ∀ r, e = .write r → r = RECORD_BUF_SIZE) :
    FileOk s' ∧ s'.rdOff = s.rdOff ∧ s.file.length ≤ s'.file.length := by
  obtain ⟨hpattern, hchunks, hoffset, hrec⟩ := h
  unfold recordStep at hstep
  cases hpc : s.recorder.pc with
  | lock =>
      simp only [hpc] at hstep
      obtain ⟨t, hwait, heq⟩ := Option.map_eq_some_iff.mp hstep
      obtain ⟨-, rfl⟩ := Prod.mk.inj heq
      obtain ⟨-, ht⟩ := semWait_eq_some hwait
      rw [ht]
      refine ⟨⟨hpattern, hchunks, hoffset, ?_⟩, rfl, le_rfl⟩
      simpa [RecorderOk, hpc, State.setRecordPc] using hrec
  | write =>
      simp only [hpc] at hstep
      obtain ⟨rfl, rfl⟩ := Prod.mk.inj (Option.some.inj hstep)
      obtain rfl := hfull result rfl
      simp only [RecorderOk, hpc] at hrec
      obtain ⟨htotal, hactual, hlt⟩ := hrec
      have htake : recordBuf.take RECORD_BUF_SIZE = recordBuf := by
        rw [← length_recordBuf, List.take_length]
      have hfile : writeAt 0 s.file s.wtOff recordBuf = s.file ++ recordBuf := by
        rw [hoffset, writeAt_end]
      simp only [Int.toNat_natCast, htake, hfile]
      refine ⟨⟨?_, ?_, ?_, ?_⟩, trivial, ?_⟩
      · exact hpattern.append pattern_recordBuf (dvd_readBufSize.trans hchunks)
      · rw [List.length_append, length_recordBuf]
        exact Nat.dvd_add hchunks dvd_recordBufSize
      · rw [List.length_append, length_recordBuf, hoffset]
      · simp only [RecorderOk, List.length_append, length_recordBuf]
        refine ⟨trivial, by omega, by omega, by omega⟩
      · rw [List.length_append]
        exact Nat.le_add_right _ _
  | account bytesWritten =>
      simp only [hpc] at hstep
      obtain ⟨-, rfl⟩ := Prod.mk.inj (Option.some.inj hstep)
      have hbound := hrec.length_lt
      simp only [RecorderOk, hpc] at hrec
      obtain ⟨rfl, htotal, hactual, -⟩ := hrec
      have hwrap := fileSize_lt
      have hsum : (s.recorder.totalSize + BitVec.ofInt 32 RECORD_BUF_SIZE).toNat
          = s.recorder.totalSize.toNat + RECORD_BUF_SIZE :=
        toNat_add_ofInt (by omega)
      refine ⟨⟨hpattern, hchunks, hoffset, ?_⟩, rfl, le_rfl⟩
      exact ⟨hsum.trans htotal, hactual, hbound⟩
  | test =>
      simp only [hpc] at hstep
      obtain ⟨-, rfl⟩ := Prod.mk.inj (Option.some.inj hstep)
      simp only [RecorderOk, hpc] at hrec
      obtain ⟨htotal, hactual, hbound⟩ := hrec
      refine ⟨⟨hpattern, hchunks, hoffset, ?_⟩, rfl, le_rfl⟩
      -- the branch is decided by the counter, which is the length of the file
      by_cases hge : FILE_SIZE ≤ (s.recorder.totalSize.toNat : ℤ)
      · simp only [RecorderOk, State.setRecordPc, if_pos hge]
        exact ⟨htotal, hactual, by omega, hbound⟩
      · simp only [RecorderOk, State.setRecordPc, if_neg hge]
        exact ⟨htotal, hactual, by omega⟩
  | complete | release =>
      simp only [hpc] at hstep
      obtain ⟨-, rfl⟩ := Prod.mk.inj (Option.some.inj hstep)
      refine ⟨⟨hpattern, hchunks, hoffset, ?_⟩, rfl, le_rfl⟩
      simpa [RecorderOk, hpc, State.setRecordPc, semPost] using hrec
  | returned => simp [hpc] at hstep

/-- What `Read_Task` knows while it is outside its section survives a step of
`Record_Task`, which may only extend the file. -/
theorem ReaderOk.recordStep {off : ℕ} (h : ReaderOk s off) (hout : s.inSection .read = false)
    (hstep : recordStep result s = some (e, s')) (hrdOff : s'.rdOff = s.rdOff)
    (hlen : s.file.length ≤ s'.file.length) : ReaderOk s' off := by
  have hreader : s'.reader = s.reader := (recordStep_lock hstep).2.1
  have hnot : s.recorder.pc ≠ .returned := by
    intro hpc
    simp [RecordRead.recordStep, hpc] at hstep
  have hpoint := h.point
  refine ⟨h.chunks, h.le.trans hlen, by rw [hreader]; exact h.bufLen, ?_⟩
  unfold ReaderAt at hpoint ⊢
  rw [hreader, hrdOff]
  cases hpc : s.reader.pc with
  | lock => simpa only [hpc] using hpoint
  | seekCheck =>
      simp only [hpc] at hpoint
      exact absurd hpoint.1 hnot
  | returned exit =>
      cases exit with
      | notRead => trivial
      | dataError => simp only [hpc] at hpoint
      | complete =>
          simp only [hpc] at hpoint
          exact absurd hpoint.1 hnot
  | _ => simp [State.inSection, hpc, ReadPc.inSection] at hout

end RecordStep

/-! ### Steps of `Read_Task` -/

section ReadStep

variable {s s' : State} {e : Event}

/-- `Read_Task` writes none of the variables the file is accounted with. -/
theorem readStep_frame (hstep : readStep s = some (e, s')) :
    s'.file = s.file ∧ s'.wtOff = s.wtOff ∧ s'.actualFileSize = s.actualFileSize := by
  unfold readStep at hstep
  cases hpc : s.reader.pc with
  | lock =>
      simp only [hpc] at hstep
      obtain ⟨t, hwait, heq⟩ := Option.map_eq_some_iff.mp hstep
      obtain ⟨-, rfl⟩ := Prod.mk.inj heq
      rw [(semWait_eq_some hwait).2]
      exact ⟨rfl, rfl, rfl⟩
  | returned _ => simp [hpc] at hstep
  | _ =>
      simp only [hpc] at hstep
      obtain ⟨-, rfl⟩ := Prod.mk.inj (Option.some.inj hstep)
      exact ⟨rfl, rfl, rfl⟩

theorem FileOk.readStep (h : FileOk s) (hstep : readStep s = some (e, s')) : FileOk s' := by
  obtain ⟨hfile, hoff, hactual⟩ := readStep_frame hstep
  have hrec : s'.recorder = s.recorder := (readStep_lock hstep).2
  refine ⟨hfile ▸ h.pattern, hfile ▸ h.chunks, by rw [hfile, hoff]; exact h.offset, ?_⟩
  have hok := h.recorder
  unfold RecorderOk at hok ⊢
  rw [hrec, hfile, hactual]
  exact hok

/-- A read of `READ_BUF_SIZE` bytes at a whole number of chunks into a file of whole
chunks gets all of them, or the offset is the end of the file. -/
theorem readAt_chunk {file : List UInt8} {off : ℕ} (hoff : READ_BUF_SIZE ∣ off)
    (hle : off ≤ file.length) (hlen : READ_BUF_SIZE ∣ file.length) :
    ((readAt file off READ_BUF_SIZE).length = READ_BUF_SIZE ∧
        off + READ_BUF_SIZE ≤ file.length) ∨
      (readAt file off READ_BUF_SIZE = [] ∧ off = file.length) := by
  rcases Nat.eq_or_lt_of_le hle with rfl | hlt
  · exact Or.inr ⟨by simp [readAt], rfl⟩
  · have hrest : READ_BUF_SIZE ≤ file.length - off :=
      Nat.le_of_dvd (by omega) (Nat.dvd_sub hlen hoff)
    rw [length_readAt]
    exact Or.inl ⟨by omega, by omega⟩

/-- A step of `Read_Task`.  Every read gets a full buffer or nothing, and
`check_buff` accepts. -/
theorem readerOk_readStep {off : ℕ} (hacc : Access s) (hfile : FileOk s)
    (h : ReaderOk s off) (hstep : readStep s = some (e, s')) :
    (∃ off', ReaderOk s' off') ∧ (∀ n, e = .read n → n = READ_BUF_SIZE ∨ n = 0) ∧
      ∀ b, e = .check b → b = true := by
  obtain ⟨hchunks, hle, hbuf, hpoint⟩ := h
  unfold ReaderAt at hpoint
  unfold readStep at hstep
  have hlt := hfile.recorder.length_lt
  have hwrap := fileSize_lt
  cases hpc : s.reader.pc with
  | lock =>
      simp only [hpc] at hstep hpoint
      obtain ⟨t, hwait, heq⟩ := Option.map_eq_some_iff.mp hstep
      obtain ⟨rfl, rfl⟩ := Prod.mk.inj heq
      rw [(semWait_eq_some hwait).2]
      exact ⟨⟨off, hchunks, hle, hbuf, hpoint⟩, by simp, by simp⟩
  | read =>
      simp only [hpc] at hstep hpoint
      obtain ⟨rfl, rfl⟩ := Prod.mk.inj (Option.some.inj hstep)
      obtain ⟨hrdOff, htotal⟩ := hpoint
      have hoff : s.rdOff.toNat = off := by rw [hrdOff, Int.toNat_natCast]
      rw [hoff]
      rcases readAt_chunk hchunks hle hfile.chunks with ⟨hfull, hend⟩ | ⟨hnone, hend⟩
      · refine ⟨⟨off + READ_BUF_SIZE, Nat.dvd_add hchunks dvd_rfl, hend, ?_, ?_⟩, ?_, by simp⟩
        · rw [length_overwrite, hbuf, hfull, max_self]
        · have hpattern : Pattern (readAt s.file off READ_BUF_SIZE) :=
            hfile.pattern.readAt (dvd_readBufSize.trans hchunks)
          rw [ReaderAt]
          simp only [hfull, hrdOff, overwrite_full (hbuf.trans hfull.symm).le]
          exact ⟨by omega, Or.inl ⟨trivial, by omega, hpattern⟩⟩
        · intro n hn
          obtain rfl := Event.read.inj hn
          exact Or.inl (by rw [hfull])
      · refine ⟨⟨off, hchunks, hle, ?_, ?_⟩, ?_, by simp⟩
        · rw [length_overwrite, hbuf, hnone]
          simp
        · rw [ReaderAt]
          simp only [hnone, hrdOff, List.length_nil]
          exact ⟨by omega, Or.inr ⟨by simp, htotal, hend⟩⟩
        · intro n hn
          obtain rfl := Event.read.inj hn
          exact Or.inr (by rw [hnone]; rfl)
  | testRead bytesRead =>
      simp only [hpc] at hstep hpoint
      obtain ⟨rfl, rfl⟩ := Prod.mk.inj (Option.some.inj hstep)
      refine ⟨⟨off, hchunks, hle, hbuf, ?_⟩, by simp, by simp⟩
      obtain ⟨hrdOff, ⟨hfull, htotal, hpattern⟩ | ⟨hnone, htotal, hend⟩⟩ := hpoint
      · simp only [ReaderAt, State.setReadPc, if_neg (not_not.mpr hfull)]
        exact ⟨hrdOff, hfull, htotal, hpattern⟩
      · have hne : bytesRead ≠ READ_BUF_SIZE := by
          rw [hnone]
          norm_num [READ_BUF_SIZE]
        simp only [ReaderAt, State.setReadPc, if_pos hne]
        exact ⟨hrdOff, htotal, hend⟩
  | check bytesRead =>
      simp only [hpc] at hstep hpoint
      obtain ⟨hrdOff, hfull, htotal, hpattern⟩ := hpoint
      have hcheck : checkBuff s.reader.buf = true := checkBuff_pattern hbuf hpattern
      rw [hcheck] at hstep
      obtain ⟨rfl, rfl⟩ := Prod.mk.inj (Option.some.inj hstep)
      refine ⟨⟨off, hchunks, hle, hbuf, ?_⟩, by simp, by simp⟩
      exact ⟨hrdOff, hfull, htotal⟩
  | account bytesRead =>
      simp only [hpc] at hstep hpoint
      obtain ⟨rfl, rfl⟩ := Prod.mk.inj (Option.some.inj hstep)
      obtain ⟨hrdOff, rfl, htotal⟩ := hpoint
      have hsum : (s.reader.totalSize + BitVec.ofInt 32 READ_BUF_SIZE).toNat
          = s.reader.totalSize.toNat + READ_BUF_SIZE :=
        toNat_add_ofInt (by omega)
      refine ⟨⟨off, hchunks, hle, hbuf, ?_⟩, by simp, by simp⟩
      exact ⟨hrdOff, hsum.trans htotal⟩
  | test =>
      simp only [hpc] at hstep hpoint
      obtain ⟨rfl, rfl⟩ := Prod.mk.inj (Option.some.inj hstep)
      obtain ⟨hrdOff, htotal⟩ := hpoint
      refine ⟨⟨off, hchunks, hle, hbuf, ?_⟩, by simp, by simp⟩
      split_ifs with hdone
      · -- the lock keeps `Record_Task` out, so the file is accounted for
        obtain ⟨hactual, hreturned⟩ := hfile.recorder.accounted
          (hacc.exclusive (by simp [State.inSection, hpc, ReadPc.inSection]))
        have htotal' : s.reader.totalSize.toNat = s.file.length := by omega
        exact ⟨hreturned (by omega), htotal'⟩
      · exact ⟨hrdOff, htotal⟩
  | leave exit =>
      simp only [hpc] at hstep hpoint
      obtain ⟨rfl, rfl⟩ := Prod.mk.inj (Option.some.inj hstep)
      refine ⟨⟨off, hchunks, hle, hbuf, ?_⟩, by simp, by simp⟩
      cases exit with
      | notRead => trivial
      | dataError => exact hpoint.elim
      | complete => exact hpoint
  | release =>
      simp only [hpc] at hstep hpoint
      obtain ⟨rfl, rfl⟩ := Prod.mk.inj (Option.some.inj hstep)
      exact ⟨⟨off, hchunks, hle, hbuf, hpoint⟩, by simp, by simp⟩
  | seekCheck =>
      simp only [hpc] at hstep hpoint
      obtain ⟨rfl, rfl⟩ := Prod.mk.inj (Option.some.inj hstep)
      exact ⟨⟨off, hchunks, hle, hbuf, hpoint⟩, by simp, by simp⟩
  | returned _ => simp [hpc] at hstep

end ReadStep

/-! ### Runs -/

/-- What a statement of `Read_Task` may show while every `write` is complete: a read
gets a full buffer or nothing, and `check_buff` accepts. -/
def LabelOk (l : Task × Event) : Prop :=
  (∀ n, l = (.read, .read n) → n = READ_BUF_SIZE ∨ n = 0) ∧
    ∀ b, l = (.read, .check b) → b = true

/-- **The step lemma**: with complete writes the invariant survives every step of
either task. -/
theorem inv_step {s s' : State} {l : Task × Event} (h : Inv s) (hfull : completeWrites s l)
    (hstep : taskSys.step s l s') : Inv s' ∧ LabelOk l := by
  have hacc : Access s' := access_step h.access hstep
  obtain ⟨off, hreader⟩ := h.reader
  obtain ⟨t, e⟩ := l
  cases t with
  | record =>
      obtain ⟨result, -, hrec⟩ := hstep
      obtain ⟨hfile, hrdOff, hlen⟩ := fileOk_recordStep h.toFileOk hrec hfull
      have hreader' := hreader.recordStep (h.access.reader_out hrec) hrec hrdOff hlen
      exact ⟨⟨hfile, hacc, off, hreader'⟩, by simp, by simp⟩
  | read =>
      obtain ⟨hreader', hread, hcheck⟩ :=
        readerOk_readStep h.access h.toFileOk hreader hstep
      refine ⟨⟨h.toFileOk.readStep hstep, hacc, hreader'⟩, ?_, ?_⟩
      · exact fun n hn => hread n (Prod.mk.inj hn).2
      · exact fun b hb => hcheck b (Prod.mk.inj hb).2

/-- The run lemma: the invariant holds after every run with complete writes, and every label of the
run is as it should be. -/
theorem inv_run {s : State} {ls : List (Task × Event)}
    (h : (taskSys.restrict completeWrites).Run initial ls s) :
    Inv s ∧ ∀ l ∈ ls, LabelOk l := by
  refine h.invariant_trace (I := fun ls s => Inv s ∧ ∀ l ∈ ls, LabelOk l)
    ⟨inv_initial, by simp⟩ ?_
  rintro ls l s s' ⟨hinv, hlabels⟩ ⟨hfull, hstep⟩
  obtain ⟨hinv', hlabel⟩ := inv_step hinv hfull hstep
  refine ⟨hinv', ?_⟩
  intro m hm
  rcases List.mem_append.mp hm with hm | hm
  · exact hlabels m hm
  · rwa [List.mem_singleton.mp hm]

/-- **Recording and reading the same file, in any order of statements.**  Along
every run from the empty file in which every `write` is complete:

* the length of the file is `actual_file_size`, except between a `write` and the
  additions behind it, and byte `k` of the file is `k mod 188`;
* every read of `Read_Task` gets a full buffer or nothing, `check_buff` accepts, and
  the task is never on its way out with a data error;
* it leaves with "not read" only at the end of the file as it stands;
* when it reports completion `Record_Task` has returned, and both counters are
  `actual_file_size`, so neither has wrapped;
* `File_Access` is held by at most one task, and each task waits and posts in strict
  alternation: every iteration releases it exactly once, on every path. -/
theorem record_read_same_file {s : State} {ls : List (Task × Event)}
    (h : (taskSys.restrict completeWrites).Run initial ls s) :
    (((∀ n, s.recorder.pc ≠ .account n) → s.actualFileSize = s.file.length) ∧
      ∀ k, k < s.file.length → s.file[k]? = some (UInt8.ofNat (k % 188))) ∧
    ((∀ n, (Task.read, Event.read n) ∈ ls → n = READ_BUF_SIZE ∨ n = 0) ∧
      (∀ b, (Task.read, Event.check b) ∈ ls → b = true) ∧
      s.reader.pc ≠ .leave .dataError ∧ s.reader.pc ≠ .returned .dataError) ∧
    (s.reader.pc = .leave .notRead →
      s.rdOff = s.file.length ∧ s.reader.totalSize.toNat = s.file.length) ∧
    (s.reader.pc.reportedCompletion = true →
      s.recorder.pc = .returned ∧ (s.reader.totalSize.toNat : ℤ) = s.actualFileSize ∧
        (s.recorder.totalSize.toNat : ℤ) = s.actualFileSize) ∧
    s.fileAccess + (s.inSection .record).toNat + (s.inSection .read).toNat = 1 ∧
    ∀ t, ∃ n, sections t ls = alternating n (s.inSection t) := by
  obtain ⟨hinv, hlabels⟩ := inv_run h
  obtain ⟨off, hreader⟩ := hinv.reader
  have hpoint := hreader.point
  have hrec := hinv.recorder
  unfold ReaderAt at hpoint
  refine ⟨⟨fun hne => ?_, hinv.pattern⟩, ⟨?_, ?_, ?_, ?_⟩, ?_, ?_, hinv.access,
    sections_alternate h.of_restrict⟩
  · unfold RecorderOk at hrec
    cases hpc : s.recorder.pc with
    | account n => exact absurd hpc (hne n)
    | _ =>
        simp only [hpc] at hrec
        exact hrec.2.1
  · exact fun n hn => (hlabels _ hn).1 n rfl
  · exact fun b hb => (hlabels _ hb).2 b rfl
  · intro hpc
    simp only [hpc] at hpoint
  · intro hpc
    simp only [hpc] at hpoint
  · intro hpc
    simp only [hpc] at hpoint
    obtain ⟨hrdOff, htotal, hend⟩ := hpoint
    exact ⟨by rw [hrdOff, hend], by rw [htotal, hend]⟩
  · intro hdone
    have hboth : BothComplete s := by
      revert hpoint hdone
      cases s.reader.pc with
      | leave exit => cases exit <;> simp [ReadPc.reportedCompletion]
      | returned exit => cases exit <;> simp [ReadPc.reportedCompletion]
      | seekCheck => exact fun hboth _ => hboth
      | _ => simp [ReadPc.reportedCompletion]
    obtain ⟨hpc, htotal⟩ := hboth
    unfold RecorderOk at hrec
    simp only [hpc] at hrec
    obtain ⟨hrecTotal, hactual, -⟩ := hrec
    exact ⟨hpc, by rw [htotal, hactual], by rw [hrecTotal, hactual]⟩

/-- After one iteration of `Record_Task`, with a complete `write`; `Read_Task` has not begun. -/
def writtenOnce : State where
  file := recordBuf
  wtOff := RECORD_BUF_SIZE
  rdOff := 0
  actualFileSize := RECORD_BUF_SIZE
  fileAccess := 1
  recorder := ⟨.lock, BitVec.ofInt 32 RECORD_BUF_SIZE⟩
  reader := initial.reader

/-- And one of `Read_Task` behind it, which has read the first half of what was written. -/
def readOnce : State :=
  { writtenOnce with
    rdOff := READ_BUF_SIZE
    reader := ⟨.lock, BitVec.ofInt 32 READ_BUF_SIZE, readAt recordBuf 0 READ_BUF_SIZE⟩ }

/-- The first part of the run below: `Record_Task` writes its buffer and leaves its section. -/
theorem written_run : (taskSys.restrict completeWrites).Run initial
    [(.record, .wait), (.record, .write RECORD_BUF_SIZE), (.record, .silent), (.record, .silent),
      (.record, .post)] writtenOnce := by
  let inside (file : List UInt8) (off : ℕ) (size : ℤ) (recorder : RecordTask) : State :=
    ⟨file, off, 0, size, 0, recorder, initial.reader⟩
  have hstep {s s' : State} {e : Event} (h : recordStep RECORD_BUF_SIZE s = some (e, s'))
      (he : ∀ result, e = .write result → result = RECORD_BUF_SIZE) :
      (taskSys.restrict completeWrites).step s (.record, e) s' :=
    ⟨he, _, Or.inr ⟨Int.natCast_nonneg _, le_rfl⟩, h⟩
  have hfile : writeAt 0 [] 0 (recordBuf.take RECORD_BUF_SIZE) = recordBuf := by
    rw [List.take_of_length_le length_recordBuf.le]
    exact (writeAt_end 0 [] recordBuf).trans (List.nil_append _)
  have hmore : ¬ FILE_SIZE ≤ ((BitVec.ofInt 32 RECORD_BUF_SIZE).toNat : ℤ) := by decide
  have hwait : recordStep RECORD_BUF_SIZE initial = some (.wait, inside [] 0 0 ⟨.write, 0⟩) := rfl
  have hwrite : recordStep RECORD_BUF_SIZE (inside [] 0 0 ⟨.write, 0⟩) = some
      (.write RECORD_BUF_SIZE,
        inside recordBuf RECORD_BUF_SIZE 0 ⟨.account RECORD_BUF_SIZE, 0⟩) := by
    simp only [recordStep, inside, Int.toNat_natCast, hfile, zero_add]
  have haccount : recordStep RECORD_BUF_SIZE
      (inside recordBuf RECORD_BUF_SIZE 0 ⟨.account RECORD_BUF_SIZE, 0⟩) = some
      (.silent, inside recordBuf RECORD_BUF_SIZE RECORD_BUF_SIZE
        ⟨.test, BitVec.ofInt 32 RECORD_BUF_SIZE⟩) := by
    have hzero (x : BitVec 32) : 0 + x = x := BitVec.zero_add x
    simp only [recordStep, inside, hzero, zero_add]
  have htest : recordStep RECORD_BUF_SIZE (inside recordBuf RECORD_BUF_SIZE RECORD_BUF_SIZE
      ⟨.test, BitVec.ofInt 32 RECORD_BUF_SIZE⟩) = some
      (.silent, inside recordBuf RECORD_BUF_SIZE RECORD_BUF_SIZE
        ⟨.release, BitVec.ofInt 32 RECORD_BUF_SIZE⟩) := by
    simp only [recordStep, inside, State.setRecordPc, if_neg hmore]
  have hpost : recordStep RECORD_BUF_SIZE (inside recordBuf RECORD_BUF_SIZE RECORD_BUF_SIZE
      ⟨.release, BitVec.ofInt 32 RECORD_BUF_SIZE⟩) = some (.post, writtenOnce) := by
    simp only [recordStep, inside, semPost, State.setRecordPc, writtenOnce, Nat.zero_add]
  exact LTS.Run.nil.snoc (hstep hwait fun _ h => by cases h)
    |>.snoc (hstep hwrite fun result h => (Event.write.inj h).symm)
    |>.snoc (hstep haccount fun _ h => by cases h)
    |>.snoc (hstep htest fun _ h => by cases h)
    |>.snoc (hstep hpost fun _ h => by cases h)

/-- `Read_Task` goes on as long as it has read less than the size of the file, or less than there
is. -/
theorem readStep_more {s : State} (hpc : s.reader.pc = .test)
    (hmore : ¬ (FILE_SIZE ≤ s.reader.totalSize.toNat ∧
      s.actualFileSize ≤ s.reader.totalSize.toNat)) :
    readStep s = some (.silent, s.setReadPc .release) := by
  unfold readStep
  simp only [hpc, if_neg hmore]

/-- The second part of it: `Read_Task` reads half of what is there, and finds the pattern in it. -/
theorem read_run : (taskSys.restrict completeWrites).Run writtenOnce
    [(.read, .wait), (.read, .read READ_BUF_SIZE), (.read, .silent), (.read, .check true),
      (.read, .silent), (.read, .silent), (.read, .post)] readOnce := by
  let bytes := readAt recordBuf 0 READ_BUF_SIZE
  let inside (off : ℤ) (reader : ReadTask) : State :=
    { writtenOnce with fileAccess := 0, rdOff := off, reader := reader }
  have hstep {s s' : State} {e : Event} (h : readStep s = some (e, s'))
      (he : ∀ result, e ≠ .write result) :
      (taskSys.restrict completeWrites).step s (.read, e) s' :=
    ⟨fun result hwrite => absurd hwrite (he result), h⟩
  have hlen : (readAt recordBuf 0 READ_BUF_SIZE).length = READ_BUF_SIZE := by
    rw [length_readAt, length_recordBuf]
    decide
  have hbuf : overwrite initial.reader.buf (readAt recordBuf 0 READ_BUF_SIZE) = bytes := by
    refine overwrite_full ?_
    rw [hlen]
    exact List.length_replicate.le
  have hcheck : checkBuff bytes = true :=
    checkBuff_pattern hlen (pattern_recordBuf.readAt (Nat.dvd_zero 188))
  have hmore : ¬ (FILE_SIZE ≤ ((BitVec.ofInt 32 READ_BUF_SIZE).toNat : ℤ) ∧
      (RECORD_BUF_SIZE : ℤ) ≤ ((BitVec.ofInt 32 READ_BUF_SIZE).toNat : ℤ)) := by decide
  have hwait : readStep writtenOnce = some (.wait, inside 0 ⟨.read, 0, initial.reader.buf⟩) := by
    simp only [readStep, semWait, writtenOnce, initial, inside, State.setReadPc, Nat.zero_lt_one,
      if_true, Option.map_some, Nat.sub_self]
  have hread : readStep (inside 0 ⟨.read, 0, initial.reader.buf⟩) = some
      (.read READ_BUF_SIZE, inside READ_BUF_SIZE ⟨.testRead READ_BUF_SIZE, 0, bytes⟩) := by
    simp only [readStep, inside, writtenOnce, Int.toNat_zero, hlen, hbuf, zero_add]
  have htestRead : readStep (inside READ_BUF_SIZE ⟨.testRead READ_BUF_SIZE, 0, bytes⟩) = some
      (.silent, inside READ_BUF_SIZE ⟨.check READ_BUF_SIZE, 0, bytes⟩) := by
    simp only [readStep, inside, ne_eq, not_true_eq_false, if_false, State.setReadPc]
  have hchecked : readStep (inside READ_BUF_SIZE ⟨.check READ_BUF_SIZE, 0, bytes⟩) = some
      (.check true, inside READ_BUF_SIZE ⟨.account READ_BUF_SIZE, 0, bytes⟩) := by
    simp only [readStep, inside, hcheck, Bool.not_true, Bool.false_eq_true, if_false,
      State.setReadPc]
  have haccount : readStep (inside READ_BUF_SIZE ⟨.account READ_BUF_SIZE, 0, bytes⟩) = some
      (.silent, inside READ_BUF_SIZE ⟨.test, BitVec.ofInt 32 READ_BUF_SIZE, bytes⟩) := by
    have hzero (x : BitVec 32) : 0 + x = x := BitVec.zero_add x
    simp only [readStep, inside, hzero]
  have htest : readStep (inside READ_BUF_SIZE ⟨.test, BitVec.ofInt 32 READ_BUF_SIZE, bytes⟩) =
      some (.silent,
        inside READ_BUF_SIZE ⟨.release, BitVec.ofInt 32 READ_BUF_SIZE, bytes⟩) := by
    have hgoes := readStep_more
      (s := inside READ_BUF_SIZE ⟨.test, BitVec.ofInt 32 READ_BUF_SIZE, bytes⟩) rfl hmore
    simpa only [inside, State.setReadPc] using hgoes
  have hpost : readStep (inside READ_BUF_SIZE
      ⟨.release, BitVec.ofInt 32 READ_BUF_SIZE, bytes⟩) = some (.post, readOnce) := by
    simp only [readStep, inside, semPost, State.setReadPc, readOnce, writtenOnce, Nat.zero_add,
      bytes]
  exact LTS.Run.nil.snoc (hstep hwait fun _ h => by cases h)
    |>.snoc (hstep hread fun _ h => by cases h)
    |>.snoc (hstep htestRead fun _ h => by cases h)
    |>.snoc (hstep hchecked fun _ h => by cases h)
    |>.snoc (hstep haccount fun _ h => by cases h)
    |>.snoc (hstep htest fun _ h => by cases h)
    |>.snoc (hstep hpost fun _ h => by cases h)

/-- A run with an iteration of `Record_Task` and one of `Read_Task`: a whole buffer is written, and
half of it is read and found to be the pattern. -/
theorem record_read_same_file_run :
    ∃ (s : State) (ls : List (Task × Event)), (taskSys.restrict completeWrites).Run initial ls s ∧
      ((Task.record, Event.write RECORD_BUF_SIZE) ∈ ls ∧ (Task.read, Event.check true) ∈ ls) ∧
      s.actualFileSize = s.file.length ∧
      (∀ k, k < s.file.length → s.file[k]? = some (UInt8.ofNat (k % 188))) ∧
      (∀ n, (Task.read, Event.read n) ∈ ls → n = READ_BUF_SIZE ∨ n = 0) ∧
      (∀ b, (Task.read, Event.check b) ∈ ls → b = true) ∧
      sections .record ls = [.wait, .post] ∧ sections .read ls = [.wait, .post] := by
  have hrun := written_run.append read_run
  have hsame := record_read_same_file hrun
  exact ⟨_, _, hrun, ⟨by simp, by simp⟩, hsame.1.1 nofun, hsame.1.2, hsame.2.1.1, hsame.2.1.2.1,
    rfl, rfl⟩

end LeipoCode.RecordRead
