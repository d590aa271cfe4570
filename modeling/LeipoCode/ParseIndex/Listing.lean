import LeipoCode.ParseIndex.IndexDump

/-!
# What the dump of an index file lists

A file of whole records is read a chunk at a time.  After `m` passes the lines of the first
`m * READ_IDX_CHUNK` records have been written, each with the record's place in its chunk:
the inner loop counts from 0 in every pass.  A time from 2^31 on is shown as a negative
number.

* `record_chunk` — the records of a chunk are those of the file;
* `dumpIndex_file` — the run of a whole file;
* `formatIndex_inj` — a line determines its number and the values it shows;
* `index_listing_iff` — when the lines are the right ones.

The listing is right where the numbers of the lines are those of the records and the times are shown
as they are.  Both conditions are on the file alone: how many records it has, against the size of a
chunk, and what the largest time is.  A file of more than one chunk is listed with the numbers of
the first chunk over again, which is `index_listing_iff` read the other way round.

### How it goes

A file of whole records is cut into chunks of whole records, so no record is split between two
reads, and a pass lists the records of its chunk as they are in the file (`record_chunk`,
`listing_chunk`).  By induction on the passes the text after `m` of them is the lines of the first
`m` chunks, and the loop leaves with the last (`dumpIndex_file`, `exists_exited`).

The right text is one right line after the other.  Lines can be told apart and each shows its four
numbers (`formatIndex_inj`), so the two texts are equal only if they are so line by line
(`listsFile_iff_lines`).  A line has the right number if its record is in the first chunk, where the
places are those of the file, and the right time if this is not negative as an `int`; the size and
the position are always right.
-/

namespace LeipoCode.ParseIndex

open ByteFile Printf

/-! ### A file of whole records -/

/-- What the `i`-th read returns when nothing cuts it short before the end of the file. -/
def readsOf (abi : Abi) (file : List Byte) (i : ℕ) : Option (List Byte) :=
  some (readAt file (i * abi.chunkSize) abi.chunkSize)

/-- A file of `n` records, as many as an `int` can count and an `off_t` can tell. -/
structure WholeRecords (abi : Abi) (file : List Byte) (n : ℕ) : Prop where
  length_eq : file.length = n * abi.recordSize
  count_lt : n < 2 ^ 31
  length_lt : file.length < 2 ^ (abi.offWidth - 1)

section File

variable {abi : Abi} {file : List Byte} {n m k : ℕ}

/-- The records of the file are counted, as there are no more than an `int` can count. -/
theorem indexCnt_file (hfile : WholeRecords abi file n) : abi.indexCnt file.length = n := by
  have hpos := abi.recordSize_pos
  have hdiv : file.length / abi.recordSize = n := by
    rw [hfile.length_eq, Nat.mul_div_cancel _ hpos]
  unfold Abi.indexCnt
  split_ifs with hwidth
  · have htdiv : (file.length : ℤ).tdiv abi.recordSize = n := by
      rw [Int.tdiv_eq_ediv_of_nonneg (Int.natCast_nonneg _), ← Int.natCast_ediv, hdiv]
    rw [htdiv, toInt32_of_lt hfile.count_lt]
  · have hlt : file.length < 2 ^ abi.sizeWidth :=
      lt_of_lt_of_le hfile.length_lt (Nat.pow_le_pow_right (by decide) (by omega))
    rw [toNat_natCast_emod hlt, hdiv, toInt32_of_lt hfile.count_lt]

/-- A chunk is full, or what is left of the file, and in both cases a number of whole records. -/
theorem length_chunk (hfile : WholeRecords abi file n) :
    (readAt file (m * abi.chunkSize) abi.chunkSize).length =
      min READ_IDX_CHUNK (n - m * READ_IDX_CHUNK) * abi.recordSize := by
  rw [length_readAt, hfile.length_eq, Abi.chunkSize, ← Nat.mul_assoc, ← Nat.sub_mul,
    Nat.mul_min_mul_right]

theorem deliveredRecords_file (hfile : WholeRecords abi file n) :
    deliveredRecords abi (readsOf abi file m) =
      min READ_IDX_CHUNK (n - m * READ_IDX_CHUNK) := by
  rw [deliveredRecords, readsOf, Option.getD_some, length_chunk hfile,
    Nat.mul_div_cancel _ abi.recordSize_pos]

/-- **The records of a chunk** are records of the file: the `k`-th of chunk `m` is the one behind
`m` full chunks and `k` records. -/
theorem record_chunk (hfile : WholeRecords abi file n)
    (hk : k < min READ_IDX_CHUNK (n - m * READ_IDX_CHUNK)) :
    abi.record (overwrite abi.zeroed (readAt file (m * abi.chunkSize) abi.chunkSize)) k =
      abi.record file (m * READ_IDX_CHUNK + k) := by
  have hchunk : (k + 1) * abi.recordSize ≤ abi.chunkSize :=
    Nat.mul_le_mul_right _ (lt_of_lt_of_le hk (min_le_left _ _))
  have hin : (k + 1) * abi.recordSize ≤
      min READ_IDX_CHUNK (n - m * READ_IDX_CHUNK) * abi.recordSize :=
    Nat.mul_le_mul_right _ hk
  rw [Nat.succ_mul] at hchunk hin
  have hoff : m * abi.chunkSize + k * abi.recordSize =
      (m * READ_IDX_CHUNK + k) * abi.recordSize := by
    rw [Abi.chunkSize, ← Nat.mul_assoc, Nat.add_mul]
  rw [Abi.record, readAt_overwrite (by rw [length_chunk hfile]; exact hin),
    readAt_readAt hchunk, hoff]
  rfl

/-- The line of the `k`-th record of the file, as the dump writes it: numbered by its place in its
chunk. -/
def chunkLine (abi : Abi) (file : List Byte) (k : ℕ) : List Char :=
  indexLine (k % READ_IDX_CHUNK) (abi.record file k)

/-- The lines of the first `n` records, as the dump numbers and prints them, whether that is right
or not. -/
def listing (abi : Abi) (file : List Byte) (n : ℕ) : List Char :=
  (List.range n).flatMap (chunkLine abi file)

/-- A pass writes the lines of its chunk, so the listing is longer by as many records. -/
theorem listing_chunk (hfile : WholeRecords abi file n) :
    listing abi file (m * READ_IDX_CHUNK) ++
      chunkText abi (overwrite abi.zeroed (readAt file (m * abi.chunkSize) abi.chunkSize))
        (min READ_IDX_CHUNK (n - m * READ_IDX_CHUNK)) 0 =
      listing abi file
        (m * READ_IDX_CHUNK + min READ_IDX_CHUNK (n - m * READ_IDX_CHUNK)) := by
  rw [listing, listing, List.range_add, List.flatMap_append, List.append_cancel_left_eq,
    chunkText, List.flatMap_map, ← List.range_eq_range']
  apply List.flatMap_congr
  intro k hk
  have hlt := List.mem_range.mp hk
  have hmod : (m * READ_IDX_CHUNK + k) % READ_IDX_CHUNK = k := by
    rw [Nat.mul_add_mod_self_right, Nat.mod_eq_of_lt (lt_of_lt_of_le hlt (min_le_left _ _))]
  rw [record_chunk hfile hlt, chunkLine, hmod]

/-- **The run of a whole file**: after `m` passes the first `m` chunks are listed. -/
theorem dumpIndex_file (hfile : WholeRecords abi file n) (m : ℕ) :
    dumpIndex abi file.length (readsOf abi file) m =
      whileTest n ⟨(min (m * READ_IDX_CHUNK) n : ℕ),
        listing abi file (min (m * READ_IDX_CHUNK) n)⟩ := by
  induction m with
  | zero =>
      rw [dumpIndex, indexCnt_file hfile, Nat.zero_mul, Nat.zero_min]
      rfl
  | succ m ih =>
      rcases lt_or_ge (m * READ_IDX_CHUNK) n with hlt | hge
      · have hrunning : dumpIndex abi file.length (readsOf abi file) m =
            .running ⟨(m * READ_IDX_CHUNK : ℕ), listing abi file (m * READ_IDX_CHUNK)⟩ := by
          rw [ih, Nat.min_eq_left hlt.le]
          exact if_pos (Int.ofNat_lt.mpr hlt)
        have hnext : m * READ_IDX_CHUNK + min READ_IDX_CHUNK (n - m * READ_IDX_CHUNK) =
            min ((m + 1) * READ_IDX_CHUNK) n := by
          rw [Nat.succ_mul]
          omega
        have hcount : toInt32 ((m * READ_IDX_CHUNK : ℕ) +
            (min READ_IDX_CHUNK (n - m * READ_IDX_CHUNK) : ℕ)) =
            (min ((m + 1) * READ_IDX_CHUNK) n : ℕ) := by
          rw [← Nat.cast_add, hnext]
          exact toInt32_of_lt (lt_of_le_of_lt (min_le_right _ _) hfile.count_lt)
        rw [dumpIndex_of_some hrunning rfl (length_readAt.trans_le (min_le_left _ _)),
          indexCnt_file hfile]
        change whileTest n ⟨toInt32 ((m * READ_IDX_CHUNK : ℕ) +
          deliveredRecords abi (readsOf abi file m)), listing abi file (m * READ_IDX_CHUNK) ++
            chunkText abi (overwrite abi.zeroed (readAt file (m * abi.chunkSize) abi.chunkSize))
              (deliveredRecords abi (readsOf abi file m)) 0⟩ = _
        rw [deliveredRecords_file hfile, hcount, listing_chunk hfile, hnext]
      · have hexited : dumpIndex abi file.length (readsOf abi file) m =
            .exited ⟨n, listing abi file n⟩ := by
          rw [ih, Nat.min_eq_right hge]
          exact if_neg (lt_irrefl _)
        have hge' : n ≤ (m + 1) * READ_IDX_CHUNK := by
          rw [Nat.succ_mul]
          omega
        rw [dumpIndex, hexited, Nat.min_eq_right hge']
        exact (if_neg (lt_irrefl _)).symm

/-- The dump ends, after as many passes as it takes, with the lines of all records. -/
theorem exists_exited (hfile : WholeRecords abi file n) :
    ∃ m, dumpIndex abi file.length (readsOf abi file) m = .exited ⟨n, listing abi file n⟩ := by
  have hge : n ≤ n * READ_IDX_CHUNK := Nat.le_mul_of_pos_right n (by decide)
  refine ⟨n, ?_⟩
  rw [dumpIndex_file hfile, Nat.min_eq_right hge]
  exact if_neg (lt_irrefl _)

/-- The dump ends with no other text, whenever that is. -/
theorem out_of_exited (hfile : WholeRecords abi file n) {s : DumpState}
    (hs : dumpIndex abi file.length (readsOf abi file) m = .exited s) :
    s.out = listing abi file n := by
  rw [dumpIndex_file hfile, whileTest] at hs
  split_ifs at hs with htest
  obtain rfl := Progress.exited.inj hs
  have hmin : min (m * READ_IDX_CHUNK) n = n := by
    have hge := Int.ofNat_le.mp (not_lt.mp htest)
    omega
  rw [hmin]

end File

/-! ### The lines -/

section Lines

variable {i j time time' size size' : ℤ} {pos pos' : ℕ}

/-- A line of the index ends where the next one begins, so its text can be cut into lines. -/
theorem isLine_formatIndex : IsLine (formatIndex i time size pos) := by
  have hdec (n : ℤ) : '\n' ∉ padLeft 8 (dec n) := notMem_padLeft_dec (by decide)
  have hhex : '\n' ∉ padLeft 16 (hex pos) := notMem_padLeft_hex (by decide)
  refine ⟨_, 0, ?_, ?_, rfl⟩
  · simp
  · simp only [List.mem_append, not_or]
    exact ⟨⟨⟨⟨⟨⟨⟨by decide, hdec i⟩, by decide⟩, hdec time⟩, by decide⟩, hdec size⟩, by decide⟩,
      hhex⟩

/-- **A line determines what it shows**: its number, the time, the size and the position. -/
theorem formatIndex_inj
    (h : formatIndex i time size pos = formatIndex j time' size' pos') :
    i = j ∧ time = time' ∧ size = size' ∧ pos = pos' := by
  -- a number ends at the blanks and the first letter of what follows it
  have hclose : "): PacketTimeInMs: ".toList = ')' :: ": PacketTimeInMs: ".toList := by decide
  have hsize : "   Size: ".toList = "   ".toList ++ 'S' :: "ize: ".toList := by decide
  have hpos : "  PacketPosition: 0x".toList = "  ".toList ++ 'P' :: "acketPosition: 0x".toList := by
    decide
  have hparen (n : ℤ) : ')' ∉ padLeft 8 (dec n) := notMem_padLeft_dec (by decide)
  have hS (n : ℤ) : 'S' ∉ padLeft 8 (dec n) := notMem_padLeft_dec (by decide)
  have hP (n : ℤ) : 'P' ∉ padLeft 8 (dec n) := notMem_padLeft_dec (by decide)
  unfold formatIndex at h
  simp only [hclose, hsize, hpos, List.append_assoc, List.append_cancel_left_eq,
    List.cons_append] at h
  obtain ⟨hi, h⟩ := append_sep_inj (hparen i) (hparen j) h
  rw [List.append_cancel_left_eq] at h
  obtain ⟨ht, h⟩ := append_blanks_sep_inj (hS time) (hS time') (by decide) h
  rw [List.append_cancel_left_eq] at h
  obtain ⟨hn, h⟩ := append_blanks_sep_inj (hP size) (hP size') (by decide) h
  rw [List.append_cancel_left_eq, List.append_cancel_right_eq] at h
  exact ⟨padLeft_dec_inj hi, padLeft_dec_inj ht, padLeft_dec_inj hn, padLeft_hex_inj h⟩

end Lines

/-! ### The right lines -/

section Listing

variable {abi : Abi} {file : List Byte} {n k : ℕ}

/-- The line that shows the `k`-th record: the time is a number of milliseconds, the position
is shown as the 64 bits it is stored in. -/
def rightLine (abi : Abi) (file : List Byte) (k : ℕ) : List Char :=
  formatIndex k (abi.record file k).packetTimeInMs.toNat (abi.record file k).size.toNat
    (abi.record file k).packetPosition.toNat

/-- The dump of the file ends, and lists its records in order, each with its own number and its
values as they are. -/
def ListsFile (abi : Abi) (file : List Byte) (n : ℕ) : Prop :=
  ∃ m s, dumpIndex abi file.length (readsOf abi file) m = .exited s ∧
    s.out = (List.range n).flatMap (rightLine abi file)

/-- The right text consists of the right lines: as lines can be read off a text, the two texts are
equal only line by line. -/
theorem listsFile_iff_lines (hfile : WholeRecords abi file n) :
    ListsFile abi file n ↔ ∀ k < n, chunkLine abi file k = rightLine abi file k := by
  constructor
  · rintro ⟨m, s, hs, hout⟩
    rw [out_of_exited hfile hs, listing, List.flatMap_def, List.flatMap_def] at hout
    have hmap := flatten_inj_of_isLine
      (List.forall_mem_map.mpr fun _ _ => isLine_formatIndex)
      (List.forall_mem_map.mpr fun _ _ => isLine_formatIndex) hout
    intro k hk
    exact List.map_inj_left.mp hmap k (List.mem_range.mpr hk)
  · intro hlines
    obtain ⟨m, hm⟩ := exists_exited hfile
    refine ⟨m, _, hm, ?_⟩
    exact List.flatMap_congr fun k hk => hlines k (List.mem_range.mp hk)

/-- A line is right exactly if the record is in the first chunk and its time an `int`. -/
theorem chunkLine_eq_iff :
    chunkLine abi file k = rightLine abi file k ↔
      k < READ_IDX_CHUNK ∧ (abi.record file k).packetTimeInMs.toNat < 2 ^ 31 := by
  have hpos : 0 < READ_IDX_CHUNK := by decide
  have htime (t : BitVec 32) : t.toInt = t.toNat ↔ t.toNat < 2 ^ 31 := by
    rw [BitVec.toInt_eq_toNat_cond]
    split_ifs <;> omega
  constructor
  · intro h
    obtain ⟨hnumber, htoInt, -, -⟩ := formatIndex_inj h
    have hmod : k % READ_IDX_CHUNK = k := Int.ofNat_inj.mp hnumber
    exact ⟨hmod ▸ Nat.mod_lt k hpos, (htime _).mp htoInt⟩
  · rintro ⟨hk, ht⟩
    rw [chunkLine, indexLine, Nat.mod_eq_of_lt hk, (htime _).mpr ht]
    rfl

/-- **The dump lists an index file** exactly if the file is one chunk at most and every time in it
is below 2^31.  `hfile` says that the file is one of `n` whole records; what `read` returns is then
what such a file has, a chunk at a time. -/
theorem index_listing_iff (hfile : WholeRecords abi file n) :
    ListsFile abi file n ↔
      n ≤ READ_IDX_CHUNK ∧ ∀ k < n, (abi.record file k).packetTimeInMs.toNat < 2 ^ 31 := by
  rw [listsFile_iff_lines hfile]
  constructor
  · intro hlines
    refine ⟨not_lt.mp fun hlt => ?_, fun k hk => (chunkLine_eq_iff.mp (hlines k hk)).2⟩
    exact lt_irrefl _ (chunkLine_eq_iff.mp (hlines READ_IDX_CHUNK hlt)).1
  · rintro ⟨hn, htimes⟩ k hk
    exact chunkLine_eq_iff.mpr ⟨lt_of_lt_of_le hk hn, htimes k hk⟩

end Listing

/-! ### Files of one byte repeated -/

/-- A file of `n` records, all of whose bytes are the same, so that every record has the same
numbers. -/
def uniformFile (b : Byte) (n : ℕ) : List Byte := List.replicate (n * 24) b

theorem wholeRecords_uniformFile {b : Byte} {n : ℕ} (hn : n < 2 ^ 31) :
    WholeRecords lp64 (uniformFile b n) n where
  length_eq := List.length_replicate
  count_lt := hn
  length_lt := by
    have hwidth : lp64.offWidth - 1 = 63 := rfl
    rw [uniformFile, List.length_replicate, hwidth]
    omega

/-- **The second chunk is numbered from 0**, and the largest time is shown as -1. -/
theorem second_chunk_restarts :
    ¬ ListsFile lp64 (uniformFile 0 (READ_IDX_CHUNK + 1)) (READ_IDX_CHUNK + 1) ∧
      ¬ ListsFile lp64 (uniformFile 255 1) 1 := by
  refine ⟨fun hlists => ?_, fun hlists => ?_⟩
  · have hfile : WholeRecords lp64 (uniformFile 0 (READ_IDX_CHUNK + 1)) (READ_IDX_CHUNK + 1) :=
      wholeRecords_uniformFile (by rw [READ_IDX_CHUNK_eq]; decide)
    have hline := (listsFile_iff_lines hfile).mp hlists READ_IDX_CHUNK (Nat.lt_succ_self _)
    exact lt_irrefl _ (chunkLine_eq_iff.mp hline).1
  · have hline := (listsFile_iff_lines (wholeRecords_uniformFile (by decide))).mp hlists 0
      Nat.zero_lt_one
    exact absurd (chunkLine_eq_iff.mp hline).2 (by decide +kernel)

/-- A file of two records is listed as it should be: it is one chunk, and its times are small. -/
theorem two_records_listed : ListsFile lp64 (uniformFile 1 2) 2 :=
  (index_listing_iff (wholeRecords_uniformFile (by decide))).mpr
    ⟨by rw [READ_IDX_CHUNK_eq]; decide, by decide +kernel⟩

end LeipoCode.ParseIndex
