import LeipoCode.Mpeg2.Model
import Mathlib.Data.List.Nodup
import Mathlib.Tactic.Ring

/-!
# The loop that feeds the parser

The loop compares what `read` returns with zero and then hands the parser
`CHUNK_SIZE` bytes, and moves its offset on by as much.  So it does what it is for
exactly if every `read` before the one that finds the end returns `CHUNK_SIZE`
(`FullReads`): a shorter chunk, or an error, makes the parser read what was in the
buffer before, and makes the next `read` skip a part of the file.  The offset is an
`int`, which bounds the number of chunks.

`driver_full` computes the loop under that condition; `running_full` shows that
nothing else can have happened if all bytes handed over were just read.

The condition `FullReads` is on the results of `read` and on nothing that the loop computes.  For a
regular file, without signals, it says that its length is a multiple of `CHUNK_SIZE`: the last chunk
of any other file is short.

### How both directions go

Under `FullReads` pass `i` hands over the `i`-th chunk of the file, from the offset it is at, and
the loop leaves with the first `read` that returns zero, which is at the end of the file; each
packet lies in one chunk, since a chunk is a number of whole packets (`countP_covers`).

For the other direction, the loop hands over `CHUNK_SIZE` bytes whatever `read` has returned, unless
that is zero.  A call behind a `read` that was short or has failed is therefore handed bytes that
were not just read, which `Call.Fresh` forbids.  So a loop whose calls are all fresh has had full
reads all the way (`running_full`), up to the pass in which it leaves.
-/

namespace LeipoCode.Mpeg2

open ByteFile

/-- The call is handed all bytes of packet `k`, by the place in the file its buffer is meant to be
from. -/
def Call.covers (k : ℕ) (c : Call) : Bool :=
  decide (c.offset ≤ 188 * k ∧ 188 * k + 188 ≤ c.offset + c.size)

/-- The parser is only handed bytes that were just read, from the offset it is told. -/
def Call.Fresh (file : List Byte) (c : Call) : Prop :=
  (c.size : ℤ) ≤ c.count ∧ c.buff.take c.size = readAt file c.offset.toNat c.size

/-- The loop ends, hands over only what it has just read, and unless a `read` failed
hands over each packet of the file once. -/
def ParsesOnce (file garbage : List Byte) (results : ℕ → ℤ) : Prop :=
  ∃ n s, driver file garbage results n = .exited s ∧ (∀ c ∈ s.calls, c.Fresh file) ∧
    ((∀ c ∈ s.calls, c.count ≠ -1) →
      ∀ k, k < file.length / 188 → s.calls.countP (Call.covers k) = 1)

/-- `results` is what `read` may return to the loop on this file, at the positions the loop is at
when it calls it. -/
def ValidResults (file garbage : List Byte) (results : ℕ → ℤ) : Prop :=
  ∀ n s, driver file garbage results n = .running s →
    ReadResult file.length s.pos (results n)

/-- Every `read` before the one that returns zero fills the buffer, and their bytes
fit an `int`. -/
def FullReads (results : ℕ → ℤ) : Prop :=
  ∃ n : ℕ, (∀ i, i < n → results i = CHUNK_SIZE) ∧ results n = 0 ∧
    ((n * CHUNK_SIZE : ℕ) : ℤ) ≤ INT_MAX

/-- The call of pass `i`, if its `read` fills the buffer: the bytes of the file from there on. -/
def fullCall (file : List Byte) (i : ℕ) : Call :=
  ⟨(i * CHUNK_SIZE : ℕ), readAt file (i * CHUNK_SIZE) CHUNK_SIZE, CHUNK_SIZE, CHUNK_SIZE⟩

section Driver

variable {file garbage : List Byte} {results : ℕ → ℤ}

theorem chunkSize_pos : 0 < CHUNK_SIZE := by
  decide

/-! ### Passes -/

/-- The loop is running after a pass only if it was before it, and `read` did not
return zero. -/
theorem driver_succ_running {n : ℕ} {s' : DriverState}
    (h : driver file garbage results (n + 1) = .running s') :
    ∃ s, driver file garbage results n = .running s ∧ results n ≠ 0 ∧
      s.offset + CHUNK_SIZE ≤ INT_MAX ∧
      s' = ⟨(s.offset + CHUNK_SIZE).toNat, s.offset + CHUNK_SIZE,
        overwrite s.buff (readAt file s.pos (results n).toNat),
        s.calls ++ [⟨s.offset, overwrite s.buff (readAt file s.pos (results n).toNat),
          CHUNK_SIZE, results n⟩]⟩ := by
  rw [driver] at h
  cases hs : driver file garbage results n with
  | running s =>
      simp only [hs, driverPass] at h
      split_ifs at h with hzero hmax
      exact ⟨s, rfl, hzero, not_lt.mp hmax, (Progress.running.inj h).symm⟩
  | exited s => simp [hs] at h
  | overflow => simp [hs] at h

/-- The loop is over after a pass if it was before it, or `read` returned zero. -/
theorem driver_succ_exited {n : ℕ} {s : DriverState}
    (h : driver file garbage results (n + 1) = .exited s) :
    driver file garbage results n = .exited s ∨
      (driver file garbage results n = .running s ∧ results n = 0) := by
  rw [driver] at h
  cases hs : driver file garbage results n with
  | running t =>
      simp only [hs, driverPass] at h
      split_ifs at h with hzero
      exact Or.inr ⟨by rw [Progress.exited.inj h], hzero⟩
  | exited t =>
      simp only [hs] at h
      exact Or.inl h
  | overflow => simp [hs] at h

/-- A loop that has ended has left in some pass, whose `read` returned zero. -/
theorem exists_last_pass {n : ℕ} {s : DriverState}
    (h : driver file garbage results n = .exited s) :
    ∃ m, driver file garbage results m = .running s ∧ results m = 0 := by
  induction n with
  | zero => cases h
  | succ n ih =>
      rcases driver_succ_exited h with hn | ⟨hn, hzero⟩
      · exact ih hn
      · exact ⟨n, hn, hzero⟩

/-! ### Full reads -/

/-- The offset of the loop depends on the number of passes only, and not on what `read` has
returned; it fits an `int` as long as the loop runs. -/
theorem driver_offset {n : ℕ} {s : DriverState}
    (h : driver file garbage results n = .running s) :
    s.offset = (n * CHUNK_SIZE : ℕ) ∧ s.pos = n * CHUNK_SIZE ∧
      ((n * CHUNK_SIZE : ℕ) : ℤ) ≤ INT_MAX := by
  induction n generalizing s with
  | zero =>
      obtain rfl := Progress.running.inj h
      simp [INT_MAX]
  | succ n ih =>
      obtain ⟨t, ht, -, hmax, rfl⟩ := driver_succ_running h
      obtain ⟨hoffset, -, -⟩ := ih ht
      rw [hoffset] at hmax ⊢
      have hnext : (n + 1) * CHUNK_SIZE = n * CHUNK_SIZE + CHUNK_SIZE := by ring
      rw [hnext]
      push_cast at hmax ⊢
      refine ⟨rfl, ?_, hmax⟩
      omega

/-- If every call was handed only bytes that were just read, every `read` filled the
buffer. -/
theorem running_full (hvalid : ValidResults file garbage results) {n : ℕ} {s : DriverState}
    (h : driver file garbage results n = .running s)
    (hfresh : ∀ c ∈ s.calls, (c.size : ℤ) ≤ c.count) :
    ∀ i, i < n → results i = CHUNK_SIZE := by
  induction n generalizing s with
  | zero =>
      intro i hi
      cases hi
  | succ n ih =>
      obtain ⟨t, ht, hzero, -, rfl⟩ := driver_succ_running h
      intro i hi
      rcases Nat.lt_succ_iff_lt_or_eq.mp hi with hlt | rfl
      · exact ih ht (fun c hc => hfresh c (List.mem_append_left _ hc)) i hlt
      · have hge : (CHUNK_SIZE : ℤ) ≤ results i :=
          hfresh _ (List.mem_append_right _ (List.mem_singleton_self _))
        -- An error and the end of the file give less than a buffer.
        have hpos := chunkSize_pos
        rcases hvalid i t ht with herr | ⟨-, hnone⟩ | ⟨-, -, hle, -⟩
        · omega
        · omega
        · omega

/-- **The loop under full reads**: after `n` of them the parser was called for the first `n` chunks
of the file, each with its bytes and its offset. -/
theorem driver_full (hgarbage : garbage.length = CHUNK_SIZE)
    (hvalid : ValidResults file garbage results) {n : ℕ}
    (hfull : ∀ i, i < n → results i = CHUNK_SIZE)
    (hmax : ((n * CHUNK_SIZE : ℕ) : ℤ) ≤ INT_MAX) :
    ∃ buff, buff.length = CHUNK_SIZE ∧ n * CHUNK_SIZE ≤ file.length ∧
      driver file garbage results n = .running
        ⟨n * CHUNK_SIZE, (n * CHUNK_SIZE : ℕ), buff, (List.range n).map (fullCall file)⟩ := by
  induction n with
  | zero => exact ⟨garbage, hgarbage, Nat.zero_le _ |>.trans_eq' (by ring), by simp [driver]⟩
  | succ n ih =>
      have hnext : (n + 1) * CHUNK_SIZE = n * CHUNK_SIZE + CHUNK_SIZE := by ring
      rw [hnext] at hmax ⊢
      obtain ⟨buff, hbuff, -, hn⟩ := ih (fun i hi => hfull i (by omega)) (by omega)
      have hresult : results n = CHUNK_SIZE := hfull n (Nat.lt_succ_self n)
      have hpos := chunkSize_pos
      have hroom : n * CHUNK_SIZE + CHUNK_SIZE ≤ file.length := by
        rcases hvalid n _ hn with herr | ⟨-, hnone⟩ | ⟨-, -, -, hend⟩
        · omega
        · omega
        · rw [hresult] at hend
          exact_mod_cast hend
      have hread : (readAt file (n * CHUNK_SIZE) CHUNK_SIZE).length = CHUNK_SIZE := by
        rw [length_readAt]
        omega
      have hover : overwrite buff (readAt file (n * CHUNK_SIZE) CHUNK_SIZE)
          = readAt file (n * CHUNK_SIZE) CHUNK_SIZE :=
        overwrite_full (by omega)
      refine ⟨_, hread, hroom, ?_⟩
      have hne : ¬ (CHUNK_SIZE : ℤ) = 0 := by omega
      have hfits : ¬ INT_MAX < ((n * CHUNK_SIZE + CHUNK_SIZE : ℕ) : ℤ) := not_lt.mpr hmax
      rw [driver, hn]
      simp only [driverPass, hresult, Int.toNat_natCast, hover, if_neg hne,
        ← Int.natCast_add, if_neg hfits, List.range_succ, List.map_append,
        List.map_singleton, fullCall]

/-- Each packet of a file of whole chunks lies in one of them, since a chunk is a number of whole
packets. -/
theorem countP_covers {n k : ℕ} (hk : 188 * k + 188 ≤ n * CHUNK_SIZE) :
    ((List.range n).map (fullCall file)).countP (Call.covers k) = 1 := by
  -- A chunk is 6144 packets, so packet `k` lies in chunk `k / 6144` and in no other.
  have hcovers : ∀ i, (Call.covers k ∘ fullCall file) i = (i == k / 6144) := by
    intro i
    rw [Bool.eq_iff_iff, Function.comp_apply, Call.covers, decide_eq_true_eq, beq_iff_eq]
    simp only [fullCall, CHUNK_SIZE]
    omega
  have hmem : k / 6144 ∈ List.range n := by
    rw [List.mem_range]
    simp only [CHUNK_SIZE] at hk
    omega
  rw [List.countP_map, List.countP_congr fun i _ => by rw [hcovers i]]
  exact List.count_eq_one_of_mem (List.nodup_range) hmem

end Driver

/-- **When the loop parses every packet once and stops**: exactly if every `read` but the last
returns a full chunk.  It holds for every file of whole packets (`hsize`), whatever was in the
buffer (`hgarbage` says how long it is), and for every sequence of results that `read` may give on
such a file (`hvalid`), errors and short counts included. -/
theorem parsesOnce_iff {file garbage : List Byte} {results : ℕ → ℤ}
    (hsize : 188 ∣ file.length) (hgarbage : garbage.length = CHUNK_SIZE)
    (hvalid : ValidResults file garbage results) :
    ParsesOnce file garbage results ↔ FullReads results := by
  constructor
  · rintro ⟨n, s, hexit, hfresh, -⟩
    obtain ⟨m, hm, hzero⟩ := exists_last_pass hexit
    exact ⟨m, running_full hvalid hm fun c hc => (hfresh c hc).1, hzero,
      (driver_offset hm).2.2⟩
  · rintro ⟨n, hfull, hzero, hmax⟩
    obtain ⟨buff, -, hroom, hn⟩ := driver_full hgarbage hvalid hfull hmax
    -- `read` returns zero at the end of the file only.
    have hend : file.length = n * CHUNK_SIZE := by
      have hpos := chunkSize_pos
      rcases hvalid n _ hn with herr | ⟨hle, -⟩ | ⟨-, hgt, -⟩
      · omega
      · exact le_antisymm hle hroom
      · omega
    refine ⟨n + 1, ⟨n * CHUNK_SIZE, (n * CHUNK_SIZE : ℕ), buff,
      (List.range n).map (fullCall file)⟩, ?_, ?_, ?_⟩
    · rw [driver, hn]
      simp only [driverPass, hzero, if_true]
    · intro c hc
      obtain ⟨i, -, rfl⟩ := List.mem_map.mp hc
      refine ⟨le_rfl, ?_⟩
      rw [fullCall, Int.toNat_natCast, List.take_of_length_le]
      rw [length_readAt]
      exact min_le_left _ _
    · intro _ k hk
      exact countP_covers (by omega)

/-- The results of `read` on a file that one read of `count` bytes delivers. -/
def oneRead (count : ℕ) : ℕ → ℤ := fun i => if i = 0 then count else 0

theorem validResults_oneRead {file garbage : List Byte} (hpos : 0 < file.length)
    (hle : file.length ≤ CHUNK_SIZE) : ValidResults file garbage (oneRead file.length) := by
  intro n s hs
  rw [(driver_offset hs).2.1]
  cases n with
  | zero =>
      refine Or.inr (Or.inr ⟨by omega, ?_, ?_, ?_⟩)
      · simpa [oneRead] using hpos
      · simpa [oneRead] using hle
      · simp [oneRead]
  | succ n =>
      refine Or.inr (Or.inl ⟨?_, rfl⟩)
      exact hle.trans (Nat.le_mul_of_pos_left _ (Nat.succ_pos n))

/-- A file of one full chunk is parsed once, and the loop stops. -/
theorem parsesOnce_oneChunk :
    ParsesOnce (List.replicate CHUNK_SIZE 0x47) (List.replicate CHUNK_SIZE 0)
      (oneRead CHUNK_SIZE) := by
  have hlength : (List.replicate CHUNK_SIZE (0x47 : Byte)).length = CHUNK_SIZE :=
    List.length_replicate
  have hvalid : ValidResults (List.replicate CHUNK_SIZE 0x47) (List.replicate CHUNK_SIZE 0)
      (oneRead (List.replicate CHUNK_SIZE (0x47 : Byte)).length) :=
    validResults_oneRead (by rw [hlength]; exact chunkSize_pos) (by rw [hlength])
  rw [hlength] at hvalid
  refine (parsesOnce_iff ?_ List.length_replicate hvalid).mpr ⟨1, ?_, rfl, by decide⟩
  · rw [hlength]
    exact ⟨1024 * 6, rfl⟩
  · intro i hi
    obtain rfl : i = 0 := by omega
    rfl

/-- A file of one packet is not: the parser is handed a whole buffer, of which 188 bytes
were read. -/
theorem shortFile_not_parsed :
    ∃ file garbage : List Byte, file.length = 188 ∧ garbage.length = CHUNK_SIZE ∧
      ValidResults file garbage (oneRead 188) ∧
      (∃ s, driver file garbage (oneRead 188) 1 = .running s ∧
        s.calls.map (fun c => (c.offset, c.size, c.count)) = [(0, CHUNK_SIZE, 188)]) ∧
      ¬ ParsesOnce file garbage (oneRead 188) := by
  have hlength : (List.replicate 188 (0x47 : Byte)).length = 188 := List.length_replicate
  have hvalid : ValidResults (List.replicate 188 0x47) (List.replicate CHUNK_SIZE 0)
      (oneRead (List.replicate 188 (0x47 : Byte)).length) :=
    validResults_oneRead (by rw [hlength]; decide) (by rw [hlength]; decide)
  rw [hlength] at hvalid
  refine ⟨_, _, hlength, List.length_replicate, hvalid, ⟨_, rfl, rfl⟩, ?_⟩
  rintro ⟨n, s, hexit, hfresh, -⟩
  obtain ⟨m, hm, hzero⟩ := exists_last_pass hexit
  have hfull := running_full hvalid hm fun c hc => (hfresh c hc).1
  cases m with
  | zero => cases hzero
  | succ m => exact absurd (hfull 0 (Nat.succ_pos m)) (by decide)

end LeipoCode.Mpeg2
