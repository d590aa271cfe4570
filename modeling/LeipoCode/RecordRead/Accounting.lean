import LeipoCode.RecordRead.Invariant
import Mathlib.Algebra.Order.Ring.Int

/-!
# The accounts of `Record_Task` when writes fail or are short

`Record_Task` adds whatever `write` returned to `TotalSize` and to `actual_file_size`; an
error is only printed.  A short count is what was appended, so it is accounted for; an
error is -1, so it takes a byte off both accounts that is still in the file.

`Ledger` says this for every sequence of results and any interleaving with `Read_Task`:
both accounts are the length of the file less the failures so far, the one in an `int`
modulo `2^32`.  The bound that keeps `TotalSize` from wrapping holds only while there was
no failure (`Bounded`); after one, the first test may already see `2^32 - 1`.

`record_accounts_iff` is then about the sequence of results alone: whether the accounts are right in
every state of every run with these results is a question of whether there is a failure among them.
Short writes are none.  The `Read_Task` may run at any time in between and does not matter, as it
writes neither the file nor the counter of the other task.
-/

namespace LeipoCode.RecordRead

open ByteFile

/-! ### The ledger -/

/-- The calls of `write` that failed: each of them returned -1, which is added to both counters. -/
def failures (ls : List (Task × Event)) : ℕ := ls.count (.record, .write (-1))

/-- What was returned by a `write` that is not accounted for yet, between the call and the
additions. -/
def RecordPc.pending : RecordPc → ℤ
  | .account bytesWritten => bytesWritten
  | _ => 0

/-- `Record_Task` has reported completion: its test for the size of the file has held once. -/
def RecordPc.reportedCompletion : RecordPc → Bool
  | .complete | .returned => true
  | _ => false

/-- The length of the file at each point of `Record_Task`, as long as no `write`
failed. -/
def Bounded (s : State) : Prop :=
  match s.recorder.pc with
  | .lock | .write | .release => (s.file.length : ℤ) < FILE_SIZE
  | .account bytesWritten =>
      bytesWritten ≤ RECORD_BUF_SIZE ∧ s.file.length - bytesWritten < FILE_SIZE
  | .test => (s.file.length : ℤ) < FILE_SIZE + RECORD_BUF_SIZE
  | .complete | .returned =>
      FILE_SIZE ≤ s.file.length ∧ (s.file.length : ℤ) < FILE_SIZE + RECORD_BUF_SIZE

/-- The accounts of `Record_Task` after a run with the labels `ls`: the length of the file less the
failures so far, whatever else has happened. -/
structure Ledger (ls : List (Task × Event)) (s : State) : Prop where
  offset : s.wtOff = s.file.length
  actual : s.actualFileSize + s.recorder.pc.pending = s.file.length - failures ls
  total : s.recorder.totalSize = BitVec.ofInt 32 s.actualFileSize
  bounded : failures ls = 0 → Bounded s

theorem ledger_initial : Ledger [] initial where
  offset := rfl
  actual := rfl
  total := rfl
  bounded := fun _ => by
    show ((0 : ℕ) : ℤ) < FILE_SIZE
    norm_num [FILE_SIZE]

section Step

variable {ls : List (Task × Event)} {s s' : State} {e : Event} {result : ℤ}

theorem failures_snoc (l : Task × Event) :
    failures (ls ++ [l]) = failures ls + if l = (.record, .write (-1)) then 1 else 0 := by
  unfold failures
  rw [List.count_append, List.count_singleton]
  simp

theorem failures_snoc_of_ne {l : Task × Event} (hl : l ≠ (.record, .write (-1))) :
    failures (ls ++ [l]) = failures ls := by
  rw [failures_snoc, if_neg hl, Nat.add_zero]

/-- Without a failure `TotalSize` is the length of the file, at the test that decides. -/
theorem Ledger.toNat_total (h : Ledger ls s) (hpc : s.recorder.pc.pending = 0)
    (hnone : failures ls = 0) (hbound : (s.file.length : ℤ) < FILE_SIZE + RECORD_BUF_SIZE) :
    s.recorder.totalSize.toNat = s.file.length := by
  have hactual : s.actualFileSize = s.file.length := by
    have := h.actual
    rw [hpc, hnone] at this
    omega
  have hwrap := fileSize_lt
  rw [h.total, hactual, BitVec.ofInt_natCast, BitVec.toNat_ofNat]
  exact Nat.mod_eq_of_lt (by omega)

/-- **A statement of `Record_Task` keeps the ledger**, whatever `write` returns. -/
theorem ledger_recordStep (h : Ledger ls s) (hresult : WriteResult result)
    (hstep : recordStep result s = some (e, s')) : Ledger (ls ++ [(.record, e)]) s' := by
  obtain ⟨hoffset, hactual, htotal, hbounded⟩ := id h
  unfold recordStep at hstep
  cases hpc : s.recorder.pc with
  | lock =>
      simp only [hpc] at hstep
      obtain ⟨t, hwait, heq⟩ := Option.map_eq_some_iff.mp hstep
      obtain ⟨rfl, rfl⟩ := Prod.mk.inj heq
      obtain ⟨-, ht⟩ := semWait_eq_some hwait
      rw [ht]
      have hsame : failures (ls ++ [(Task.record, Event.wait)]) = failures ls :=
        failures_snoc_of_ne (by decide)
      rw [hpc] at hactual
      refine ⟨hoffset, ?_, htotal, fun hnone => ?_⟩
      · rw [hsame]
        exact hactual
      · simpa [Bounded, hpc, State.setRecordPc] using hbounded (hsame ▸ hnone)
  | write =>
      simp only [hpc] at hstep
      obtain ⟨rfl, rfl⟩ := Prod.mk.inj (Option.some.inj hstep)
      simp only [hpc, RecordPc.pending, add_zero] at hactual
      have hfile : writeAt 0 s.file s.wtOff (recordBuf.take result.toNat)
          = s.file ++ recordBuf.take result.toNat := by
        rw [hoffset, writeAt_end]
      have hlen : (s.file ++ recordBuf.take result.toNat).length
          = s.file.length + result.toNat := by
        rw [List.length_append, List.length_take, length_recordBuf]
        rcases hresult with rfl | ⟨hpos, hle⟩ <;> omega
      rw [hfile]
      refine ⟨by rw [hlen, hoffset], ?_, htotal, fun hnone => ?_⟩
      · -- a count is what was appended, an error is a failure more and nothing appended
        rw [failures_snoc, hlen]
        simp only [RecordPc.pending]
        rcases hresult with rfl | ⟨hpos, -⟩
        · simp only [if_true]
          push_cast
          omega
        · rw [if_neg (by simp; omega)]
          push_cast
          omega
      · rw [failures_snoc] at hnone
        have hlt := hbounded (by omega)
        simp only [Bounded, hpc] at hlt
        rcases hresult with rfl | ⟨hpos, hle⟩
        · simp at hnone
        · simp only [Bounded, hlen]
          push_cast
          omega
  | account bytesWritten =>
      simp only [hpc] at hstep
      obtain ⟨rfl, rfl⟩ := Prod.mk.inj (Option.some.inj hstep)
      simp only [hpc, RecordPc.pending] at hactual
      have hsame : failures (ls ++ [(Task.record, Event.silent)]) = failures ls :=
        failures_snoc_of_ne (by decide)
      refine ⟨hoffset, ?_, ?_, fun hnone => ?_⟩
      · rw [hsame]
        simpa [RecordPc.pending] using hactual
      · rw [htotal]
        exact (BitVec.ofInt_add _ _).symm
      · have hlt := hbounded (hsame ▸ hnone)
        simp only [Bounded, hpc] at hlt ⊢
        omega
  | test =>
      simp only [hpc] at hstep
      obtain ⟨rfl, rfl⟩ := Prod.mk.inj (Option.some.inj hstep)
      simp only [hpc, RecordPc.pending] at hactual
      have hsame : failures (ls ++ [(Task.record, Event.silent)]) = failures ls :=
        failures_snoc_of_ne (by decide)
      refine ⟨hoffset, ?_, htotal, fun hnone => ?_⟩
      · rw [hsame]
        simp only [State.setRecordPc]
        split_ifs <;> simpa [RecordPc.pending] using hactual
      · have hbound := hbounded (hsame ▸ hnone)
        simp only [Bounded, hpc] at hbound
        have hcount := h.toNat_total (by rw [hpc]; rfl) (hsame ▸ hnone) hbound
        rw [hcount]
        by_cases hge : FILE_SIZE ≤ (s.file.length : ℤ)
        · simp only [Bounded, State.setRecordPc, if_pos hge]
          exact ⟨hge, hbound⟩
        · simp only [Bounded, State.setRecordPc, if_neg hge]
          omega
  | complete | release =>
      simp only [hpc] at hstep
      obtain ⟨rfl, rfl⟩ := Prod.mk.inj (Option.some.inj hstep)
      have hsame : failures (ls ++ [(Task.record, Event.post)]) = failures ls :=
        failures_snoc_of_ne (by decide)
      rw [hpc] at hactual
      refine ⟨hoffset, ?_, htotal, fun hnone => ?_⟩
      · rw [hsame]
        exact hactual
      · simpa [Bounded, hpc, State.setRecordPc, semPost] using hbounded (hsame ▸ hnone)
  | returned => simp [hpc] at hstep

/-- A statement of `Read_Task` touches nothing the ledger speaks of: the file and its accounts are
the business of the other task. -/
theorem ledger_readStep (h : Ledger ls s) (hstep : readStep s = some (e, s')) :
    Ledger (ls ++ [(.read, e)]) s' := by
  obtain ⟨hfile, hoff, hactual⟩ := readStep_frame hstep
  have hrec : s'.recorder = s.recorder := (readStep_lock hstep).2
  have hsame : failures (ls ++ [(Task.read, e)]) = failures ls := failures_snoc_of_ne (by simp)
  refine ⟨by rw [hfile, hoff, h.offset], by rw [hfile, hactual, hrec, hsame, h.actual],
    by rw [hrec, hactual, h.total], fun hnone => ?_⟩
  have hbound := h.bounded (hsame ▸ hnone)
  unfold Bounded at hbound ⊢
  rw [hrec, hfile]
  exact hbound

end Step

/-- The run lemma: after any run from the start the ledger is right, with no condition on what the
writes return. -/
theorem ledger_run {s : State} {ls : List (Task × Event)} (h : taskSys.Run initial ls s) :
    Ledger ls s := by
  apply h.invariant_trace (I := Ledger) ledger_initial
  rintro ls ⟨t, e⟩ s s' hledger hstep
  cases t with
  | record =>
      obtain ⟨result, hresult, hrec⟩ := hstep
      exact ledger_recordStep hledger hresult hrec
  | read => exact ledger_readStep hledger hstep

/-! ### The accounts -/

/-- Both accounts are the bytes in the file, which was empty, and completion is reported
of a file of `FILE_SIZE` bytes at least. -/
structure AccountsRight (s : State) : Prop where
  total : s.recorder.totalSize.toNat = s.file.length
  actual : s.actualFileSize = s.file.length
  completion : s.recorder.pc.reportedCompletion = true → FILE_SIZE ≤ s.file.length

/-- **The accounts are right exactly as long as no `write` has failed**, after every
iteration of every run, whatever counts `write` returned and however the two tasks are
interleaved.  (Between a `write` and the additions behind it nothing is asked.) -/
theorem record_accounts_iff {s : State} {ls : List (Task × Event)}
    (h : taskSys.Run initial ls s) (hpc : ∀ n, s.recorder.pc ≠ .account n) :
    AccountsRight s ↔ (Task.record, Event.write (-1)) ∉ ls := by
  have hledger := ledger_run h
  have hpending : s.recorder.pc.pending = 0 := by
    cases hs : s.recorder.pc with
    | account n => exact absurd hs (hpc n)
    | _ => rfl
  have hactual := hledger.actual
  rw [hpending, add_zero] at hactual
  rw [← List.count_eq_zero, show List.count _ ls = failures ls from rfl]
  constructor
  · intro hright
    have := hright.actual
    omega
  · intro hnone
    have hbounded := hledger.bounded hnone
    have hlt : (s.file.length : ℤ) < FILE_SIZE + RECORD_BUF_SIZE := by
      have hpos : (0 : ℤ) ≤ RECORD_BUF_SIZE := Int.natCast_nonneg _
      unfold Bounded at hbounded
      cases hs : s.recorder.pc with
      | account n => exact absurd hs (hpc n)
      | _ => simp only [hs] at hbounded; omega
    refine ⟨hledger.toNat_total hpending hnone hlt, by rw [hactual, hnone]; simp, ?_⟩
    intro hdone
    unfold Bounded at hbounded
    cases hs : s.recorder.pc with
    | complete | returned =>
        simp only [hs] at hbounded
        exact hbounded.1
    | _ => simp [hs, RecordPc.reportedCompletion] at hdone

/-- A short `write` of 100 bytes is accounted for: both counters say 100, which is what the file
has. -/
theorem record_accounts_iff_run :
    ∃ s : State, taskSys.Run initial
        [(.record, .wait), (.record, .write 100), (.record, .silent)] s ∧
      s.recorder.pc = .test ∧ AccountsRight s := by
  have hshort : WriteResult 100 := Or.inr ⟨by decide, by decide⟩
  have hrun := (LTS.Run.nil (M := taskSys) (s := initial)).snoc
    (l := (Task.record, Event.wait)) ⟨_, hshort, rfl⟩
  have hrun := hrun.snoc (l := (Task.record, Event.write 100)) ⟨_, hshort, rfl⟩
  have hrun := hrun.snoc (l := (Task.record, Event.silent)) ⟨_, hshort, rfl⟩
  exact ⟨_, hrun, rfl, (record_accounts_iff hrun (by simp)).mpr (by decide)⟩

/-- The first `write` fails: `TotalSize` is `2^32 - 1`, and `Record_Task` reports
completion of an empty file. -/
theorem failed_write_completes :
    ∃ s : State, taskSys.Run initial [(.record, .wait), (.record, .write (-1)),
        (.record, .silent), (.record, .silent)] s ∧
      s.recorder.pc = .complete ∧ s.file = [] ∧ s.recorder.totalSize.toNat = 2 ^ 32 - 1 ∧
      s.actualFileSize = -1 ∧ ¬ AccountsRight s := by
  have hfailed : WriteResult (-1) := Or.inl rfl
  have hrun := (LTS.Run.nil (M := taskSys) (s := initial)).snoc
    (l := (Task.record, Event.wait)) ⟨_, hfailed, rfl⟩
  have hrun := hrun.snoc (l := (Task.record, Event.write (-1))) ⟨_, hfailed, rfl⟩
  have hrun := hrun.snoc (l := (Task.record, Event.silent)) ⟨_, hfailed, rfl⟩
  have hrun := hrun.snoc (l := (Task.record, Event.silent)) ⟨_, hfailed, rfl⟩
  refine ⟨_, hrun, by decide, rfl, by decide, rfl, ?_⟩
  intro hright
  exact absurd hright.actual (by decide)

end LeipoCode.RecordRead
