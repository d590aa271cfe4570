import LeipoCode.Sleepy.Model

/-!
# Who is woken

* `sleeps_unset` — **nobody sleeps while the flag is set**, unless a writer is about to wake him;
* `returned_le_written` — of readers that come one at a time, undisturbed by signals, **no more
  return than writers have come**;
* `returned_together` — of those that come at a time **any number return for one writer**.

The first is the rule of the wait queue (`Lib.WaitQueue`), in every reachable state.  The second
counts: each writer that sets the flag lets one reader through, if no second reader looks at the
flag before the first one has cleared it.  Its two conditions are those under which this is so, and
`returned_together` is a run without the first of them; a reader that is woken by a signal goes on
without any writer, which is what the second one is for.

### What the count is

`Covers` is an invariant about numbers: as many have returned as writers have come, at most, with
one to spare if the flag is set, or if the one reader is past the flag and has not returned yet.  A
writer adds one on the right; a reader that has found the flag set takes over what was to spare for
the flag, clears it, and is counted when it returns.  With a second reader between the look at the
flag and the clearing of it the same writer would be counted for both, and this is the run of
`returned_together`, for any number of readers.

The one reader at a time is a lock in the sense of `Lib.Threads`, although the driver has none: the
condition on the run keeps the others out.
-/

namespace LeipoCode.Sleepy

open Threads

variable {ι : Type} [DecidableEq ι] {s : State ι (Shared ι) Pc}

/-! ### No wake-up is lost -/

namespace Pc

/-- In the wait, having found the flag not set while on the queue. -/
def sleeps : Pc → Bool
  | sleep => true
  | _ => false

/-- In `sleepy_write` behind the flag, and about to wake the queue. -/
def wakes : Pc → Bool
  | wake => true
  | _ => false

end Pc

/-- A statement of a reader takes nobody else off the queue, and puts nobody else there. -/
theorem queued_update {t u : ι} {wq : ι → Bool} {b : Bool} (hu : u ≠ t)
    (h : Function.update wq t b u = true) : wq u = true := by
  rwa [Function.update_of_ne hu] at h

/-- The queue is kept as `Lib.WaitQueue` asks: who sleeps on it waits for the flag, and a writer
owes a wake-up from when it has set it. -/
theorem sleepers_queue : WaitQueue (sleepy ι) (fun _ _ _ => True) Shared.wq Pc.sleeps
    (fun k _ => k.wakes = true) (fun _ s => s.flag = false) (fun _ _ => True) where
  start := rfl
  step t s k e s' k' hstep _ := by
    cases hstep with
    | read h =>
        cases h with
        | call | testTrue | testFalse | checkTrue | awake | signalled =>
            exact .idle rfl rfl (fun _ _ h => h) fun _ _ h => h
        | prepare | finish => exact .idle rfl rfl (fun _ => queued_update) fun _ _ h => h
        | checkFalse hflag => exact .asleep rfl (fun _ _ h => h) hflag fun _ _ h => h
        | clear => exact .idle rfl rfl (fun _ _ h => h) fun _ _ _ => rfl
    | write h =>
        cases h with
        | call => exact .idle rfl rfl (fun _ _ h => h) fun _ _ h => h
        | set => exact .owing rfl rfl fun _ _ h => h
        | wake => exact .paid rfl (fun _ _ h => nomatch h) fun _ _ _ h => nomatch h

/-- **Nobody sleeps while the flag is set**: who is asleep and still queued sees that it is not, or
a writer is about to wake him. -/
theorem sleeps_unset (h : (sleepy ι).lts.Reachable s) (t : ι) (hsleeps : s.pc t = .sleep)
    (hqueued : s.shared.wq t = true) : s.shared.flag = false ∨ ∃ u, s.pc u = .wake := by
  have hasleep : Asleep Shared.wq Pc.sleeps s t := ⟨by rw [hsleeps]; rfl, hqueued⟩
  refine (sleepers_queue.no_lost_wakeup (fun _ _ _ => trivial) (fun _ _ _ _ _ => trivial) h t
    hasleep).imp_right fun ⟨u, hu⟩ => ⟨u, ?_⟩
  generalize s.pc u = k at hu ⊢
  cases k <;> first | rfl | cases hu

/-! ### One reader at a time -/

/-- How often this happened in a run, whoever did it. -/
def happened (e : Event) (ls : List (ι × Event)) : ℕ := (ls.map Prod.snd).count e

/-- How many readers have returned, and how many writers have come: what the result compares. -/
structure Tally where
  returned : ℕ
  written : ℕ

/-- What has happened after one more event. -/
def Tally.note (g : Tally) (e : Event) : Tally :=
  ⟨g.returned + [e].count .returned, g.written + [e].count .written⟩

/-- The tally of a run, read off the events of the run. -/
theorem foldl_tally (es : List Event) (g : Tally) :
    es.foldl Tally.note g = ⟨g.returned + es.count .returned, g.written + es.count .written⟩ := by
  induction es generalizing g with
  | nil => rfl
  | cons e es ih =>
      have hcount (x : Event) : (e :: es).count x = [e].count x + es.count x := by
        rw [← List.singleton_append, List.count_append]
      rw [List.foldl_cons, ih, hcount, hcount]
      simp only [Tally.note, Nat.add_assoc]

/-- Nobody else reads, and there are no signals: the condition on the runs, at the call of a read
and at a signal. -/
def Alone (s : Shared ι) (_ : Pc) : Event → Prop
  | .reading => s.unread = true
  | .signal => False
  | _ => True

/-- In `sleepy_read`, from its first test to where it returns. -/
def Pc.reads : Pc → Bool
  | test | prepare | check | sleep | finish | clear => true
  | _ => false

/-- There is a writer for each that has returned, and one for the flag if it is set. -/
def Covered (s : Shared ι × Tally) : Prop := s.2.returned + s.1.flag.toNat ≤ s.2.written

/-- Also one for the reader that is about to return, who has taken the flag and is not counted yet.
-/
def Covers (k : Pc) (s : Shared ι × Tally) : Prop :=
  match k with
  | .finish | .clear => s.2.returned < s.2.written
  | _ => Covered s

omit [DecidableEq ι] in
/-- Whatever the reader is about to do, there are writers for all that have returned. -/
theorem Covers.le {k : Pc} {s : Shared ι × Tally} (h : Covers k s) :
    s.2.returned ≤ s.2.written := by
  cases k with
  | finish | clear => exact Nat.le_of_lt h
  | _ => exact (Nat.le_add_right ..).trans h

/-- The driver with one reader at a time, and with what has happened as a history. -/
def tallied (ι : Type) [DecidableEq ι] : Threads ι (Shared ι × Tally) Pc Event :=
  ((sleepy ι).restrict Alone).track Tally.note ⟨0, 0⟩

section Statements

variable {t : ι} {s s' : Shared ι} {k k' : Pc} {e : Event} {g : Tally}

/-- A statement as a step of the one reader at a time, in the sense of `LockStep`. -/
abbrev Keeps (s : Shared ι × Tally) (k : Pc) (s' : Shared ι × Tally) (k' : Pc) : Prop :=
  LockStep (fun s => s.1.unread) Pc.reads Covered Covers s k s' k'

/-- A reader takes over from the flag what was to spare, and uses it up when it returns. -/
theorem ReadStep.keeps (h : ReadStep t s k e s' k') (halone : Alone s k e) :
    Keeps (s, g) k (s', g.note e) k' := by
  cases h with
  | call => exact .enter rfl rfl halone rfl id
  | testTrue hflag | checkTrue hflag =>
      refine .within rfl rfl rfl fun (hcovered : _ + s.flag.toNat ≤ _) => ?_
      rw [hflag] at hcovered
      exact hcovered
  | testFalse | prepare | checkFalse | awake | finish => exact .within rfl rfl rfl id
  | signalled => exact halone.elim
  | clear => exact .leave rfl rfl rfl id

omit [DecidableEq ι] in
/-- A writer adds one on the right, which is enough for the flag whether it was set before or not.
-/
theorem WriteStep.keeps (h : WriteStep s k e s' k') : Keeps (s, g) k (s', g.note e) k' := by
  cases h with
  | call | wake => exact .outside rfl rfl rfl id fun _ _ => id
  | set =>
      -- one writer more is enough, whether the flag was set or not
      have hset (hle : g.returned ≤ g.written) : g.returned + 1 ≤ g.written + 1 :=
        Nat.succ_le_succ hle
      refine .outside rfl rfl rfl (fun hcovered => hset ((Nat.le_add_right ..).trans hcovered))
        fun j _ hj => ?_
      have hle : g.returned ≤ g.written := hj.le
      cases j <;> exact hset hle

end Statements

/-- The count is kept, in the sense of `Lib.Threads`, with the one reader in the place of the holder
of a lock. -/
theorem tally_guarded : Guarded (tallied ι) (fun _ _ _ => True) (fun s => s.1.unread) Pc.reads
    Covered Covers where
  start := rfl
  init := by
    rintro ⟨s, g⟩ ⟨hs, hg⟩
    have hs : s = .initial := hs
    have hg : g = ⟨0, 0⟩ := hg
    subst hs hg
    exact ⟨rfl, le_rfl⟩
  step := by
    rintro t ⟨s, g⟩ k e ⟨s', g'⟩ k' ⟨⟨halone, hstep⟩, hg⟩ -
    have hg : g' = g.note e := hg
    subst hg
    cases hstep with
    | read h => exact h.keeps halone
    | write h => exact h.keeps

/-- **No more readers return than writers have come**, if one reads at a time and there are no
signals.  The condition (`Alone`) is on the statements: a reader begins only while no other is in
between, and no wait is ended by a signal.  Without it any number of them can return for one writer
(`returned_together`). -/
theorem returned_le_written {s₀ : State ι (Shared ι) Pc} {ls : List (ι × Event)}
    (hinit : (sleepy ι).lts.init s₀) (hrun : ((sleepy ι).restrict Alone).lts.Run s₀ ls s) :
    happened .returned ls ≤ happened .written ls := by
  have hreach : (tallied ι).lts.Reachable ⟨(s.shared, _), s.pc⟩ :=
    reachable_track hinit hrun
  rw [foldl_tally, Nat.zero_add, Nat.zero_add] at hreach
  rcases tally_guarded.held (fun _ _ _ => trivial) hreach with
    ⟨-, hcovered, -⟩ | ⟨-, t, -, hcovers, -⟩
  · exact (Nat.le_add_right ..).trans hcovered
  · exact hcovers.le

/-- One writer comes, and then one reader, who does not wait and returns. -/
theorem returned_le_written_one : ∃ (s : State Unit (Shared Unit) Pc) (ls : List (Unit × Event)),
    (sleepy Unit).lts.Reachable s ∧ happened .returned ls = 1 ∧
      happened .returned ls ≤ happened .written ls := by
  have hstep {s s' : Shared Unit} {k k' : Pc} {e : Event} (h : Step () s k e s' k')
      (halone : Alone s k e) : ((sleepy Unit).restrict Alone).step () s k e s' k' := ⟨halone, h⟩
  have hrun := Solo.start (T := (sleepy Unit).restrict Alone) (t := ()) (s := .initial) (k := .idle)
    |>.next (hstep (.write .call) trivial)
    |>.next (hstep (.write .set) trivial)
    |>.next (hstep (.write .wake) trivial)
    |>.next (hstep (.read .call) rfl)
    |>.next (hstep (.read (.testTrue rfl)) trivial)
    |>.next (hstep (.read .clear) trivial)
  exact ⟨_, _, Reachable.of_restrict (hrun.reachable rfl), by exact rfl,
    returned_le_written (by exact ⟨rfl, fun _ => rfl⟩) hrun.run_start⟩

/-! ### Readers at a time -/

section Together

omit [DecidableEq ι] in
/-- How often something has happened, after one more statement. -/
theorem happened_snoc {ls : List (ι × Event)} {l : ι × Event} (e : Event) :
    happened e (ls ++ [l]) = happened e ls + [l.2].count e := by
  rw [happened, List.map_append, List.count_append]
  rfl

/-- A process does one statement more, while the others stay where they are. -/
theorem goes_on {s₀ s : State ι (Shared ι) Pc} {ls : List (ι × Event)} {t : ι} {k k' : Pc}
    {e : Event} {d : Shared ι} (hrun : (sleepy ι).lts.Run s₀ ls s) (ht : s.pc t = k)
    (hstep : Step t s.shared k e d k') :
    (sleepy ι).lts.Run s₀ (ls ++ [(t, e)]) ⟨d, Function.update s.pc t k'⟩ := by
  refine hrun.snoc ⟨k', ?_, rfl⟩
  subst ht
  exact hstep

/-- After one writer `n` readers have found the flag set, and are about to clear it. -/
theorem readers_find (n : ℕ) : ∃ (s : State ℕ (Shared ℕ) Pc) (ls : List (ℕ × Event)),
    (sleepy ℕ).lts.Run ⟨.initial, fun _ => .idle⟩ ls s ∧ s.shared.flag = true ∧
      (∀ t, s.pc t = if t < n then .clear else .idle) ∧
        happened .written ls = 1 ∧ happened .returned ls = 0 := by
  induction n with
  | zero =>
      have hwrite := Solo.start (T := sleepy ℕ) (t := 0) (s := .initial) (k := .idle)
        |>.next (.write .call)
        |>.next (.write .set)
        |>.next (.write .wake)
      refine ⟨_, _, hwrite.run_start, rfl, fun t => ?_, rfl, rfl⟩
      change Function.update (fun _ => Pc.idle) 0 .idle t = _
      rw [Function.update_eq_self_iff.mpr rfl]
      rfl
  | succ n ih =>
      obtain ⟨s, ls, hrun, hflag, hpc, hwritten, hreturned⟩ := ih
      have hidle : s.pc n = .idle := by rw [hpc, if_neg (lt_irrefl n)]
      have hcalls := goes_on hrun hidle (.read .call)
      have hfinds := goes_on hcalls (Function.update_self ..) (.read (.testTrue hflag))
      refine ⟨_, _, hfinds, hflag, fun t => ?_, ?_, ?_⟩
      · change Function.update (Function.update s.pc n .test) n .clear t = _
        rw [Function.update_idem]
        by_cases ht : t = n
        · rw [ht, Function.update_self, if_pos n.lt_succ_self]
        · rw [Function.update_of_ne ht, hpc]
          congr 1
          exact propext (by omega)
      · rw [happened_snoc, happened_snoc, hwritten]
        rfl
      · rw [happened_snoc, happened_snoc, hreturned]
        rfl

/-- **Any number of readers return for one writer**: each finds the flag set before the first of
them clears it. -/
theorem returned_together (n : ℕ) : ∃ (s : State ℕ (Shared ℕ) Pc) (ls : List (ℕ × Event)),
    (sleepy ℕ).lts.Run ⟨.initial, fun _ => .idle⟩ ls s ∧
      happened .written ls = 1 ∧ happened .returned ls = n := by
  -- the first `m` of them clear the flag
  have hclear (m : ℕ) (hm : m ≤ n) : ∃ (s : State ℕ (Shared ℕ) Pc) (ls : List (ℕ × Event)),
      (sleepy ℕ).lts.Run ⟨.initial, fun _ => .idle⟩ ls s ∧
        (∀ t, m ≤ t → t < n → s.pc t = .clear) ∧
          happened .written ls = 1 ∧ happened .returned ls = m := by
    induction m with
    | zero =>
        obtain ⟨s, ls, hrun, -, hpc, hwritten, hreturned⟩ := readers_find n
        exact ⟨s, ls, hrun, fun t _ ht => by rw [hpc, if_pos ht], hwritten, hreturned⟩
    | succ m ih =>
        obtain ⟨s, ls, hrun, hpc, hwritten, hreturned⟩ := ih (Nat.le_of_succ_le hm)
        have hclears := goes_on hrun (hpc m le_rfl hm) (.read .clear)
        refine ⟨_, _, hclears, fun t hmt ht => ?_, ?_, ?_⟩
        · change Function.update s.pc m .idle t = .clear
          rw [Function.update_of_ne (Nat.ne_of_gt hmt), hpc t (Nat.le_of_succ_le hmt) ht]
        · rw [happened_snoc, hwritten]
          rfl
        · rw [happened_snoc, hreturned]
          rfl
  obtain ⟨s, ls, hrun, -, hwritten, hreturned⟩ := hclear n le_rfl
  exact ⟨s, ls, hrun, hwritten, hreturned⟩

end Together

end LeipoCode.Sleepy
