import LeipoCode.Sbull.Model

/-!
# Media changes

Who has the disk open is counted in `users`, and `lock` keeps the timer and those that open from
each other: the media only changes while nobody has the disk open.  This needs two things that the
driver does not see to itself.  `users` has 16 bits, and is zero again when 65536 processes have the
disk open (`Roomy`); and a process that has it open does not go on to use it after it has closed it,
which the program points see to here and the kernel does otherwise.

* `users_census`, `running_census` — who is counted, modulo the size of the word;
* `holders_lt` — as long as there is room in `users`, it is not zero while somebody has the disk;
* `lock_held` — what `lock` protects;
* `erased_closed` — **the disk is erased while nobody has it open**, and `erased_while_open` — that
  this does need the room;
* `disk_while_open` — so **it holds what was written** as long as one process has it open.

### How it goes

The census says of every reachable state what `users` is, and needs no condition: it is the number
of those that have the disk, as far as 16 bits can say.  Only with room does it follow that a
process that has the disk finds `users` not zero (`Counted`), and this is what each process knows on
its own, without the lock.  The rest is an invariant of the lock (`Lib.Threads`, `Guarded`):
whenever the lock is free nobody has the disk open or the media is the one they opened (`Settled`),
and who has the lock knows a bit more at each statement (`Relies`).  The one statement that would
break it is `sbull_invalidate` with its check passed, and the one that uses it is
`sbull_revalidate`.

The contents are then a matter of one process that keeps the disk open: as long as it does no step
erases, so the disk is what the events of the run have made of it.
-/

namespace LeipoCode.Sbull

open Threads

variable {ι : Type} [DecidableEq ι] {c : Config} {s : State ι SbullDev Pc}

/-! ### Who is counted -/

namespace Pc

/-- Counted in `users`: from the statement of `sbull_open` that counts to the one of `sbull_release`
that counts down. -/
def holds : Pc → Bool
  | openUnlock | openEnd | opened | reqLock _ | reqXfer _ _ | reqUnlock _ | relLock
  | relDecr => true
  | _ => false

/-- In `sbull_invalidate`, so that `del_timer_sync` waits for it. -/
def runs : Pc → Bool
  | invLock | invTest | invFlag | invUnlock | invEnd => true
  | _ => false

end Pc

section Counters

variable {s s' : SbullDev} {k k' : Pc} {e : Event}

/-- What a statement does to `users` is what its own thread does to the number of those that have
the disk open.  The word wraps on both sides of the equation. -/
theorem Step.users (h : Step c s k e s' k') :
    s'.users = s.users + (if k'.holds = true then 1 else 0) - if k.holds = true then 1 else 0 := by
  cases h with
  | open_ h => cases h <;> simp [Pc.holds]
  | release h => cases h <;> simp [Pc.holds]
  | invalidate h => cases h <;> simp [Pc.holds]
  | request h => cases h <;> simp [Pc.holds]

/-- The same of the runs of the timer, which are counted by the kernel and without a bound. -/
theorem Step.running (h : Step c s k e s' k') :
    s'.running =
      s.running + (if k'.runs = true then 1 else 0) - if k.runs = true then 1 else 0 := by
  cases h with
  | open_ h => cases h <;> simp [Pc.runs]
  | release h => cases h <;> simp [Pc.runs]
  | invalidate h => cases h <;> simp [Pc.runs]
  | request h => cases h <;> simp [Pc.runs]

/-- It is one statement of `sbull_open` by which a process comes to be counted, and no other. -/
theorem Step.incr (h : Step c s k e s' k') (hk : k.holds = false) (hk' : k'.holds = true) :
    k = .openIncr := by
  cases h with
  | open_ h =>
      cases h with
      | incr => rfl
      | unlock | done => cases hk
      | _ => cases hk'
  | release h =>
      cases h with
      | call | lock | decr => cases hk
      | _ => cases hk'
  | invalidate h => cases h <;> cases hk'
  | request h => cases h <;> cases hk

end Counters

/-- `users` is the number of those that have the disk open, as far as a word of 16 bits can say.  No
condition on the run: with 65536 of them the word is zero. -/
theorem users_census (h : (sbull c ι).lts.Reachable s) :
    ∃ n : ℕ, Census (fun t => (s.pc t).holds = true) n ∧ s.shared.users = n := by
  refine census_of_counter ?_ rfl (fun _ _ _ _ _ _ => Step.users) h
  rintro s ⟨data, rfl⟩
  rfl

/-- And `running` is the number of runs of the timer that are not over, without a condition as well.
-/
theorem running_census (h : (sbull c ι).lts.Reachable s) :
    ∃ n : ℕ, Census (fun t => (s.pc t).runs = true) n ∧ s.shared.running = n := by
  refine census_of_counter ?_ rfl (fun _ _ _ _ _ _ => Step.running) h
  rintro s ⟨data, rfl⟩
  rfl

/-- A run in which `users` does not come round to zero: `sbull_open` does not count a process when
it has counted 65535.  It bounds the step that would wrap the word, and says nothing of the states.
-/
def Roomy (s : SbullDev) (k : Pc) (_ : Event) : Prop := k = .openIncr → s.users + 1 ≠ 0

/-- The disk in such runs: all that is left out is the statement that takes `users` round to zero.
-/
abbrev roomy (c : Config) (ι : Type) : Threads ι SbullDev Pc Event := (sbull c ι).restrict Roomy

omit [DecidableEq ι] in
/-- A statement that does not count a process is one of a run with room. -/
theorem Step.roomy {t : ι} {d d' : SbullDev} {k k' : Pc} {e : Event} (h : Step c d k e d' k')
    (hk : k ≠ .openIncr) : (Sbull.roomy c ι).step t d k e d' k' :=
  ⟨fun hincr => absurd hincr hk, h⟩

/-- So less than 65536 processes have the disk open, and their number is what the word says. -/
theorem holders_lt (h : (roomy c ι).lts.Reachable s) {n : ℕ}
    (hn : Census (fun t => (s.pc t).holds = true) n) : n < 2 ^ 16 := by
  induction h generalizing n with
  | @init s hs =>
      have hzero : n = 0 := hn.eq_zero_iff.mpr fun t => by
        rw [hs.2 t]
        exact Bool.false_ne_true
      rw [hzero]
      decide
  | @step s s' l hreach hmoves ih =>
      obtain ⟨m, hm, husers⟩ := users_census (Reachable.of_restrict hreach)
      have hlt : m < 2 ^ 16 := ih hm
      obtain ⟨k', ⟨hroomy, hstep⟩, hpc⟩ := hmoves
      obtain ⟨m', hm', hcount⟩ := hm.change (t := l.1) (Q := fun t => (s'.pc t).holds = true)
        fun u hu => by rw [pc_other hpc hu]
      obtain rfl : n = m' := hn.unique hm'
      rw [pc_self hpc] at hcount
      by_cases hk : (s.pc l.1).holds = true
      · rw [if_pos hk] at hcount
        split_ifs at hcount <;> omega
      · by_cases hk' : k'.holds = true
        · -- one more: it is not the one that has no room
          have hincr := Step.incr hstep (Bool.eq_false_iff.mpr hk) hk'
          have hroom : m ≠ 65535 := by
            rintro rfl
            exact hroomy hincr (by rw [husers]; rfl)
          rw [if_neg hk, if_pos hk'] at hcount
          omega
        · rw [if_neg hk, if_neg hk'] at hcount
          omega

/-- What a thread knows of the counters without having the lock: it is counted in them itself, so
they are not zero. -/
def Counted (k : Pc) (s : SbullDev) : Prop :=
  (k.holds = true → s.users ≠ 0) ∧ (k.runs = true → 0 < s.running)

/-- And so it is in every state, since a census that is not empty is of a number that is not zero,
and has room in the word. -/
theorem counted_of_reachable (h : (roomy c ι).lts.Reachable s) (t : ι) :
    Counted (s.pc t) s.shared := by
  refine ⟨fun ht => ?_, fun ht => ?_⟩
  · obtain ⟨n, hn, husers⟩ := users_census (Reachable.of_restrict h)
    have hlt : n < 2 ^ 16 := holders_lt h hn
    rw [husers]
    intro hzero
    have hmod : n % 2 ^ 16 = 0 := congrArg BitVec.toNat hzero
    rw [Nat.mod_eq_of_lt hlt] at hmod
    exact (hn.pos ht).ne' hmod
  · obtain ⟨n, hn, hrunning⟩ := running_census (Reachable.of_restrict h)
    rw [hrunning, Int.natCast_pos]
    exact hn.pos ht

/-! ### The lock -/

/-- With `lock`.  A request without the lock of the queue is not, though it touches the data. -/
def Pc.locks : Pc → Bool
  | openUsers | openChanged | openRevalidate | openErase | openIncr | openUnlock
  | relDecr | relTest | relTimer | relUnlock | invTest | invFlag | invUnlock => true
  | reqXfer q _ | reqUnlock q => decide (q.mode ≠ .noqueue)
  | _ => false

/-- Nobody has the disk open, or the media is the one they opened.  This holds whenever the lock is
free. -/
def Settled (s : SbullDev) : Prop := s.users = 0 ∨ s.mediaChange = false

/-- What a thread may rely on that has the lock: who has found `users` zero may rely on it, and
behind `check_disk_change` the media is not a changed one. -/
def Relies (k : Pc) (s : SbullDev) : Prop :=
  match k with
  | .openChanged | .openRevalidate | .invFlag => s.users = 0
  | .openErase => s.users = 0 ∧ s.mediaChange = false
  | .openIncr => s.mediaChange = false
  | _ => Settled s

section Lock

variable {s s' : SbullDev} {k k' : Pc} {e : Event}

/-- A statement as a step of the lock: it takes it, gives it back, works under it, or is one of a
thread without it that leaves all of this as it is. -/
abbrev Locks (s : SbullDev) (k : Pc) (s' : SbullDev) (k' : Pc) : Prop :=
  LockStep SbullDev.lock Pc.locks Settled Relies s k s' k'

/-- A statement without the lock that leaves the counter and the media alone keeps what the lock is
for. -/
theorem locks_same (hk : k.locks = false) (hk' : k'.locks = false)
    (hsame : (s'.lock, s'.users, s'.mediaChange) = (s.lock, s.users, s.mediaChange)) :
    Locks s k s' k' := by
  simp only [Prod.mk.injEq] at hsame
  obtain ⟨hlock, husers, hmedia⟩ := hsame
  have hsettled : Settled s → Settled s' := by
    rw [Settled, Settled, husers, hmedia]
    exact id
  refine .outside hk hk' hlock hsettled fun j _ hj => ?_
  cases j with
  | openChanged | openRevalidate | invFlag => exact Eq.trans husers hj
  | openErase => exact ⟨Eq.trans husers hj.1, Eq.trans hmedia hj.2⟩
  | openIncr => exact Eq.trans hmedia hj
  | _ => exact hsettled hj

/-- `sbull_open` erases the disk when it has found `users` zero, and counts itself when the media is
not changed. -/
theorem OpenStep.locks (h : OpenStep c s k e s' k') : Locks s k s' k' := by
  cases h with
  | call | del | done => exact locks_same rfl rfl rfl
  | lock hfree => exact .enter rfl rfl hfree rfl id
  | first hzero => exact .within rfl rfl rfl fun _ => hzero
  | again husers =>
      exact .within rfl rfl rfl fun (hsettled : Settled _) => hsettled.resolve_left husers
  | unchanged hmedia => exact .within rfl rfl rfl fun _ => hmedia
  | changed => exact .within rfl rfl rfl id
  | revalidate => exact .within rfl rfl rfl fun hzero => ⟨hzero, rfl⟩
  | valid hmedia => exact .within rfl rfl rfl fun _ => hmedia
  | erase => exact .within rfl rfl rfl And.right
  | incr => exact .within rfl rfl rfl .inr
  | unlock => exact .leave rfl rfl rfl id

/-- `sbull_release` counts down what it has been counted (`hK`), so a disk that somebody else has
open keeps its media. -/
theorem ReleaseStep.locks (h : ReleaseStep c s k e s' k') (hK : Counted k s) :
    Locks s k s' k' := by
  cases h with
  | call | done => exact locks_same rfl rfl rfl
  | lock hfree => exact .enter rfl rfl hfree rfl id
  | decr =>
      refine .within rfl rfl rfl fun (hsettled : Settled s) => .inr ?_
      exact hsettled.resolve_left (hK.1 rfl)
  | last | more | timer => exact .within rfl rfl rfl id
  | unlock => exact .leave rfl rfl rfl id

/-- `sbull_invalidate` sets `media_change` when it has found `users` zero under the lock. -/
theorem InvalidateStep.locks (h : InvalidateStep s k e s' k') : Locks s k s' k' := by
  cases h with
  | call | done => exact locks_same rfl rfl rfl
  | lock hfree => exact .enter rfl rfl hfree rfl id
  | failed => exact .within rfl rfl rfl id
  | passed hzero => exact .within rfl rfl rfl fun _ => hzero
  | flag => exact .within rfl rfl rfl .inl
  | unlock => exact .leave rfl rfl rfl id

/-- Requests touch neither the counter nor the media, with the lock or without. -/
theorem RequestStep.locks (h : RequestStep c s k e s' k') : Locks s k s' k' := by
  cases h with
  | call => exact locks_same rfl rfl rfl
  | lock hmode hfree => exact .enter rfl (decide_eq_true hmode) hfree rfl id
  | noLock hmode =>
      exact locks_same rfl (decide_eq_false (not_not_intro hmode)) rfl
  | @transfer q =>
      by_cases hmode : q.mode = .noqueue
      · have hout : decide (q.mode ≠ .noqueue) = false := decide_eq_false (not_not_intro hmode)
        exact locks_same hout hout rfl
      · exact .within (decide_eq_true hmode) (decide_eq_true hmode) rfl id
  | @finished q =>
      by_cases hmode : q.mode = .noqueue
      · have hout : decide (q.mode ≠ .noqueue) = false := decide_eq_false (not_not_intro hmode)
        exact locks_same hout hout rfl
      · exact .within (decide_eq_true hmode) (decide_eq_true hmode) rfl id
  | unlock hmode => exact .leave (decide_eq_true hmode) rfl rfl id
  | noUnlock hmode => exact locks_same (decide_eq_false (not_not_intro hmode)) rfl rfl

/-- **Every statement keeps to the lock**: the step lemma, one case for each part of the driver. -/
theorem Step.locks (h : Step c s k e s' k') (hK : Counted k s) : Locks s k s' k' := by
  cases h with
  | open_ h => exact h.locks
  | release h => exact h.locks hK
  | invalidate h => exact h.locks
  | request h => exact h.locks

end Lock

omit [DecidableEq ι] in
/-- The lock guards `Settled`, in the sense of `Lib.Threads`; at first nobody has the disk open. -/
theorem lock_guarded : Guarded (roomy c ι) (fun _ => Counted) SbullDev.lock Pc.locks Settled Relies
    where
  start := rfl
  init := by
    rintro s ⟨data, rfl⟩
    exact ⟨rfl, .inl rfl⟩
  step _ _ _ _ _ _ hstep hK := Step.locks hstep.2 hK

/-- So in every reachable state of a roomy run at most one thread has the lock, it may rely on what
it has found, and without one the disk is settled. -/
theorem lock_held (h : (roomy c ι).lts.Reachable s) :
    Held SbullDev.lock Pc.locks Settled Relies s :=
  lock_guarded.held (fun _ => counted_of_reachable) h

/-- **The disk is erased while nobody has it open**: who has found the media changed and is about to
erase the disk is the first to open it, and stays the only one until it has counted itself. -/
theorem erased_closed (h : (roomy c ι).lts.Reachable s) {t u : ι} (ht : (s.pc t).holds = true) :
    s.pc u ≠ .openErase := by
  intro hu
  have hused : s.shared.users ≠ 0 := (counted_of_reachable h t).1 ht
  have hrelies := ((lock_held h).of_inside (t := u) (by rw [hu]; rfl)).2.1
  rw [hu] at hrelies
  exact hused hrelies.1

section Wrapped

variable (data : ℕ → UInt8)

omit [DecidableEq ι] in
/-- One more opens the disk, with `users` at any value: not zero, or zero with the media unchanged.
The counting may wrap. -/
theorem open_alone (n : BitVec 16) (t : ι) :
    ∃ es, Solo (sbull c ι) t { SbullDev.initial data with users := n } .idle es
      { SbullDev.initial data with users := n + 1 } .opened := by
  have htaken := Solo.start (T := sbull c ι) (t := t)
      (s := { SbullDev.initial data with users := n }) (k := .idle)
    |>.next (.open_ (.call fun _ => rfl))
    |>.next (.open_ (.del rfl))
    |>.next (.open_ (.lock rfl))
  obtain ⟨es, hcounts⟩ : ∃ es, Solo (sbull c ι) t { SbullDev.initial data with users := n } .idle
      es { SbullDev.initial data with users := n, sem := false, lock := false } .openIncr := by
    by_cases hn : n = 0
    · exact ⟨_, htaken.next (.open_ (.first hn)) |>.next (.open_ (.unchanged rfl))⟩
    · exact ⟨_, htaken.next (.open_ (.again hn))⟩
  exact ⟨_, hcounts.next (.open_ .incr) |>.next (.open_ .unlock) |>.next (.open_ .done)⟩

omit [DecidableEq ι] in
/-- The last one closes the disk, if the counter says so, and leaves a timer pending. -/
theorem release_last_alone (t : ι) :
    ∃ es, Solo (sbull c ι) t { SbullDev.initial data with users := 1 } .opened es
      { SbullDev.initial data with timer := true } .idle := by
  have hzero : (1 - 1 : BitVec 16) = 0 := by decide
  have hrun := Solo.start (T := sbull c ι) (t := t)
      (s := { SbullDev.initial data with users := 1 }) (k := .opened)
    |>.next (.release (.call fun _ => rfl))
    |>.next (.release (.lock rfl))
    |>.next (.release .decr)
    |>.next (.release (.last hzero))
    |>.next (.release .timer)
    |>.next (.release .unlock)
    |>.next (.release .done)
  have hcloses : ∃ es, Solo (sbull c ι) t { SbullDev.initial data with users := 1 } .opened es
      { SbullDev.initial data with users := 1 - 1, timer := true } .idle := ⟨_, hrun⟩
  rwa [hzero] at hcloses

/-- Any number of processes can have the disk open, and the counter then is that number as a word of
16 bits. -/
theorem holders_unbounded (n : ℕ) : (sbull c ℕ).lts.Reachable
    ⟨{ SbullDev.initial data with users := n }, fun t => if t < n then .opened else .idle⟩ := by
  induction n with
  | zero => exact .init ⟨⟨data, rfl⟩, fun t => rfl⟩
  | succ n ih =>
      obtain ⟨es, hopens⟩ := open_alone (c := c) data (n : BitVec 16) n
      have hreach := hopens.reachable_of (if_neg (lt_irrefl n)) ih
      have hpc : (fun t => if t < n + 1 then Pc.opened else .idle) =
          Function.update (fun t => if t < n then Pc.opened else .idle) n .opened := by
        funext t
        rw [Function.update_apply]
        split_ifs <;> first | rfl | omega
      rw [hpc]
      simpa using hreach

/-- Without room it is not so: `users` is zero when 65536 processes have the disk open, and if then
one more opens and closes it, the timer runs and the next one erases what the others work with.  The
condition of `erased_closed` is not idle. -/
theorem erased_while_open : ∃ s : State ℕ SbullDev Pc, (sbull c ℕ).lts.Reachable s ∧
    (∀ t < 2 ^ 16, s.pc t = .opened) ∧ s.pc (2 ^ 16 + 2) = .openErase := by
  let data : ℕ → UInt8 := fun _ => 0
  have hidle (t : ℕ) (ht : 2 ^ 16 ≤ t) :
      (if t < 2 ^ 16 then Pc.opened else .idle) = .idle := if_neg ht.not_gt
  have hreach := holders_unbounded (c := c) data (2 ^ 16)
  -- one more opens the disk, and closes it
  obtain ⟨es₁, hopens⟩ : ∃ es, Solo (sbull c ℕ) (2 ^ 16) (.initial data) .idle es
      { SbullDev.initial data with users := 1 } .opened := open_alone data 0 _
  obtain ⟨es₂, hcloses⟩ := release_last_alone (c := c) data (2 ^ 16)
  have hreach₁ := (hopens.trans hcloses).reachable_of (hidle _ le_rfl) hreach
  -- the timer runs
  have hruns := Solo.start (T := sbull c ℕ) (t := 2 ^ 16 + 1)
      (s := { SbullDev.initial data with timer := true }) (k := .idle)
    |>.next (.invalidate (.call rfl))
    |>.next (.invalidate (.lock rfl))
    |>.next (.invalidate (.passed rfl))
    |>.next (.invalidate .flag)
    |>.next (.invalidate .unlock)
    |>.next (.invalidate .done)
  have hreach₂ := hruns.reachable_of (by simp) hreach₁
  -- and the next one finds the media changed
  have hfinds := Solo.start (T := sbull c ℕ) (t := 2 ^ 16 + 2)
      (s := { SbullDev.initial data with mediaChange := true }) (k := .idle)
    |>.next (.open_ (.call fun _ => rfl))
    |>.next (.open_ (.del rfl))
    |>.next (.open_ (.lock rfl))
    |>.next (.open_ (.first rfl))
    |>.next (.open_ (.changed rfl))
    |>.next (.open_ (.revalidate rfl))
  have hreach₃ := hfinds.reachable_of (by simp) hreach₂
  refine ⟨_, hreach₃, fun t ht => ?_, by simp⟩
  have hne (n : ℕ) : t ≠ 2 ^ 16 + n := by omega
  exact (Function.update_of_ne (hne 2) ..).trans <| (Function.update_of_ne (hne 1) ..).trans <|
    (Function.update_of_ne (hne 0) ..).trans (if_pos ht)

end Wrapped

/-! ### The contents -/

/-- What an event does to the disk, unless it erases it.  A read leaves it as it is. -/
def Event.write (c : Config) (data : ℕ → UInt8) : Event → ℕ → UInt8
  | .transfer r _ => (r.run c data).1
  | _ => data

/-- The disk after these events: the specification of what it holds. -/
def written (c : Config) (data : ℕ → UInt8) (ls : List (ι × Event)) : ℕ → UInt8 :=
  ls.foldl (fun data l => l.2.write c data) data

omit [DecidableEq ι] in
/-- The disk after one more event is what that event does to it. -/
theorem written_snoc (data : ℕ → UInt8) (ls : List (ι × Event)) (l : ι × Event) :
    written c data (ls ++ [l]) = l.2.write c (written c data ls) :=
  List.foldl_append ..

/-- Every statement does to the disk what its event says, unless it is the one that erases. -/
theorem Step.data {s s' : SbullDev} {k k' : Pc} {e : Event} (h : Step c s k e s' k')
    (hk : k ≠ .openErase) : s'.data = e.write c s.data := by
  cases h with
  | open_ h =>
      cases h with
      | erase => exact absurd rfl hk
      | _ => rfl
  | release h => cases h <;> rfl
  | invalidate h => cases h <;> rfl
  | request h => cases h <;> rfl

/-- From `sbull_open` to `sbull_release`, with a request or without: the process has the disk open.
-/
def Pc.uses : Pc → Bool
  | opened | reqLock _ | reqXfer _ _ | reqUnlock _ => true
  | _ => false

/-- A process that uses the disk is counted, from before its first request to after its last one. -/
theorem Pc.uses_holds {k : Pc} (hk : k.uses = true) : k.holds = true := by
  cases k <;> first | rfl | cases hk

/-- A process that has the disk open keeps it open, unless the statement is the one that closes it.
-/
theorem Step.stays_open {s s' : SbullDev} {k k' : Pc} {e : Event} (h : Step c s k e s' k')
    (hk : k.uses = true) (he : e ≠ .closing) : k'.uses = true := by
  cases h with
  | open_ h => cases h <;> cases hk
  | release h =>
      cases h with
      | call => exact absurd rfl he
      | _ => cases hk
  | invalidate h => cases h <;> cases hk
  | request h => cases h <;> rfl

/-- As long as a process has the disk open, nothing but writes changes it.  Whoever writes: the
events are those of all threads, and only process `t` must not close the disk. -/
theorem written_run {s' : State ι SbullDev Pc} {ls : List (ι × Event)} {t : ι}
    (hreach : (roomy c ι).lts.Reachable s) (ht : (s.pc t).uses = true)
    (hrun : (roomy c ι).lts.Run s ls s') (hkeeps : (t, .closing) ∉ ls) :
    (s'.pc t).uses = true ∧ s'.shared.data = written c s.shared.data ls := by
  induction hrun with
  | nil => exact ⟨ht, rfl⟩
  | @snoc ls l s₁ s' hrun hmoves ih =>
      rw [List.mem_append, List.mem_singleton, not_or] at hkeeps
      obtain ⟨hopen, hdata⟩ := ih hkeeps.1
      obtain ⟨k', ⟨-, hk'⟩, hpc⟩ := hmoves
      refine ⟨?_, ?_⟩
      · by_cases hl : t = l.1
        · rw [hl] at hopen
          rw [hl, pc_self hpc]
          refine Step.stays_open hk' hopen fun hclosing => hkeeps.2 ?_
          rw [hl, ← hclosing]
        · rw [pc_other hpc hl]
          exact hopen
      · rw [written_snoc, ← hdata]
        exact Step.data hk' (erased_closed (hrun.reachable hreach) (Pc.uses_holds hopen))

end LeipoCode.Sbull
