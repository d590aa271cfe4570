import LeipoCode.Sbull.Media

/-!
# The timer

`sbull_open` deletes the timer and `sbull_release` adds it, and between the two statements that do
so and those that count in `users` others may open and release.  To add a timer that is pending is
an error of which the kernel dies, and `sbull_invalidate` checks that nobody has the disk open.

* `stopped_while_open` — what holds if opens and releases come one after the other;
* `timer_in_order_iff` — **the timer is added once and its check passes in every run** exactly if
  they do.

That opens and releases come one after the other is nothing the driver does: `lock` is taken in the
middle of `sbull_open`, behind `del_timer_sync`.  A block layer that sees to it has a semaphore
around both, for which the field `sem` of the disk stands; whether there is one is `Config.serial`.
Both directions are about runs in which `users` has room, as in `Media`, and the run that goes
astray without the semaphore takes two processes only.

### How it goes

With the semaphore the two functions are one section each, and what one of them has found when it
enters is still so when it leaves (`Expects`): behind `del_timer_sync` the timer is neither pending
nor at work, and stays so until this thread adds it.  Requests and the timer itself do not enter,
and do not start it.  So `Stopped`, that the timer is quiet while somebody has the disk open, holds
whenever the semaphore is free.

Without it, one process is stopped in `sbull_open` between `del_timer_sync` and the lock, while the
last other one closes the disk and adds the timer; the first goes on to count itself, closes, and
adds it again.
-/

namespace LeipoCode.Sbull

open Threads

variable {ι : Type} {c : Config}

/-! ### One after the other -/

/-- Opening or releasing: with the semaphore of the block layer, where there is one. -/
def Pc.serial : Pc → Bool
  | openDel | openLock | openUsers | openChanged | openRevalidate | openErase | openIncr
  | openUnlock | openEnd | relLock | relDecr | relTest | relTimer | relUnlock | relEnd => true
  | _ => false

/-- The timer is neither pending nor at work, so that nothing but an open or a release can start it.
-/
def Quiet (s : SbullDev) : Prop := s.timer = false ∧ s.running = 0

/-- So it is while the disk is open.  This holds whenever nobody opens or releases. -/
def Stopped (s : SbullDev) : Prop := s.users = 0 ∨ Quiet s

/-- What a thread may rely on that opens or releases: behind `del_timer_sync` the timer is quiet,
and stays so until this thread adds it. -/
def Expects (k : Pc) (s : SbullDev) : Prop :=
  match k with
  | .openDel | .relUnlock | .relEnd => Stopped s
  | .relTimer => s.users = 0 ∧ Quiet s
  | _ => Quiet s

/-- Whatever a thread may rely on that opens or releases, the timer has stopped if the disk is open.
-/
theorem Expects.stopped {k : Pc} {s : SbullDev} (h : Expects k s) : Stopped s := by
  cases k with
  | openDel | relUnlock | relEnd => exact h
  | relTimer => exact .inl h.1
  | _ => exact .inr h

section Serial

variable {s s' : SbullDev} {k k' : Pc} {e : Event}

/-- A statement as a step of the semaphore, in the sense of `LockStep`. -/
abbrev Follows (s : SbullDev) (k : Pc) (s' : SbullDev) (k' : Pc) : Prop :=
  LockStep SbullDev.sem Pc.serial Stopped Expects s k s' k'

/-- A statement of another one that keeps the timer quiet: a request, or the timer at work. -/
theorem follows_quiet (hk : k.serial = false) (hk' : k'.serial = false)
    (hsame : (s'.sem, s'.users) = (s.sem, s.users)) (hquiet : Quiet s → Quiet s') :
    Follows s k s' k' := by
  simp only [Prod.mk.injEq] at hsame
  obtain ⟨hsem, husers⟩ := hsame
  have hstopped : Stopped s → Stopped s' := Or.imp (Eq.trans husers) hquiet
  refine .outside hk hk' hsem hstopped fun j _ hj => ?_
  cases j with
  | openDel | relUnlock | relEnd => exact hstopped hj
  | relTimer => exact ⟨Eq.trans husers hj.1, hquiet hj.2⟩
  | _ => exact hquiet hj

/-- `sbull_open` stops the timer before it counts itself, and nobody else can start it until it is
done. -/
theorem OpenStep.follows (h : OpenStep c s k e s' k') (hc : c.serial = true) :
    Follows s k s' k' := by
  cases h with
  | call hfree => exact .enter rfl rfl (hfree hc) rfl id
  | del hrunning => exact .within rfl rfl rfl fun _ => ⟨rfl, hrunning⟩
  | lock | first | again | unchanged | changed | revalidate | valid | erase | incr | unlock =>
      exact .within rfl rfl rfl id
  | done => exact .leave rfl rfl rfl .inr

/-- `sbull_release` adds the timer when it was the last, and it has been counted itself until then
(`hK`). -/
theorem ReleaseStep.follows (h : ReleaseStep c s k e s' k') (hc : c.serial = true)
    (hK : Counted k s) : Follows s k s' k' := by
  cases h with
  | call hfree =>
      exact .enter rfl rfl (hfree hc) rfl fun (h : Stopped s) => h.resolve_left (hK.1 rfl)
  | lock | decr => exact .within rfl rfl rfl id
  | last hzero => exact .within rfl rfl rfl fun hquiet => ⟨hzero, hquiet⟩
  | more => exact .within rfl rfl rfl .inr
  | timer => exact .within rfl rfl rfl fun h => .inl h.1
  | unlock => exact .within rfl rfl rfl id
  | done => exact .leave rfl rfl rfl id

/-- The timer runs when it was pending, so not while somebody relies on it being quiet. -/
theorem InvalidateStep.follows (h : InvalidateStep s k e s' k') (hK : Counted k s) :
    Follows s k s' k' := by
  cases h with
  | call htimer =>
      refine follows_quiet rfl rfl rfl fun hquiet => ?_
      exact absurd (hquiet.1.symm.trans htimer) Bool.false_ne_true
  | lock | failed | passed | flag | unlock => exact follows_quiet rfl rfl rfl id
  | done => exact follows_quiet rfl rfl rfl fun hquiet => absurd hquiet.2 (hK.2 rfl).ne'

/-- Requests neither start the timer nor count anybody. -/
theorem RequestStep.follows (h : RequestStep c s k e s' k') : Follows s k s' k' := by
  cases h <;> exact follows_quiet rfl rfl rfl id

/-- **Every statement keeps to the semaphore**, where there is one: the step lemma, one case for
each part of the driver. -/
theorem Step.follows (h : Step c s k e s' k') (hc : c.serial = true) (hK : Counted k s) :
    Follows s k s' k' := by
  cases h with
  | open_ h => exact h.follows hc
  | release h => exact h.follows hc hK
  | invalidate h => exact h.follows hK
  | request h => exact h.follows

/-- What must not happen: a pending timer is added, or the check of `sbull_invalidate` fails. -/
def Event.astray : Event → Bool
  | addTimer true | insane => true
  | _ => false

/-- A statement whose thread may rely on what it expects neither adds a pending timer nor fails the
check. -/
theorem Step.in_order (h : Step c s k e s' k') (hK : Counted k s) (hstopped : Stopped s)
    (hexpects : k.serial = true → Expects k s) : e.astray = false := by
  cases h with
  | open_ h => cases h <;> rfl
  | release h =>
      cases h with
      | timer =>
          obtain ⟨-, htimer, -⟩ := hexpects rfl
          rw [htimer]
          rfl
      | _ => rfl
  | invalidate h =>
      cases h with
      | failed husers => exact absurd (hstopped.resolve_left husers).2 (hK.2 rfl).ne'
      | _ => rfl
  | request h => cases h <;> rfl

end Serial

/-- The semaphore guards `Stopped`, in the sense of `Lib.Threads`; at first nobody has the disk
open. -/
theorem timer_guarded (hc : c.serial = true) :
    Guarded (roomy c ι) (fun _ => Counted) SbullDev.sem Pc.serial Stopped Expects where
  start := rfl
  init := by
    rintro s ⟨data, rfl⟩
    exact ⟨rfl, .inl rfl⟩
  step _ _ _ _ _ _ hstep hK := Step.follows hstep.2 hc hK

variable [DecidableEq ι] {s : State ι SbullDev Pc}

/-- In every reachable state the timer is neither pending nor at work while the disk is open, and
who opens or releases may rely on what it expects. -/
theorem stopped_while_open (hc : c.serial = true) (h : (roomy c ι).lts.Reachable s) :
    Stopped s.shared ∧ ∀ t, (s.pc t).serial = true → Expects (s.pc t) s.shared := by
  have hheld := (timer_guarded hc).held (fun _ => counted_of_reachable) h
  refine ⟨?_, fun t ht => (hheld.of_inside ht).2.1⟩
  rcases hheld with ⟨-, hstopped, -⟩ | ⟨-, t, -, hexpects, -⟩
  · exact hstopped
  · exact hexpects.stopped

/-- With the semaphore nothing of the kind happens in any run: the first half of
`timer_in_order_iff`. -/
theorem timer_in_order (hc : c.serial = true) {s₀ : State ι SbullDev Pc} {ls : List (ι × Event)}
    (hinit : (roomy c ι).lts.init s₀) (hrun : (roomy c ι).lts.Run s₀ ls s) :
    ∀ l ∈ ls, l.2.astray = false := by
  induction hrun with
  | nil => exact fun _ hl => absurd hl List.not_mem_nil
  | @snoc ls l s₁ s' hrun hmoves ih =>
      intro l' hl'
      rcases List.mem_append.mp hl' with hl' | hl'
      · exact ih l' hl'
      · obtain rfl := List.mem_singleton.mp hl'
        obtain ⟨k', ⟨-, hk'⟩, -⟩ := hmoves
        have hreach := hrun.reachable (.init hinit)
        obtain ⟨hstopped, hexpects⟩ := stopped_while_open hc hreach
        exact Step.in_order hk' (counted_of_reachable hreach _) hstopped (hexpects _)

/-! ### At a time -/

section Meanwhile

variable {d : SbullDev} (t : ι)

omit [DecidableEq ι] in
/-- The first half of `sbull_open`, up to where the timer is deleted and the lock not yet taken. -/
theorem open_deletes_timer (hc : c.serial = false) (hrunning : d.running = 0) :
    ∃ es, Solo (roomy c ι) t d .idle es { d with sem := false, timer := false } .openLock := by
  have hrun := Solo.start (T := roomy c ι) (t := t) (s := d) (k := .idle)
    |>.next (Step.roomy (.open_ (.call fun h => absurd (hc.symm.trans h) Bool.false_ne_true))
      nofun)
    |>.next (Step.roomy (.open_ (.del hrunning)) nofun)
  exact ⟨_, hrun⟩

omit [DecidableEq ι] in
/-- The second half of `sbull_open`, for the first that opens a disk whose media is not changed: it
is counted, and the semaphore is free again. -/
theorem open_counts_first (hlock : d.lock = true) (husers : d.users = 0)
    (hmedia : d.mediaChange = false) :
    ∃ es, Solo (roomy c ι) t d .openLock es { d with lock := true, users := 1, sem := true }
      .opened := by
  have hroom : d.users + 1 ≠ 0 := by
    rw [husers]
    decide
  have hrun := Solo.start (T := roomy c ι) (t := t) (s := d) (k := .openLock)
    |>.next (Step.roomy (.open_ (.lock hlock)) nofun)
    |>.next (Step.roomy (.open_ (.first husers)) nofun)
    |>.next (Step.roomy (.open_ (.unchanged hmedia)) nofun)
    |>.next ⟨fun _ => hroom, .open_ .incr⟩
    |>.next (Step.roomy (.open_ .unlock) nofun)
    |>.next (Step.roomy (.open_ .done) nofun)
  rw [husers] at hrun
  exact ⟨_, hrun⟩

omit [DecidableEq ι] in
/-- `sbull_release` of the last one, up to where it is about to add the timer. -/
theorem release_of_last (hc : c.serial = false) (hlock : d.lock = true) (husers : d.users = 1) :
    ∃ es, Solo (roomy c ι) t d .opened es { d with lock := false, users := 0, sem := false }
      .relTimer := by
  have hrun := Solo.start (T := roomy c ι) (t := t) (s := d) (k := .opened)
    |>.next (Step.roomy
      (.release (.call fun h => absurd (hc.symm.trans h) Bool.false_ne_true)) nofun)
    |>.next (Step.roomy (.release (.lock hlock)) nofun)
    |>.next (Step.roomy (.release .decr) nofun)
    |>.next (Step.roomy (.release (.last (by rw [husers]; rfl))) nofun)
  rw [husers] at hrun
  exact ⟨_, hrun⟩

end Meanwhile

/-- One closes the disk while another opens it: the timer that the one has added is pending when the
other, which has not deleted it, closes the disk too. -/
theorem timer_added_twice (hc : c.serial = false) {t u : ι} (htu : t ≠ u) :
    ∃ s s' : State ι SbullDev Pc,
      (roomy c ι).lts.Reachable s ∧ (roomy c ι).lts.step s (u, .addTimer true) s' := by
  let d := SbullDev.initial fun _ => 0
  have hself (pc : ι → Pc) (v : ι) (k : Pc) : Function.update pc v k v = k :=
    Function.update_self ..
  -- `t` has it open, and `u` is on the way
  obtain ⟨es₁, h₁⟩ := open_deletes_timer (d := d) t hc rfl
  obtain ⟨es₂, h₂⟩ := open_counts_first (c := c) (d := { d with sem := false }) t rfl rfl rfl
  obtain ⟨es₃, h₃⟩ := open_deletes_timer (d := { d with users := 1 }) u hc rfl
  have hreach₂ := (h₁.trans h₂).reachable ⟨_, rfl⟩
  have hreach₃ := h₃.reachable_of (by rw [Function.update_of_ne htu.symm]; rfl) hreach₂
  -- `t` closes it
  obtain ⟨es₄, h₄⟩ := release_of_last (d := { d with users := 1, sem := false }) t hc rfl rfl
  have h₅ := h₄
    |>.next (Step.roomy (.release .timer) nofun)
    |>.next (Step.roomy (.release .unlock) nofun)
    |>.next (Step.roomy (.release .done) nofun)
  have hreach₅ := h₅.reachable_of (by rw [Function.update_of_ne htu, hself]) hreach₃
  -- `u` opens it and closes it
  obtain ⟨es₆, h₆⟩ := open_counts_first (c := c) (d := { d with timer := true }) u rfl rfl rfl
  obtain ⟨es₇, h₇⟩ := release_of_last (d := { d with users := 1, timer := true }) u hc rfl rfl
  have hreach₇ := (h₆.trans h₇).reachable_of
    (by rw [Function.update_of_ne htu.symm, hself]) hreach₅
  exact ⟨_, _, hreach₇, step_of _ (Step.roomy (.release .timer) nofun)⟩

/-- **The timer is added once and its check passes**, in every run in which `users` has room,
exactly if the block layer has one open or release after the other.  With room or without, there is
a run that goes astray if it has not: the one of `timer_added_twice` gets by with two processes. -/
theorem timer_in_order_iff {t u : ι} (htu : t ≠ u) :
    (∀ s₀ s ls, (roomy c ι).lts.init s₀ → (roomy c ι).lts.Run s₀ ls s →
      ∀ l ∈ ls, l.2.astray = false) ↔ c.serial = true := by
  refine ⟨fun hall => ?_, fun hc s₀ s ls hinit hrun => timer_in_order hc hinit hrun⟩
  by_contra hc
  obtain ⟨s, s', hreach, hstep⟩ := timer_added_twice (Bool.eq_false_iff.mpr hc) htu
  obtain ⟨s₀, ls, hinit, hrun⟩ := hreach.exists_run
  have hlast : (u, Event.addTimer true) ∈ ls ++ [(u, .addTimer true)] :=
    List.mem_append_right _ (List.mem_singleton_self _)
  have hastray := hall _ _ _ hinit (hrun.snoc hstep) _ hlast
  cases hastray

/-- Two processes for which the block layer does not see to it that one waits for the other: for
them it is not so. -/
theorem timer_in_order_iff_two : true ≠ false ∧
    ((∀ s₀ s ls, (roomy ⟨64, 524288, .simple, false⟩ Bool).lts.init s₀ →
      (roomy ⟨64, 524288, .simple, false⟩ Bool).lts.Run s₀ ls s → ∀ l ∈ ls, l.2.astray = false) ↔
        false = true) :=
  ⟨nofun, timer_in_order_iff (t := true) (u := false) nofun⟩

end LeipoCode.Sbull
