import LeipoCode.Lib.Threads

/-!
# Wait queues

Threads that sleep until others wake them, over any program of `Lib.Threads`.  A thread that
finds itself blocked puts itself on a queue, looks again, and sleeps until it is taken off; who
unblocks others takes everybody off.

* `WaitQueue` — **the rule of the queue**: nobody sleeps who has not just seen that he is
  blocked, and who unblocks somebody owes a wake-up;
* `WaitQueue.no_lost_wakeup` — while nobody owes a wake-up, every sleeper is blocked.

The race that the rule excludes is the one between a look at the condition and the sleep.  Who looks
is on the queue already, so a wake-up that comes in between takes it off, and it does not sleep.  A
thread **owes** a wake-up from the statement that has unblocked somebody to the one that wakes, and
in that time a sleeper need not be blocked.  The lock under which the condition changes, if there is
one, does not come into it: who sleeps has looked without it.
-/

namespace LeipoCode

universe u v w x

variable {ι : Type u} {σ : Type v} {κ : Type w} {Λ : Type x}

namespace Threads

/-- What a statement of thread `t` must keep to: `queued` says who is on the queue, `sleeps` at
which program points a thread waits to be taken off, `blocked` whom of these the shared state
lets not go on, and `owes` who is about to wake the others, or to block them again.  Another
thread is at a program point that goes `together` with that of `t`. -/
structure WaitStep (queued : σ → ι → Bool) (sleeps : κ → Bool) (owes blocked : κ → σ → Prop)
    (together : κ → κ → Prop) (t : ι) (s : σ) (k : κ) (s' : σ) (k' : κ) : Prop where
  /-- Who goes to sleep on the queue has seen that he is blocked. -/
  sleep : sleeps k' = true → queued s' t = true → blocked k' s'
  /-- Nobody puts another thread on the queue. -/
  others : ∀ u, u ≠ t → queued s' u = true → queued s u = true
  /-- Who unblocks another thread owes a wake-up. -/
  unblock : ∀ u j, u ≠ t → queued s' u = true → sleeps j = true → blocked j s →
    blocked j s' ∨ owes k' s'
  /-- Who owes a wake-up goes on to owe it until nobody is left on the queue who could go on. -/
  pay : owes k s → owes k' s' ∨ ∀ u j, u ≠ t → queued s' u = true → sleeps j = true → blocked j s'
  /-- So does another thread that owes one. -/
  keep : ∀ i, together k i → owes i s →
    owes i s' ∨ ∀ u j, u ≠ t → queued s' u = true → sleeps j = true → blocked j s'

/-- **The rule of the queue**: every statement keeps to it.  `K` is what is known anyway of the
thread that is at work. -/
structure WaitQueue (T : Threads ι σ κ Λ) (K : ι → κ → σ → Prop) (queued : σ → ι → Bool)
    (sleeps : κ → Bool) (owes blocked : κ → σ → Prop) (together : κ → κ → Prop) : Prop where
  start : sleeps T.start = false
  step : ∀ t s k e s' k', T.step t s k e s' k' → K t k s →
    WaitStep queued sleeps owes blocked together t s k s' k'

/-! Where it is the program point alone that says who owes a wake-up. -/

namespace WaitStep

variable {queued : σ → ι → Bool} {sleeps owes : κ → Bool} {blocked : κ → σ → Prop}
  {together : κ → κ → Prop} {t : ι} {s s' : σ} {k k' : κ}

/-- A statement that neither sleeps nor unblocks anybody, with nothing owed. -/
theorem idle (hsleeps : sleeps k' = false) (howes : owes k = false)
    (hqueued : ∀ u, u ≠ t → queued s' u = true → queued s u = true)
    (hblocked : ∀ j, sleeps j = true → blocked j s → blocked j s') :
    WaitStep queued sleeps (fun k _ => owes k = true) blocked together t s k s' k' where
  sleep h := absurd (hsleeps.symm.trans h) Bool.false_ne_true
  others := hqueued
  unblock _ j _ _ hj h := .inl (hblocked j hj h)
  pay h := absurd (howes.symm.trans h) Bool.false_ne_true
  keep _ _ h := .inl h

/-- A statement after which its thread owes a wake-up, and does not sleep: whom it has unblocked
does not matter. -/
theorem owing (hsleeps : sleeps k' = false) (howes : owes k' = true)
    (hqueued : ∀ u, u ≠ t → queued s' u = true → queued s u = true) :
    WaitStep queued sleeps (fun k _ => owes k = true) blocked together t s k s' k' where
  sleep h := absurd (hsleeps.symm.trans h) Bool.false_ne_true
  others := hqueued
  unblock _ _ _ _ _ _ := .inr howes
  pay _ := .inl howes
  keep _ _ h := .inl h

/-- A statement after which everybody who is left on the queue is blocked. -/
theorem paid (hsleeps : sleeps k' = false)
    (hqueued : ∀ u, u ≠ t → queued s' u = true → queued s u = true)
    (hblocked : ∀ u j, u ≠ t → queued s' u = true → sleeps j = true → blocked j s') :
    WaitStep queued sleeps (fun k _ => owes k = true) blocked together t s k s' k' where
  sleep h := absurd (hsleeps.symm.trans h) Bool.false_ne_true
  others := hqueued
  unblock u j hu hq hj _ := .inl (hblocked u j hu hq hj)
  pay _ := .inr hblocked
  keep _ _ h := .inl h

/-- The last look before the sleep: the thread sees that it is blocked, and neither unblocks anybody
nor owes anything. -/
theorem asleep (howes : owes k = false)
    (hqueued : ∀ u, u ≠ t → queued s' u = true → queued s u = true)
    (hself : blocked k' s') (hblocked : ∀ j, sleeps j = true → blocked j s → blocked j s') :
    WaitStep queued sleeps (fun k _ => owes k = true) blocked together t s k s' k' where
  sleep _ _ := hself
  others := hqueued
  unblock _ j _ _ hj h := .inl (hblocked j hj h)
  pay h := absurd (howes.symm.trans h) Bool.false_ne_true
  keep _ _ h := .inl h

end WaitStep

/-- Thread `u` sleeps, and nobody has taken it off the queue.  One that was taken off goes on by
itself, and is of no concern. -/
def Asleep (queued : σ → ι → Bool) (sleeps : κ → Bool) (s : State ι σ κ) (u : ι) : Prop :=
  sleeps (s.pc u) = true ∧ queued s.shared u = true

variable [DecidableEq ι] {T : Threads ι σ κ Λ} {K : ι → κ → σ → Prop} {queued : σ → ι → Bool}
  {sleeps : κ → Bool} {owes blocked : κ → σ → Prop} {together : κ → κ → Prop}
  {s s' : State ι σ κ}

/-- One statement keeps it that whoever sleeps is blocked, or some thread owes a wake-up. -/
theorem WaitQueue.asleep_step {l : ι × Λ} (hW : WaitQueue T K queued sleeps owes blocked together)
    (hK : K l.1 (s.pc l.1) s.shared) (htogether : ∀ v, v ≠ l.1 → together (s.pc l.1) (s.pc v))
    (h : ∀ u, Asleep queued sleeps s u →
      blocked (s.pc u) s.shared ∨ ∃ v, owes (s.pc v) s.shared)
    (hstep : T.lts.step s l s') : ∀ u, Asleep queued sleeps s' u →
      blocked (s'.pc u) s'.shared ∨ ∃ v, owes (s'.pc v) s'.shared := by
  obtain ⟨k', hk', hpc⟩ := hstep
  have hQ := hW.step _ _ _ _ _ _ hk' hK
  have hself := pc_self hpc
  rintro u ⟨hsleeps, hqueued⟩
  by_cases hu : u = l.1
  · subst hu
    rw [hself] at hsleeps ⊢
    exact .inl (hQ.sleep hsleeps hqueued)
  · rw [pc_other hpc hu] at hsleeps ⊢
    rcases h u ⟨hsleeps, hQ.others u hu hqueued⟩ with hblocked | ⟨v, hv⟩
    · refine (hQ.unblock u _ hu hqueued hsleeps hblocked).imp_right fun howes => ?_
      exact ⟨l.1, by rwa [hself]⟩
    · by_cases hvl : v = l.1
      · subst hvl
        rcases hQ.pay hv with howes | hpaid
        · exact .inr ⟨l.1, by rwa [hself]⟩
        · exact .inl (hpaid u _ hu hqueued hsleeps)
      · rcases hQ.keep _ (htogether v hvl) hv with howes | hpaid
        · exact .inr ⟨v, by rwa [pc_other hpc hvl]⟩
        · exact .inl (hpaid u _ hu hqueued hsleeps)

/-- **No wake-up is lost**: in every reachable state a thread that sleeps is blocked, or some
thread is about to wake it. -/
theorem WaitQueue.no_lost_wakeup (hW : WaitQueue T K queued sleeps owes blocked together)
    (hK : ∀ s, T.lts.Reachable s → ∀ t, K t (s.pc t) s.shared)
    (htogether : ∀ s, T.lts.Reachable s → ∀ t u, u ≠ t → together (s.pc t) (s.pc u))
    (h : T.lts.Reachable s) (u : ι) (hu : Asleep queued sleeps s u) :
    blocked (s.pc u) s.shared ∨ ∃ v, owes (s.pc v) s.shared := by
  induction h generalizing u with
  | @init s hs =>
      obtain ⟨hsleeps, -⟩ := hu
      rw [hs.2 u, hW.start] at hsleeps
      cases hsleeps
  | step hs hstep ih => exact hW.asleep_step (hK _ hs _) (htogether _ hs _) ih hstep u hu

end Threads

end LeipoCode
