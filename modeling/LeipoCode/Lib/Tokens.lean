import LeipoCode.Lib.Threads
import Mathlib.Data.List.Nodup
import Mathlib.Data.Sum.Basic

/-!
# Things that are handed around

Threads take things out of stacks they share and put them onto stacks, over arbitrary types of
things, of what they are worth, and of stacks.

* `Placed` — everything is in one place: once in one of the stacks, or in the hands of one of
  the threads;
* `Move` — what a statement may do: keep what its thread has in its hands, take a thing, or put
  it.  It may change what this thing is worth, and nothing else is worth anything new;
* `Carries.placed` — **nothing is lost or doubled**: if every statement is such a move, in
  every reachable state everything is in one place;
* `Carries.known` — what holds of a thing by where it is.

Neither stacks nor hands need be finite in number, and a thread has one thing in its hands at most.
What a thing is worth (`worth`) stands for what is in it: it changes only in the hands of a thread,
and what is known of it can depend on where it is, as that of a full and an empty buffer does.  A
program is seen to be one of this kind by a function that says what is on the stacks and another
that says what a program point has in its hands, and one `Move` for each of its statements; what
follows is a place for everything in every reachable state, that is that nothing is lost, and that
nothing is in two places.
-/

namespace LeipoCode

universe u v w x

variable {τ : Type*} {χ : Type*} {V : Type*}

/-- What one statement does to the stacks, to what things are worth, and to what its thread has in
its hands.  `S` is known of things on the stacks, `L` and `L'` of the one in its hands, before and
after. -/
inductive Move (S : χ → τ → V → Prop) (store store' : χ → List τ) (val val' : τ → V)
    (L L' : τ → V → Prop) : Option τ → Option τ → Prop
  | stay {h : Option τ} : (∀ x, store' x = store x) → (∀ p, h ≠ some p → val' p = val p) →
      (∀ p, h = some p → L p (val p) → L' p (val' p)) → Move S store store' val val' L L' h h
  | take {p : τ} (x : χ) : store x = p :: store' x → (∀ y, y ≠ x → store' y = store y) →
      (∀ r, r ≠ p → val' r = val r) → (S x p (val p) → L' p (val' p)) →
      Move S store store' val val' L L' none (some p)
  | put {p : τ} (x : χ) : store' x = p :: store x → (∀ y, y ≠ x → store' y = store y) →
      (∀ r, r ≠ p → val' r = val r) → (L p (val p) → S x p (val' p)) →
      Move S store store' val val' L L' (some p) none

/-- Everything is where `place` says: on one of the stacks once, or in somebody's hands. -/
structure Placed {ι : Type*} (store : χ → List τ) (hand : ι → Option τ) (place : τ → χ ⊕ ι) :
    Prop where
  nodup : ∀ x, (store x).Nodup
  mem_iff : ∀ x p, p ∈ store x ↔ place p = .inl x
  hand_iff : ∀ t p, hand t = some p ↔ place p = .inr t

namespace Placed

variable {ι : Type*} {store store' : χ → List τ} {hand hand' : ι → Option τ} {place : τ → χ ⊕ ι}

/-- Nothing is in two hands: a thing two threads have in their hands is in the hands of one. -/
theorem alone (h : Placed store hand place) {t u : ι} {p : τ} (ht : hand t = some p)
    (hu : hand u = some p) : t = u := by
  have htp := (h.hand_iff t p).mp ht
  rw [(h.hand_iff u p).mp hu] at htp
  exact (Sum.inr.inj htp).symm

/-- What is in somebody's hands is on no stack. -/
theorem notMem (h : Placed store hand place) {t : ι} {p : τ} (ht : hand t = some p) (x : χ) :
    p ∉ store x := by
  rw [h.mem_iff, (h.hand_iff t p).mp ht]
  exact Sum.inr_ne_inl

variable [DecidableEq τ] {t : ι} {p : τ}

theorem take (h : Placed store hand place) (x : χ) (htop : store x = p :: store' x)
    (hrest : ∀ y, y ≠ x → store' y = store y) (hbefore : hand t = none) (hafter : hand' t = some p)
    (hothers : ∀ u, u ≠ t → hand' u = hand u) :
    Placed store' hand' (Function.update place p (.inr t)) := by
  have hplace : place p = .inl x := (h.mem_iff x p).mp (htop ▸ List.mem_cons_self)
  have hnodup := h.nodup x
  rw [htop, List.nodup_cons] at hnodup
  refine ⟨fun y => ?_, fun y r => ?_, fun u r => ?_⟩
  · by_cases hy : y = x
    · rw [hy]
      exact hnodup.2
    · rw [hrest y hy]
      exact h.nodup y
  · by_cases hr : r = p
    · rw [hr, Function.update_self]
      refine iff_of_false (fun hmem => ?_) Sum.inr_ne_inl
      by_cases hy : y = x
      · exact hnodup.1 (hy ▸ hmem)
      · rw [hrest y hy, h.mem_iff, hplace] at hmem
        exact hy (Sum.inl.inj hmem).symm
    · rw [Function.update_of_ne hr, ← h.mem_iff]
      by_cases hy : y = x
      · rw [hy, htop, List.mem_cons, or_iff_right hr]
      · rw [hrest y hy]
  · by_cases hr : r = p <;> by_cases hu : u = t
    · rw [hr, hu, Function.update_self, hafter]
      exact iff_of_true rfl rfl
    · rw [hr, hothers u hu, Function.update_self, h.hand_iff, hplace]
      exact iff_of_false Sum.inl_ne_inr fun heq => hu (Sum.inr.inj heq).symm
    · rw [hu, hafter, Function.update_of_ne hr, ← h.hand_iff, hbefore]
      exact iff_of_false (fun heq => hr (Option.some.inj heq).symm) (Option.some_ne_none r).symm
    · rw [hothers u hu, Function.update_of_ne hr, h.hand_iff]

theorem put (h : Placed store hand place) (x : χ) (htop : store' x = p :: store x)
    (hrest : ∀ y, y ≠ x → store' y = store y) (hbefore : hand t = some p) (hafter : hand' t = none)
    (hothers : ∀ u, u ≠ t → hand' u = hand u) :
    Placed store' hand' (Function.update place p (.inl x)) := by
  have hplace : place p = .inr t := (h.hand_iff t p).mp hbefore
  refine ⟨fun y => ?_, fun y r => ?_, fun u r => ?_⟩
  · by_cases hy : y = x
    · rw [hy, htop, List.nodup_cons]
      exact ⟨h.notMem hbefore x, h.nodup x⟩
    · rw [hrest y hy]
      exact h.nodup y
  · by_cases hr : r = p
    · rw [hr, Function.update_self]
      by_cases hy : y = x
      · rw [hy, htop]
        exact iff_of_true List.mem_cons_self rfl
      · rw [hrest y hy]
        exact iff_of_false (h.notMem hbefore y) fun heq => hy (Sum.inl.inj heq).symm
    · rw [Function.update_of_ne hr, ← h.mem_iff]
      by_cases hy : y = x
      · rw [hy, htop, List.mem_cons, or_iff_right hr]
      · rw [hrest y hy]
  · by_cases hr : r = p <;> by_cases hu : u = t
    · rw [hr, hu, Function.update_self, hafter]
      exact iff_of_false (Option.some_ne_none p).symm Sum.inl_ne_inr
    · rw [hr, hothers u hu, Function.update_self, h.hand_iff, hplace]
      exact iff_of_false (fun heq => hu (Sum.inr.inj heq).symm) Sum.inl_ne_inr
    · rw [hu, hafter, Function.update_of_ne hr, ← h.hand_iff, hbefore]
      exact iff_of_false (Option.some_ne_none r).symm fun heq => hr (Option.some.inj heq).symm
    · rw [hothers u hu, Function.update_of_ne hr, h.hand_iff]

/-- One thread moves: it takes a thing, puts one away, or changes the one it has, and everything is
still at one place. -/
theorem move {S : χ → τ → V → Prop} {val val' : τ → V} {L L' : τ → V → Prop}
    (h : Placed store hand place) (hothers : ∀ u, u ≠ t → hand' u = hand u)
    (hmove : Move S store store' val val' L L' (hand t) (hand' t)) :
    ∃ place', Placed store' hand' place' := by
  generalize hbefore : hand t = before at hmove
  generalize hafter : hand' t = after at hmove
  cases hmove with
  | stay hsame =>
      refine ⟨place, ⟨fun x => hsame x ▸ h.nodup x, fun x p => hsame x ▸ h.mem_iff x p, ?_⟩⟩
      intro u p
      by_cases hu : u = t
      · rw [hu, hafter, ← hbefore]
        exact h.hand_iff t p
      · rw [hothers u hu]
        exact h.hand_iff u p
  | take x htop hrest => exact ⟨_, h.take x htop hrest hbefore hafter hothers⟩
  | put x htop hrest => exact ⟨_, h.put x htop hrest hbefore hafter hothers⟩

end Placed

/-- A program whose statements hand things around: `store` are the stacks, `hand` says what a
thread has in its hands at a program point, and `val` what a thing is worth.  As for a lock, `K` is
what is known anyway of the thread that is at work. -/
structure Carries {ι : Type u} {σ : Type v} {κ : Type w} {Λ : Type x} (T : Threads ι σ κ Λ)
    (K : ι → κ → σ → Prop) (store : σ → χ → List τ) (hand : κ → Option τ) (val : σ → τ → V)
    (S : χ → τ → V → Prop) (L : κ → τ → V → Prop) : Prop where
  start : hand T.start = none
  init : ∀ s, T.init s → (∀ x, (store s x).Nodup) ∧
    (∃ place : τ → χ, ∀ x p, p ∈ store s x ↔ place p = x) ∧
    ∀ x p, p ∈ store s x → S x p (val s p)
  step : ∀ t s k e s' k', T.step t s k e s' k' → K t k s →
    Move S (store s) (store s') (val s) (val s') (L k) (L k') (hand k) (hand k')

namespace Carries

variable [DecidableEq τ] {ι : Type u} [DecidableEq ι] {σ : Type v} {κ : Type w} {Λ : Type x}
  {T : Threads ι σ κ Λ} {K : ι → κ → σ → Prop} {store : σ → χ → List τ} {hand : κ → Option τ}
  {val : σ → τ → V} {S : χ → τ → V → Prop} {L : κ → τ → V → Prop} {s : Threads.State ι σ κ}

/-- **Nothing is lost or doubled**: in every reachable state each thing is at one place, on one
stack or in one hand. -/
theorem placed (hC : Carries T K store hand val S L)
    (hK : ∀ s, T.lts.Reachable s → ∀ t, K t (s.pc t) s.shared) (h : T.lts.Reachable s) :
    ∃ place, Placed (store s.shared) (fun t => hand (s.pc t)) place := by
  induction h with
  | @init s hs =>
      obtain ⟨hnodup, ⟨place, hplace⟩, -⟩ := hC.init _ hs.1
      refine ⟨fun p => .inl (place p), ⟨hnodup, fun x p => ?_, fun t p => ?_⟩⟩
      · simp only [hplace, Sum.inl.injEq]
      · rw [hs.2 t, hC.start]
        exact iff_of_false (Option.some_ne_none p).symm Sum.inl_ne_inr
  | @step s s' l hreach hstep ih =>
      obtain ⟨k', hk', hpc⟩ := hstep
      obtain ⟨place, hplace⟩ := ih
      have hmove := hC.step _ _ _ _ _ _ hk' (hK _ hreach _)
      rw [← Threads.pc_self hpc] at hmove
      exact hplace.move (fun u hu => congrArg hand (Threads.pc_other hpc hu)) hmove

/-- **What is known of a thing by where it is**: on a stack what `S` says of the stack, and in a
hand what `L` says of the program point of its holder. -/
theorem known (hC : Carries T K store hand val S L)
    (hK : ∀ s, T.lts.Reachable s → ∀ t, K t (s.pc t) s.shared) (h : T.lts.Reachable s) :
    (∀ x p, p ∈ store s.shared x → S x p (val s.shared p)) ∧
      ∀ t p, hand (s.pc t) = some p → L (s.pc t) p (val s.shared p) := by
  induction h with
  | @init s hs =>
      refine ⟨(hC.init _ hs.1).2.2, fun t p hp => ?_⟩
      rw [hs.2 t, hC.start] at hp
      cases hp
  | @step s s' l hreach hstep ih =>
      obtain ⟨place, hplace⟩ := hC.placed hK hreach
      obtain ⟨k', hk', hpc⟩ := hstep
      obtain ⟨hS, hL⟩ := ih
      have hself := Threads.pc_self hpc
      have hmove := hC.step _ _ _ _ _ _ hk' (hK _ hreach _)
      generalize hbefore : hand (s.pc l.1) = before at hmove
      generalize hafter : hand k' = after at hmove
      -- what others have in their hands is not what this thread had or has
      have hothers (hval : ∀ p, before ≠ some p → after ≠ some p →
            val s'.shared p = val s.shared p)
          (hfresh : ∀ u p, u ≠ l.1 → hand (s.pc u) = some p → after ≠ some p) (u : ι) (p : τ)
          (hu : u ≠ l.1) (hp : hand (s'.pc u) = some p) : L (s'.pc u) p (val s'.shared p) := by
        rw [Threads.pc_other hpc hu] at hp ⊢
        rw [hval p (fun hb => hu (hplace.alone hp (hbefore.trans hb))) (hfresh u p hu hp)]
        exact hL u p hp
      cases hmove with
      | stay hsame hval hkeep =>
          refine ⟨fun x p hp => ?_, fun u p hp => ?_⟩
          · rw [hsame] at hp
            rw [hval p fun hb => hplace.notMem (hbefore.trans hb) x hp]
            exact hS x p hp
          · by_cases hu : u = l.1
            · rw [hu, hself] at hp ⊢
              rw [hafter] at hp
              exact hkeep p hp (hL l.1 p (hbefore.trans hp))
            · refine hothers (fun p hb _ => hval p hb) (fun u p hu hp hb => ?_) u p hu hp
              exact hu (hplace.alone hp (hbefore.trans hb))
      | @take p x htop hrest hval htake =>
          have hp : p ∈ store s.shared x := htop ▸ List.mem_cons_self
          have hplace_p := (hplace.mem_iff x p).mp hp
          refine ⟨fun y r hr => ?_, fun u r hr => ?_⟩
          · have hry : r ∈ store s.shared y ∧ r ≠ p := by
              by_cases hy : y = x
              · subst hy
                have hnodup := hplace.nodup y
                rw [htop, List.nodup_cons] at hnodup
                exact ⟨htop ▸ List.mem_cons_of_mem p hr, fun heq => hnodup.1 (heq ▸ hr)⟩
              · rw [hrest y hy] at hr
                refine ⟨hr, fun heq => hy ?_⟩
                have hplace_r := (hplace.mem_iff y r).mp hr
                rw [heq, hplace_p] at hplace_r
                exact (Sum.inl.inj hplace_r).symm
            rw [hval r hry.2]
            exact hS y r hry.1
          · by_cases hu : u = l.1
            · rw [hu, hself] at hr ⊢
              rw [hafter] at hr
              obtain rfl := Option.some.inj hr
              exact htake (hS x p hp)
            · refine hothers (fun r _ ha => hval r fun heq => ha (heq ▸ rfl))
                (fun u r _ hr ha => ?_) u r hu hr
              exact hplace.notMem hr x (Option.some.inj ha ▸ hp)
      | @put p x htop hrest hval hput =>
          refine ⟨fun y r hr => ?_, fun u r hr => ?_⟩
          · by_cases hrp : r = p
            · subst hrp
              by_cases hy : y = x
              · rw [hy]
                exact hput (hL l.1 r hbefore)
              · rw [hrest y hy] at hr
                exact absurd hr (hplace.notMem hbefore y)
            · rw [hval r hrp]
              refine hS y r ?_
              by_cases hy : y = x
              · rw [hy, htop] at hr
                exact hy ▸ (List.mem_cons.mp hr).resolve_left hrp
              · rwa [hrest y hy] at hr
          · by_cases hu : u = l.1
            · rw [hu, hself, hafter] at hr
              cases hr
            · refine hothers (fun r hb _ => hval r fun heq => hb (heq ▸ rfl))
                (fun u r _ hr ha => by cases ha) u r hu hr

end Carries

end LeipoCode
