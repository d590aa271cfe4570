import LeipoCode.Lib.Threads

/-!
# An object and its callers

An object is a labelled transition system, and any number of callers use it at a time.  A caller
calls, at one instant its call has an effect on the object, and later it returns with what the
effect has given; or it returns without an effect.  Between the call and the return the others may
do what they like.  All of it is over arbitrary types of objects, calls, effects and results.

* `CallEvent` — what callers show of themselves, and `effects`, what the object sees of it;
* `Interface` — with what effect and by which result a call is answered, and how it is refused;
* `Interface.callers` — the object with its callers;
* `Interface.callers_object` — what the callers do, the object does;
* `Interface.answered_between` — **who returns has had an effect in between**, and returns what that
  effect has given;
* `Threads.run_callers` — a program is an object with callers, if its program points say how far
  each call is and its effects are runs of the object.

The effects stand in one order, which is that of the run, and each lies between the call and the
return of its own caller: an order of the effects like this is what makes an object with concurrent
callers look like one that is used by one of them at a time.  The object need not be determined, and
a call may be answered in several ways.  A call that never returns may have had its effect, or not.
-/

namespace LeipoCode

universe u v w x

/-- What a caller shows of itself.  Only `effect` is seen by the object, and the two others by
whoever has called. -/
inductive CallEvent (C : Type u) (Λ : Type v) (R : Type w)
  | silent
  | called (c : C)
  /-- The call takes effect. -/
  | effect (e : Λ)
  | returned (r : R)
deriving DecidableEq, Repr

/-- How far a caller is: between calls, with its call asked and not answered yet, or with the answer
that it is about to return. -/
inductive CallStage (C : Type u) (R : Type w)
  | idle
  | asked (c : C)
  | answered (r : R)

/-- How calls are answered: `answers c e r` if a call `c` may have the effect `e` and return `r` for
it, and `refuses c r` if it may return `r` without any.  This is where a model says what its return
values mean. -/
structure Interface (C : Type u) (Λ : Type v) (R : Type w) where
  answers : C → Λ → R → Prop
  refuses : C → R → Prop

variable {C : Type u} {Λ : Type v} {R : Type w}

namespace CallEvent

/-- What the object sees of an event: the effect, if it is one.  Calls and returns are between a
caller and whoever has called. -/
def effect? : CallEvent C Λ R → Option Λ
  | effect e => some e
  | silent | called _ | returned _ => none

end CallEvent

section Effects

variable {ι : Type*}

/-- What the object sees of all that happens, whoever does it, in the order of the run.  This is a
sequence of labels of the object. -/
def effects (ls : List (ι × CallEvent C Λ R)) : List Λ := ls.filterMap fun l => l.2.effect?

theorem effects_append (ls ls' : List (ι × CallEvent C Λ R)) :
    effects (ls ++ ls') = effects ls ++ effects ls' := List.filterMap_append

theorem effects_singleton (l : ι × CallEvent C Λ R) : effects [l] = l.2.effect?.toList := by
  rw [effects, List.filterMap_cons]
  cases l.2.effect? <;> rfl

/-- A history variable of the effects: an effect is put behind those before it, and no other event
changes it. -/
def CallEvent.record (es : List Λ) : CallEvent C Λ R → List Λ
  | effect e => es ++ [e]
  | silent | called _ | returned _ => es

/-- What is recorded of a run, beginning with nothing, is what the object sees of it. -/
theorem foldl_record (ls : List (ι × CallEvent C Λ R)) :
    (ls.map Prod.snd).foldl CallEvent.record [] = effects ls := by
  induction ls using List.reverseRecOn with
  | nil => rfl
  | append_singleton ls l ih =>
      rw [List.map_append, List.foldl_append, ih, effects_append, effects_singleton]
      obtain ⟨t, e⟩ := l
      cases e with
      | effect => rfl
      | _ => exact (List.append_nil _).symm

/-- A caller waits: it neither calls nor takes effect nor returns.  What the others do meanwhile is
not restricted. -/
def Waits (t : ι) (ls : List (ι × CallEvent C Λ R)) : Prop := ∀ l ∈ ls, l.1 = t → l.2 = .silent

/-- It has called, and waits since: there is no return of it behind the call, and nothing else it
shows. -/
def Asked (t : ι) (c : C) (ls : List (ι × CallEvent C Λ R)) : Prop :=
  ∃ before since, ls = before ++ (t, .called c) :: since ∧ Waits t since

variable {t : ι} {ls : List (ι × CallEvent C Λ R)} {l : ι × CallEvent C Λ R}

theorem Waits.snoc (h : Waits t ls) (hl : l.1 = t → l.2 = .silent) : Waits t (ls ++ [l]) := by
  intro l' hl'
  rcases List.mem_append.mp hl' with hl' | hl'
  · exact h l' hl'
  · rw [List.mem_singleton.mp hl']
    exact hl

theorem Asked.snoc {c : C} (h : Asked t c ls) (hl : l.1 = t → l.2 = .silent) :
    Asked t c (ls ++ [l]) := by
  obtain ⟨before, since, rfl, hwaits⟩ := h
  exact ⟨before, since ++ [l], by rw [List.append_assoc, List.cons_append], hwaits.snoc hl⟩

end Effects

namespace Interface

/-- What a caller does at each stage: it calls, is answered by an effect, and returns the answer; or
it returns from a call that was refused, without an effect. -/
inductive StageStep (I : Interface C Λ R) : CallStage C R → CallEvent C Λ R → CallStage C R → Prop
  | silent {g : CallStage C R} : StageStep I g .silent g
  | called {c : C} : StageStep I .idle (.called c) (.asked c)
  | effect {c : C} {e : Λ} {r : R} :
      I.answers c e r → StageStep I (.asked c) (.effect e) (.answered r)
  | returned {r : R} : StageStep I (.answered r) (.returned r) .idle
  | refused {c : C} {r : R} : I.refuses c r → StageStep I (.asked c) (.returned r) .idle

variable {σ : Type x} {ι : Type*} [DecidableEq ι]

/-- The object with its callers: it takes part in the effects, and in nothing else.  Who calls at a
time and how long a call waits is not restricted. -/
def callers (I : Interface C Λ R) (M : LTS σ Λ) (ι : Type*) [DecidableEq ι] :
    LTS (σ × (ι → CallStage C R)) (ι × CallEvent C Λ R) where
  init s := M.init s.1 ∧ ∀ t, s.2 t = .idle
  step s l s' := M.Run s.1 l.2.effect?.toList s'.1 ∧
    ∃ g, I.StageStep (s.2 l.1) l.2 g ∧ s'.2 = Function.update s.2 l.1 g

variable {I : Interface C Λ R} {M : LTS σ Λ} {s s' : σ × (ι → CallStage C R)}
  {ls : List (ι × CallEvent C Λ R)}

/-- **What the callers do, the object does**: a run of the callers is a run of the object, with the
events that it sees. -/
theorem callers_object (h : (I.callers M ι).Run s ls s') : M.Run s.1 (effects ls) s'.1 := by
  induction h with
  | nil => exact .nil
  | snoc _ hstep ih =>
      rw [effects_append, effects_singleton]
      exact ih.append hstep.1

/-- It has been answered: it had called, and waited until its call took effect on the object, which
the effects before had brought to `f`; and it waits since. -/
def Answered (I : Interface C Λ R) (M : LTS σ Λ) (f₀ : σ) (t : ι) (r : R)
    (ls : List (ι × CallEvent C Λ R)) : Prop :=
  ∃ c e before since f f', ls = before ++ (t, .effect e) :: since ∧ Asked t c before ∧
    Waits t since ∧ I.answers c e r ∧ M.Run f₀ (effects before) f ∧ M.step f e f'

omit [DecidableEq ι] in
theorem Answered.snoc {f₀ : σ} {t : ι} {r : R} {l : ι × CallEvent C Λ R}
    (h : I.Answered M f₀ t r ls) (hl : l.1 = t → l.2 = .silent) :
    I.Answered M f₀ t r (ls ++ [l]) := by
  obtain ⟨c, e, before, since, f, f', rfl, hasked, hwaits, hrest⟩ := h
  refine ⟨c, e, before, since ++ [l], f, f', ?_, hasked, hwaits.snoc hl, hrest⟩
  rw [List.append_assoc, List.cons_append]

/-- What a stage says of the past: an idle caller says nothing, one that has asked has called and
waits since, and one that is answered has had its effect since it called. -/
def Past (I : Interface C Λ R) (M : LTS σ Λ) (f₀ : σ) (t : ι) (ls : List (ι × CallEvent C Λ R)) :
    CallStage C R → Prop
  | .idle => True
  | .asked c => Asked t c ls
  | .answered r => I.Answered M f₀ t r ls

omit [DecidableEq ι] in
theorem Past.snoc {f₀ : σ} {t : ι} {g : CallStage C R} {l : ι × CallEvent C Λ R}
    (h : I.Past M f₀ t ls g) (hl : l.1 = t → l.2 = .silent) : I.Past M f₀ t (ls ++ [l]) g := by
  cases g with
  | idle => trivial
  | asked c => exact Asked.snoc h hl
  | answered r => exact Answered.snoc h hl

theorem past_of_run (h : (I.callers M ι).Run s ls s') (hs : ∀ t, s.2 t = .idle) (t : ι) :
    I.Past M s.1 t ls (s'.2 t) := by
  induction h with
  | nil =>
      rw [hs t]
      trivial
  | @snoc ls l s₁ s' hrun hstep ih =>
      obtain ⟨hobject, g, hg, hupdate⟩ := hstep
      rw [hupdate]
      by_cases ht : t = l.1
      · subst ht
        rw [Function.update_self]
        obtain ⟨u, e⟩ := l
        generalize hbefore : s₁.2 u = before at hg
        cases hg with
        | silent =>
            rw [← hbefore]
            exact ih.snoc fun _ => rfl
        | called => exact ⟨ls, [], rfl, nofun⟩
        | @effect c e r hanswers =>
            have hasked : I.Past M s.1 u ls (.asked c) := hbefore ▸ ih
            exact ⟨c, e, ls, [], s₁.1, s'.1, rfl, hasked, nofun, hanswers, callers_object hrun,
              hobject.step_of_singleton⟩
        | returned | refused => trivial
      · rw [Function.update_of_ne ht]
        exact ih.snoc fun hl => absurd hl.symm ht

/-- **Who returns has had an effect in between**, on the object as it was then, and returns what the
effect has given; or its call was refused. -/
theorem answered_between (h : (I.callers M ι).Run s ls s') (hs : ∀ t, s.2 t = .idle) {t : ι} {r : R}
    {s'' : σ × (ι → CallStage C R)} (hreturns : (I.callers M ι).step s' (t, .returned r) s'') :
    I.Answered M s.1 t r ls ∨ ∃ c, Asked t c ls ∧ I.refuses c r := by
  have hpast := past_of_run h hs t
  obtain ⟨-, g, hg, -⟩ := hreturns
  generalize s'.2 t = stage at hpast hg
  cases hg with
  | returned => exact .inl hpast
  | refused hrefuses => exact .inr ⟨_, hpast, hrefuses⟩

end Interface

/-- **A program is an object with callers**, if its program points say how far the calls are
(`stage`) and what its statements do to the object is a run of it.  The first is a property of every
statement of a reachable state (`hstep`), and the second is shown for the effects alone (`hobject`),
usually by an invariant of the lock around the object. -/
theorem Threads.run_callers {σ σ' : Type*} {κ : Type x} {ι : Type*} [DecidableEq ι]
    {T : Threads ι σ κ (CallEvent C Λ R)} {I : Interface C Λ R} {M : LTS σ' Λ}
    {stage : κ → CallStage C R}
    (hstart : stage T.start = .idle)
    (hstep : ∀ s l s', T.lts.Reachable s → T.lts.step s l s' →
      I.StageStep (stage (s.pc l.1)) l.2 (stage (s'.pc l.1)))
    {s₀ s : State ι σ κ} {ls : List (ι × CallEvent C Λ R)} (hinit : T.lts.init s₀)
    (h : T.lts.Run s₀ ls s) {f₀ f : σ'} (hobject : M.Run f₀ (effects ls) f) :
    (I.callers M ι).Run (f₀, fun _ => .idle) ls (f, fun t => stage (s.pc t)) := by
  induction h generalizing f with
  | nil =>
      obtain rfl := hobject.eq_of_nil
      have hidle : (fun t => stage (s₀.pc t)) = fun _ => .idle :=
        funext fun t => by rw [hinit.2 t, hstart]
      rw [hidle]
      exact .nil
  | @snoc ls l s₁ s' hrun hmoves ih =>
      rw [effects_append, effects_singleton] at hobject
      obtain ⟨f₁, hbefore, hlast⟩ := hobject.split
      refine (ih hbefore).snoc ⟨hlast, _, hstep _ _ _ (hrun.reachable (.init hinit)) hmoves, ?_⟩
      obtain ⟨k', -, hpc⟩ := hmoves
      rw [hpc, Function.update_self]
      exact Function.comp_update stage s₁.pc l.1 k'

end LeipoCode
