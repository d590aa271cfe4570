import LeipoCode.Lib.Account
import LeipoCode.Player.PadLinks
import Mathlib.Algebra.Group.Pi.Basic
import Mathlib.Algebra.Order.Group.Int
import Mathlib.Tactic.Abel

/-!
# References to pads

`gst_element_get_static_pad` and `gst_pad_get_peer` hand out a reference, and `gst_object_unref`
takes it back.  Four functions take references to pads, and nothing but pads is given back by
them.

* `PlayerCall.padRef` — what a call does to the references the program has to each pad;
* `PlayerCall.strands` — the outcomes after which `create_source_element_2`,
  `create_sink_element_2` and `dropsink` return with references they have taken;
* `createSourceElement2_settles`, `createSinkElement2_settles`, `dropsink_settles` — **there
  are no others**;
* `callbacks` — pad-added callbacks one after another, with the references so far;
* `pad_references_balanced_iff` — **exactly when no reference is kept**.

The amounts are functions from pads to numbers, one account for each pad, so that a reference to one
pad is not balanced by another.  A pad that is `NULL` is none: a call that finds nothing hands
nothing out, and giving back `NULL` is not counted.  For the three functions that build and take
down the pipeline the account is walked through (`Lib.Account`) with the outcomes that strand a
reference as its note; for the callback it is computed from the executions of `PadLinks`, as whether
it gives back what it takes depends on a flag and not on an outcome.

### What comes out

The three functions give back what they take unless one of the outcomes of `strands` is met, and
none of these is a failure that they react to: the target of a ghost pad could not be set, a pad has
no peer, two pads could not be unlinked.  `Settled` says so in both directions, so that the outcomes
are all there are and each of them does strand a reference.

A callback is different.  It asks for the sink pad before it looks at the flag, and returns without
giving it back if the medium is linked already.  So what is kept depends on the state and on what
the pads before have left, and the result for callbacks one after another is that the account is
what it was just when every single one of them gives back what it takes; none of them gives back
more (`PadAccount.Step.held_le`), so what one keeps is not made good by another.
-/

namespace LeipoCode.Player

open Prog Discipline

/-! ### The account -/

/-- What a call does to the references to each pad: two calls take one to the pad they return, and
one gives one back. -/
def PlayerCall.padRef : (c : PlayerCall) → c.Resp → Ptr → ℤ
  | .gst (.elementGetStaticPad _ _) _, (pad : Ptr) => Pi.single pad 1
  | .gst (.padGetPeer _) _, (peer : Ptr) => Pi.single peer 1
  | .gst (.objectUnref object) _, _ => -Pi.single object 1
  | _, _ => 0

/-- The outcomes after which a reference is kept: a ghost pad whose target could not be set, a
pad without a peer, pads that could not be unlinked. -/
def PlayerCall.strands : (c : PlayerCall) → c.Resp → Bool
  | .gst (.ghostPadSetTarget ghostPad pad) _, (targetSet : Bool) =>
      decide (targetSet = false ∧ ¬ (ghostPad = NULL ∧ pad = NULL))
  | .gst (.padGetPeer pad) _, (peer : Ptr) => decide (¬ (pad = NULL ↔ peer = NULL))
  | .gst (.padUnlink _ _) _, (unlinked : Bool) => !unlinked
  | _, _ => false

/-- Keep the account of the references to pads, with a note of whether an outcome was met that
strands one. -/
abbrev padRules : Discipline PlayerCall PlayerCall.Resp (Account (Ptr → ℤ)) :=
  accounts PlayerCall.padRef fun c r => c.strands r = true

/-- The calls that do not matter for it, whatever they return: all but the ones about pads. -/
abbrev PlayerCall.Neutral : PlayerCall → Prop :=
  Discipline.Neutral PlayerCall.padRef fun c r => c.strands r = true

/-- No reference to a pad is kept, just when none of those outcomes was met. -/
def Settled (_ : Bool) (q : Account (Ptr → ℤ)) : Prop :=
  (∀ p, p ≠ NULL → q.balance p = 0) ↔ ¬ q.noted

theorem Settled.zero {r : Bool} : Settled r ⟨0, False⟩ :=
  ⟨fun _ => id, fun _ _ _ => rfl⟩

/-- A reference that was taken to what a call has returned counts only if a pad was returned. -/
theorem single_eq_zero_iff {pad : Ptr} :
    (∀ p, p ≠ NULL → (Pi.single pad 1 : Ptr → ℤ) p = 0) ↔ pad = NULL := by
  constructor
  · intro h
    by_contra hpad
    simpa using h pad hpad
  · rintro rfl p hp
    simp [hp]

/-- The same for two references, which may be to one pad. -/
theorem single_add_single_eq_zero_iff {pad pad' : Ptr} :
    (∀ p, p ≠ NULL → (Pi.single pad 1 + Pi.single pad' 1 : Ptr → ℤ) p = 0) ↔
      pad = NULL ∧ pad' = NULL := by
  have hnonneg (q p : Ptr) : 0 ≤ (Pi.single q 1 : Ptr → ℤ) p := by
    rw [Pi.single_apply]
    split <;> decide
  rw [← single_eq_zero_iff, ← single_eq_zero_iff, ← forall_and]
  refine forall_congr' fun p => ?_
  have hpad := hnonneg pad p
  have hpad' := hnonneg pad' p
  simp only [Pi.add_apply]
  constructor
  · intro h
    exact ⟨fun hp => by have := h hp; omega, fun hp => by have := h hp; omega⟩
  · rintro ⟨h, h'⟩ hp
    rw [h hp, h' hp, add_zero]

/-! ### The functions that build the bins -/

section Bins

variable {b : Build}

theorem neutral_loads (fs : List PtrField) : (loads fs).Calls PlayerCall.Neutral :=
  calls_loads (fun _ _ => ⟨rfl, nofun⟩) fs

theorem neutral_createSubtitleElements :
    createSubtitleElements.Calls PlayerCall.Neutral := by
  unfold createSubtitleElements
  repeat' first
    | refine Calls.bind (calls_lift.mpr fun _ => ⟨rfl, nofun⟩) fun _ => ?_
    | refine Calls.ite (fun _ => trivial) fun _ => ?_
  exact trivial

theorem neutral_addSinkElements {bin : Ptr} {e : SinkElements} :
    (addSinkElements b bin e).Calls PlayerCall.Neutral := by
  unfold addSinkElements
  refine Calls.ite (fun _ => ?_) fun _ => calls_lift.mpr fun _ => ⟨rfl, nofun⟩
  exact Calls.bind (neutral_loads _) fun _ => calls_lift.mpr fun _ => ⟨rfl, nofun⟩

theorem neutral_linkVideo {e : SinkElements} : (linkVideo b e).Calls PlayerCall.Neutral := by
  unfold linkVideo
  refine Calls.ite (fun _ => ?_) fun _ => calls_lift.mpr fun _ => ⟨rfl, nofun⟩
  exact Calls.bind (neutral_loads _) fun _ => calls_lift.mpr fun _ => ⟨rfl, nofun⟩

theorem neutral_linkAudio {e : SinkElements} : (linkAudio b e).Calls PlayerCall.Neutral := by
  unfold linkAudio
  refine Calls.ite (fun _ => ?_) fun _ => calls_lift.mpr fun _ => ⟨rfl, nofun⟩
  exact Calls.bind (neutral_loads _) fun _ => calls_lift.mpr fun _ => ⟨rfl, nofun⟩

theorem neutral_linkSubtitle : linkSubtitle.Calls PlayerCall.Neutral := by
  unfold linkSubtitle
  refine Calls.bind (neutral_loads _) fun _ => ?_
  refine Calls.bind (calls_lift.mpr fun _ => ⟨rfl, nofun⟩) fun _ => Calls.ite (fun _ => trivial) ?_
  intro _
  refine Calls.bind (calls_lift.mpr fun _ => ⟨rfl, nofun⟩) fun _ => ?_
  exact Calls.bind (calls_lift.mpr fun _ => ⟨rfl, nofun⟩) fun _ => trivial

/-- **The end both functions have**: point the ghost pad to the pad, and give both back. -/
theorem settles_setTarget {bin element : Ptr} {name ghostName : String} {rest : Action Bool}
    (hrest : rest.Calls PlayerCall.Neutral) :
    padRules.wp Settled (do
      let pad : Ptr ← untested (.elementGetStaticPad element name)
      let ghostPad : Ptr ← untested (.elementGetStaticPad bin ghostName)
      let targetSet : Bool ← tested (.ghostPadSetTarget ghostPad pad)
      if targetSet = false then
        return false
      objectUnref ghostPad
      objectUnref pad
      rest) ⟨0, False⟩ := by
  refine wp_bind.mpr ⟨trivial, fun pad _ => wp_bind.mpr ⟨trivial, fun ghostPad _ => ?_⟩⟩
  refine wp_bind.mpr ⟨trivial, fun targetSet _ => wp_ite (fun hset => ?_) fun hset => ?_⟩
  · -- both are kept, if there are both
    show Settled false ⟨0 + Pi.single pad 1 + Pi.single ghostPad 1 + 0,
      ((False ∨ _ = true) ∨ _ = true) ∨
        decide (targetSet = false ∧ ¬ (ghostPad = NULL ∧ pad = NULL)) = true⟩
    simp only [Settled, zero_add, add_zero, single_add_single_eq_zero_iff, false_or, hset,
      true_and, not_not, decide_eq_true_eq, PlayerCall.strands, Bool.false_eq_true]
    exact and_comm
  · refine wp_bind.mpr ⟨trivial, fun _ _ => wp_bind.mpr ⟨trivial, fun _ _ => ?_⟩⟩
    refine (returns_of_neutral_calls hrest).wp fun r _ => ?_
    show Settled r ⟨0 + Pi.single pad 1 + Pi.single ghostPad 1 + 0 + -Pi.single ghostPad 1 +
        -Pi.single pad 1,
      (((((False ∨ _ = true) ∨ _ = true) ∨ decide (targetSet = false ∧ _) = true) ∨ _ = true) ∨
        _ = true)⟩
    have hzero : (0 + Pi.single pad 1 + Pi.single ghostPad 1 + 0 + -Pi.single ghostPad 1 +
        -Pi.single pad 1 : Ptr → ℤ) = 0 := by
      abel
    rw [hzero]
    simp [Settled, hset, PlayerCall.strands]

theorem createSourceElement2_settles :
    padRules.wp Settled (createSourceElement2 b) ⟨0, False⟩ := by
  unfold createSourceElement2
  refine wp_pass (fun _ => ⟨rfl, nofun⟩) fun bin => wp_pass (fun _ => ⟨rfl, nofun⟩) fun source => ?_
  refine wp_ite (fun _ => .zero) fun _ => wp_pass (fun _ => ⟨rfl, nofun⟩) fun _ => ?_
  refine wp_pass (fun _ => ⟨rfl, nofun⟩) fun _ => wp_pass (fun _ => ⟨rfl, nofun⟩) fun _ => ?_
  apply settles_setTarget
  refine Calls.bind (calls_lift.mpr fun _ => ⟨rfl, nofun⟩) fun uri => ?_
  exact Calls.bind (calls_lift.mpr fun _ => ⟨rfl, nofun⟩) fun _ => trivial

/-- An element that is made, tested and stored on the way to the pads: no reference to a pad is
taken yet, and an early return keeps none. -/
theorem settles_sinkElement {factory name : String} {f : PtrField} {rest : Ptr → Action Bool}
    (hrest : ∀ x, padRules.wp Settled (rest x) ⟨0, False⟩) :
    padRules.wp Settled (do
      let x ← elementFactoryMake factory name
      if x = NULL then
        return false
      store f x
      rest x) ⟨0, False⟩ := by
  refine wp_pass (fun _ => ⟨rfl, nofun⟩) fun x => wp_ite (fun _ => .zero) fun _ => ?_
  exact wp_pass (fun _ => ⟨rfl, nofun⟩) fun _ => hrest x

/-- A neutral part, and the test of its result, on the way to the pads. -/
theorem settles_tested {part rest : Action Bool} (hpart : part.Calls PlayerCall.Neutral)
    (hrest : padRules.wp Settled rest ⟨0, False⟩) :
    padRules.wp Settled (do
      let done ← part
      if done = false then
        return false
      rest) ⟨0, False⟩ :=
  (returns_of_neutral_calls hpart).seq fun _ _ => wp_ite (fun _ => .zero) fun _ => hrest

theorem neutral_ifdef {symbol : Bool} {region : Action Bool}
    (h : region.Calls PlayerCall.Neutral) : (ifdef symbol region).Calls PlayerCall.Neutral :=
  Calls.ite (fun _ => h) fun _ => trivial

theorem createSinkElement2_settles :
    padRules.wp Settled (createSinkElement2 b) ⟨0, False⟩ := by
  unfold createSinkElement2
  refine wp_pass (fun _ => ⟨rfl, nofun⟩) fun bin => settles_sinkElement fun demux => ?_
  refine wp_pass (fun _ => ⟨rfl, nofun⟩) fun _ => settles_sinkElement fun videoDecoder => ?_
  refine settles_sinkElement fun videoSink => wp_pass (fun _ => ⟨rfl, nofun⟩) fun _ => ?_
  refine wp_pass (fun _ => ⟨rfl, nofun⟩) fun _ => ?_
  refine settles_tested (neutral_ifdef neutral_createSubtitleElements) ?_
  refine settles_sinkElement fun videoQueue => settles_sinkElement fun audioDecoder => ?_
  refine settles_sinkElement fun audioSink => wp_pass (fun _ => ⟨rfl, nofun⟩) fun _ => ?_
  refine wp_pass (fun _ => ⟨rfl, nofun⟩) fun _ => settles_sinkElement fun audioQueue => ?_
  refine (returns_of_neutral_calls neutral_addSinkElements).seq fun _ _ => ?_
  refine settles_tested neutral_linkVideo (settles_tested neutral_linkAudio ?_)
  refine settles_tested (neutral_ifdef neutral_linkSubtitle) ?_
  exact settles_setTarget (calls_pure (a := true))

end Bins

/-! ### `dropsink` -/

section Dropsink

variable {b : Build}

theorem neutral_restAll (fs : List PipelineField) : (restAll fs).Calls PlayerCall.Neutral := by
  induction fs with
  | nil => exact trivial
  | cons f fs ih =>
      refine Calls.bind ?_ fun _ => ih
      cases f <;> exact calls_lift.mpr fun _ => ⟨rfl, nofun⟩

/-- What follows the pads in `dropsink`: the queue and the sink are removed from the pipeline and
the fields put to rest, which is nothing to a pad. -/
theorem neutral_removal {mPipeline mQueue mSink : Ptr} :
    (do
      let queueRemoved : Bool ← tested (.binRemove mPipeline mQueue)
      if queueRemoved = false then
        return false
      let sinkRemoved : Bool ← tested (.binRemove mPipeline mSink)
      if sinkRemoved = false then
        return false
      resetSinkFields b
      return true : Action Bool).Calls PlayerCall.Neutral := by
  refine Calls.bind (calls_lift.mpr fun _ => ⟨rfl, nofun⟩) fun _ => Calls.ite (fun _ => trivial) ?_
  intro _
  refine Calls.bind (calls_lift.mpr fun _ => ⟨rfl, nofun⟩) fun _ => Calls.ite (fun _ => trivial) ?_
  intro _
  rw [resetSinkFields_eq]
  exact Calls.bind (neutral_restAll _) fun _ => trivial

theorem dropsink_settles : padRules.wp Settled (dropsink b) ⟨0, False⟩ := by
  unfold dropsink
  refine wp_pass (fun _ => ⟨rfl, nofun⟩) fun mPipeline => ?_
  refine wp_pass (fun _ => ⟨rfl, nofun⟩) fun mSink => ?_
  refine wp_pass (fun _ => ⟨rfl, nofun⟩) fun mQueue => ?_
  refine wp_pass (fun _ => ⟨rfl, nofun⟩) fun mTee => ?_
  refine wp_ite (fun _ => .zero) fun _ => wp_ite (fun _ => .zero) fun _ => ?_
  refine wp_ite (fun _ => .zero) fun _ => wp_pass (fun _ => ⟨rfl, nofun⟩) fun _ => ?_
  refine wp_pass (fun _ => ⟨rfl, nofun⟩) fun _ => ?_
  refine wp_bind.mpr ⟨trivial, fun queueSinkPad _ => wp_bind.mpr ⟨trivial, fun teeSrcPad _ => ?_⟩⟩
  refine wp_ite (fun hqueue => ?_) fun hqueue => wp_ite (fun htee => ?_) fun htee => ?_
  · -- a peer of no pad would be kept
    show Settled false ⟨0 + Pi.single queueSinkPad 1 + Pi.single teeSrcPad 1,
      (False ∨ _ = true) ∨ decide (¬ (queueSinkPad = NULL ↔ teeSrcPad = NULL)) = true⟩
    simp only [Settled, zero_add, single_add_single_eq_zero_iff, hqueue, false_or, true_and,
      true_iff, not_not, decide_eq_true_eq, PlayerCall.strands, Bool.false_eq_true]
  · -- the pad of the queue is kept
    show Settled false ⟨0 + Pi.single queueSinkPad 1 + Pi.single teeSrcPad 1,
      (False ∨ _ = true) ∨ decide (¬ (queueSinkPad = NULL ↔ teeSrcPad = NULL)) = true⟩
    simp only [Settled, zero_add, single_add_single_eq_zero_iff, hqueue, htee, false_or,
      false_and, false_iff, not_true, not_false_iff, decide_eq_true_eq, PlayerCall.strands,
      Bool.false_eq_true]
  · refine wp_bind.mpr ⟨trivial, fun unlinked _ => wp_ite (fun hunlinked => ?_) fun hunlinked => ?_⟩
    · -- both are kept
      show Settled false ⟨0 + Pi.single queueSinkPad 1 + Pi.single teeSrcPad 1 + 0,
        ((False ∨ _ = true) ∨ _ = true) ∨ (!unlinked) = true⟩
      simp only [Settled, zero_add, add_zero, single_add_single_eq_zero_iff, hqueue, hunlinked,
        Bool.not_false, or_true, false_and, not_true]
    · refine wp_pass (fun _ => ⟨rfl, nofun⟩) fun _ => wp_bind.mpr ⟨trivial, fun _ _ => ?_⟩
      refine wp_bind.mpr ⟨trivial, fun _ _ => ?_⟩
      refine (returns_of_neutral_calls neutral_removal).wp fun r _ => ?_
      show Settled r ⟨0 + Pi.single queueSinkPad 1 + Pi.single teeSrcPad 1 + 0 +
          -Pi.single teeSrcPad 1 + -Pi.single queueSinkPad 1,
        (((((False ∨ _ = true) ∨ decide (¬ (queueSinkPad = NULL ↔ teeSrcPad = NULL)) = true) ∨
          (!unlinked) = true) ∨ _ = true) ∨ _ = true)⟩
      have hzero : (0 + Pi.single queueSinkPad 1 + Pi.single teeSrcPad 1 + 0 +
          -Pi.single teeSrcPad 1 + -Pi.single queueSinkPad 1 : Ptr → ℤ) = 0 := by
        abel
      rw [hzero]
      simp [Settled, hqueue, htee, hunlinked, PlayerCall.strands]

end Dropsink

/-! ### The callback -/

/-- What a call of the callback does to the references to each pad: what it does as a call of the
player, and nothing if it is one of the six. -/
def PadCall.padRef : (c : PadCall) → c.Resp → Ptr → ℤ
  | .player c, r => c.padRef r
  | _, _ => 0

/-- The sink pad that is looked up in an execution of the callback, if one is. -/
def sinkPadFound : Trace PadCall PadCall.Resp → Ptr
  | [] => NULL
  | ⟨.player (.gst (.elementGetStaticPad _ _) _), pad⟩ :: _ => pad
  | _ :: tr => sinkPadFound tr

/-- What a callback meets: the name of the caps, and the sink pad it finds, which is `NULL` if it
looks for none. -/
structure PadEvent where
  name : List Char
  sinkPad : Ptr
deriving DecidableEq, Repr

/-- The medium of the new pad is not linked, or there is no sink pad that a reference could be kept
to. -/
def PadEvent.GivesBack (b : Build) (s : Shared) (e : PadEvent) : Prop :=
  ∀ m, b.medium e.name = some m → s.player.padLinked m = true → e.sinkPad = NULL

section Callback

variable {b : Build} {t : Thread} {s s' : Shared} {pad : Ptr} {name : List Char}
  {tr : Trace PadCall PadCall.Resp}

/-- The branch of a medium gives the sink pad back unless the medium is linked. -/
theorem MediumExec.net {f : PtrField} {m : LinkedField} {sinkPad : Ptr}
    (h : MediumExec s f m pad sinkPad tr s') :
    sinkPadFound tr = sinkPad ∧ Prog.net PadCall.padRef tr =
      if s.player.padLinked m = true then Pi.single sinkPad 1 else 0 := by
  cases h with
  | already halready =>
      refine ⟨rfl, ?_⟩
      simp [lookup, Prog.net, PadCall.padRef, PlayerCall.padRef, halready]
  | failed hfree =>
      refine ⟨rfl, ?_⟩
      simp [lookup, Prog.net, PadCall.padRef, PlayerCall.padRef, hfree]
  | linked hfree =>
      refine ⟨rfl, ?_⟩
      simp [lookup, Prog.net, PadCall.padRef, PlayerCall.padRef, hfree]

/-- **One callback**: it keeps the reference to the sink pad it finds, or none. -/
theorem net_onDemuxSrcPadAdded
    (h : Exec (Shared.PerformsPad t) s (onDemuxSrcPadAdded b pad) tr () s')
    (hname : capsName tr = some name) :
    net PadCall.padRef tr = 0 ∧ PadEvent.GivesBack b s ⟨name, sinkPadFound tr⟩ ∨
      net PadCall.padRef tr = Pi.single (sinkPadFound tr) 1 ∧
        ∃ m, b.medium name = some m ∧ s.player.padLinked m = true := by
  obtain ⟨caps, capsStructure, name', tr', rfl, hbranch⟩ := exec_onDemuxSrcPadAdded_iff.mp h
  cases hname
  have hfound : sinkPadFound (askCaps pad caps capsStructure name ++ tr') = sinkPadFound tr' := rfl
  have hnet : net PadCall.padRef (askCaps pad caps capsStructure name ++ tr') =
      net PadCall.padRef tr' := by
    simp [askCaps, net, PadCall.padRef]
  rw [hfound, hnet]
  cases hm : b.medium name with
  | none =>
      rw [hm] at hbranch
      obtain ⟨rfl, rfl⟩ := hbranch
      refine .inl ⟨rfl, ?_⟩
      intro m hm' _
      cases hm.symm.trans hm'
  | some m =>
      rw [hm] at hbranch
      obtain ⟨sinkPad, hmedium⟩ := hbranch
      obtain ⟨rfl, hnet'⟩ := hmedium.net
      rw [hnet']
      cases hlinked : s.player.padLinked m with
      | true => exact .inr ⟨if_pos rfl, m, rfl, hlinked⟩
      | false =>
          refine .inl ⟨if_neg Bool.false_ne_true, ?_⟩
          intro m' hm' hlinked'
          cases hm.symm.trans hm'
          rw [hlinked] at hlinked'
          cases hlinked'

end Callback

/-! ### Callbacks one after another -/

/-- What is shared, and the references to each pad the program has, as a sum that may be of either
sign. -/
structure PadAccount where
  shared : Shared
  refs : Ptr → ℤ

/-- A callback, with any responses: the account moves on by what its calls come to. -/
inductive PadAccount.Step (b : Build) : PadAccount → PadEvent → PadAccount → Prop
  | padAdded {s s' : Shared} {refs : Ptr → ℤ} {t : Thread} {pad : Ptr} {name : List Char}
      {tr : Trace PadCall PadCall.Resp} :
      Exec (Shared.PerformsPad t) s (onDemuxSrcPadAdded b pad) tr () s' →
      capsName tr = some name →
      PadAccount.Step b ⟨s, refs⟩ ⟨name, sinkPadFound tr⟩ ⟨s', refs + net PadCall.padRef tr⟩

/-- Callbacks from any state of the flags and of the account, one after the other, on whichever
thread. -/
def callbacks (b : Build) : LTS PadAccount PadEvent where
  init _ := True
  step := PadAccount.Step b

section Callbacks

variable {b : Build} {s s' : PadAccount} {e : PadEvent} {es : List PadEvent}

/-- The references to the pads there are; what was taken to `NULL` is none. -/
def PadAccount.held (s : PadAccount) (p : {p : Ptr // p ≠ NULL}) : ℤ := s.refs p

theorem PadAccount.held_eq_iff :
    s'.held = s.held ↔ ∀ p, p ≠ NULL → s'.refs p = s.refs p :=
  ⟨fun h p hp => congrFun h ⟨p, hp⟩, fun h => funext fun p => h p p.2⟩

/-- A callback never gives back more than it takes, so what one callback keeps is not made good by
another. -/
theorem PadAccount.Step.held_le (h : PadAccount.Step b s e s') : s.held ≤ s'.held := by
  cases h with
  | padAdded hexec hname =>
      intro p
      rcases net_onDemuxSrcPadAdded hexec hname with ⟨hnet, -⟩ | ⟨hnet, -⟩
      · simp [held, hnet]
      · simp only [held, hnet, Pi.add_apply, Pi.single_apply]
        split <;> omega

/-- **A callback keeps no reference** just when its pad is of no medium that is linked already, or
no sink pad is found. -/
theorem PadAccount.Step.held_eq_iff (h : PadAccount.Step b s e s') :
    s'.held = s.held ↔ e.GivesBack b s.shared := by
  rw [PadAccount.held_eq_iff]
  cases h with
  | padAdded hexec hname =>
      simp only [Pi.add_apply, add_eq_left]
      rcases net_onDemuxSrcPadAdded hexec hname with ⟨hnet, hgives⟩ | ⟨hnet, m, hm, hlinked⟩
      · simp [hnet, hgives]
      · rw [hnet, single_eq_zero_iff]
        exact ⟨fun hnull _ _ _ => hnull, fun hgives => hgives m hm hlinked⟩

/-- **When the references to pads are balanced.**  Over any number of callbacks, from any
state of the flags, the program has as many references to each pad as before just when no
callback for a medium that is linked finds a sink pad; and `create_source_element_2`,
`create_sink_element_2` and `dropsink` return without a reference they have taken just when
none of the outcomes that strand one is met. -/
theorem pad_references_balanced_iff (b : Build) :
    (∀ s es s', (callbacks b).Run s es s' →
      ((∀ p, p ≠ NULL → s'.refs p = s.refs p) ↔
        ((callbacks b).restrict fun s e => e.GivesBack b s.shared).Run s es s')) ∧
      ∀ body ∈ [createSourceElement2 b, createSinkElement2 b, dropsink b],
        ∀ t s tr r s', Exec (Shared.Performs t) s body tr r s' →
          ((∀ p, p ≠ NULL → net PlayerCall.padRef tr p = 0) ↔
            ∀ x ∈ tr, x.1.strands x.2 = false) := by
  constructor
  · intro s es s' hrun
    rw [← PadAccount.held_eq_iff]
    exact hrun.keeps_iff (fun _ _ _ => PadAccount.Step.held_le)
      fun _ _ _ => PadAccount.Step.held_eq_iff
  · intro body hbody t s tr r s' hexec
    have hwalk : padRules.wp Settled body ⟨0, False⟩ := by
      simp only [List.mem_cons, List.not_mem_nil, or_false] at hbody
      rcases hbody with rfl | rfl | rfl
      · exact createSourceElement2_settles
      · exact createSinkElement2_settles
      · exact dropsink_settles
    have hsettled : Settled r ⟨net PlayerCall.padRef tr, ∃ x ∈ tr, x.1.strands x.2 = true⟩ :=
      settle hexec hwalk
    exact hsettled.trans (by simp only [not_exists, not_and, Bool.not_eq_true])

end Callbacks

section VideoPads

/-- Before any callback: no flag is set, and there is no reference to any pad. -/
def noPads : PadAccount := ⟨.initial, 0⟩

/-- A video pad whose queue has the sink pad `.obj 3`, so that a reference to it is taken. -/
def videoPad : PadEvent := ⟨"video/mpeg".toList, .obj 3⟩

theorem videoPad_medium : subtitleBuild.medium videoPad.name = some .video := by decide

/-- The calls of the callback for the first of two video pads: it links the pad, sets the flag and
gives the sink pad back. -/
theorem exec_firstVideoPad :
    Exec (Shared.PerformsPad .main) .initial (onDemuxSrcPadAdded subtitleBuild (.obj 6))
      (askCaps (.obj 6) NULL NULL videoPad.name ++
        (lookup NULL .vidDmxQueue videoPad.sinkPad .video false ++
          [⟨.padLink (.obj 6) videoPad.sinkPad, true⟩, ⟨.player (.storePadLinked .video true), ()⟩,
            ⟨.player (.gst (.objectUnref videoPad.sinkPad) false), ()⟩]))
      () (Shared.initial.link .video) := by
  refine exec_onDemuxSrcPadAdded_iff.mpr ⟨_, _, _, _, rfl, ?_⟩
  rw [videoPad_medium]
  exact ⟨_, .linked rfl⟩

/-- The calls of the callback for the second: it looks the sink pad up and returns, as the flag is
set. -/
theorem exec_secondVideoPad :
    Exec (Shared.PerformsPad .main) (Shared.initial.link .video)
      (onDemuxSrcPadAdded subtitleBuild (.obj 7))
      (askCaps (.obj 7) NULL NULL videoPad.name ++
        lookup NULL .vidDmxQueue videoPad.sinkPad .video true)
      () (Shared.initial.link .video) := by
  refine exec_onDemuxSrcPadAdded_iff.mpr ⟨_, _, _, _, rfl, ?_⟩
  rw [videoPad_medium]
  exact ⟨_, .already rfl⟩

/-- The reference to the sink pad found for a second video pad is not given back. -/
theorem second_video_pad_keeps_reference :
    ¬ ((∀ b s es s', (callbacks b).Run s es s' → ∀ p, p ≠ NULL → s'.refs p = s.refs p) ∧
      ∀ b, ∀ body ∈ [createSourceElement2 b, createSinkElement2 b, dropsink b],
        ∀ t s tr r s', Exec (Shared.Performs t) s body tr r s' →
          ∀ p, p ≠ NULL → net PlayerCall.padRef tr p = 0) := by
  rintro ⟨hcallbacks, -⟩
  have hrun := (LTS.Run.nil (M := callbacks subtitleBuild) (s := noPads)).snoc
    (.padAdded exec_firstVideoPad rfl) |>.snoc (.padAdded exec_secondVideoPad rfl)
  have hkept := hcallbacks _ _ _ _ hrun (.obj 3) nofun
  revert hkept
  decide

/-- A source bin whose ghost pad gets its target: every call of the function succeeds. -/
def sourceBin : Option (Trace PlayerCall PlayerCall.Resp × Bool × Shared) :=
  kindWorld.run (createSourceElement2 subtitleBuild) .initial

theorem sourceBin_strands :
    sourceBin.any (fun r => r.2.1 && r.1.all fun x => !x.1.strands x.2) = true := by
  decide +kernel

/-- The first video pad leaves no reference to a sink pad, and neither does a
`create_source_element_2` that returns `TRUE`. -/
theorem first_video_pad_balanced :
    (∃ s, (callbacks subtitleBuild).Run noPads [videoPad] s ∧
      ∀ p, p ≠ NULL → s.refs p = noPads.refs p) ∧
      ∃ tr s, Exec (Shared.Performs .main) .initial (createSourceElement2 subtitleBuild) tr true s ∧
        ∀ p, p ≠ NULL → net PlayerCall.padRef tr p = 0 := by
  obtain ⟨hcallbacks, hbodies⟩ := pad_references_balanced_iff subtitleBuild
  constructor
  · have hgives : videoPad.GivesBack subtitleBuild noPads.shared := fun _ _ => nofun
    have hrun := (LTS.Run.nil (M := (callbacks subtitleBuild).restrict
      fun s e => e.GivesBack subtitleBuild s.shared) (s := noPads)).snoc
      ⟨hgives, .padAdded exec_firstVideoPad rfl⟩
    exact ⟨_, hrun.of_restrict, (hcallbacks _ _ _ hrun.of_restrict).mpr hrun⟩
  · obtain ⟨⟨tr, r, s⟩, hsource, hstrands⟩ := (Option.any_eq_true _ _).mp sourceBin_strands
    obtain ⟨rfl, hall⟩ := Bool.and_eq_true_iff.mp hstrands
    unfold sourceBin World.run at hsource
    have hexec : Exec (Shared.Performs .main) .initial (createSourceElement2 subtitleBuild) tr
        true s := exec_runWith hsource
    refine ⟨tr, s, hexec, (hbodies _ (List.mem_cons_self ..) _ _ _ _ _ hexec).mpr ?_⟩
    intro x hx
    simpa using List.all_eq_true.mp hall x hx

end VideoPads

end LeipoCode.Player
