import LeipoCode.Player.App
import LeipoCode.Player.PadAdded
import Mathlib.Data.Set.Insert

/-!
# Zapping rounds

A channel zap is a round: `create_pipeline`, any number of pad-added callbacks,
`destroy_pipeline`.  The functions that build the pipeline set about twenty fields of the
player, and `dropsink` and `destroy_pipeline` set them back one by one.

* `PipelineField` — the fields a round is about, `PlayerCall.stores` the one a call sets;
* `Build.Within`, `calls_createPipelineBody` — a field the build does not have is never set;
* `resetRules` — a `Discipline` that only records which fields have been put to rest;
* `wp_destroyPipelineBody_resets` — when `destroy_pipeline` returns `TRUE` it has left out no
  field of the build;
* `rounds` — any number of rounds as an `LTS`, which starts where `player_init` ends;
* `rounds_start_at_rest` — **every round starts from the same pipeline**.

The same fields are in five lists of the source: the structure, `player_init`, the functions that
set them, `dropsink` and `destroy_pipeline`.  That these agree is what the results come to, for each
of the builds: a field that is set (`Build.Within`) is one that is put to rest (`mem_fields`).
`PipelineField` has the pointers and the flags that a round is about in one type, so that one lemma
says it for all of them.

The callbacks come in any number and on any thread between the two operations, with any pads and any
caps, and `set_pipeline_state` may come in between with any result.  A round is one whose
`create_pipeline` and `destroy_pipeline` return `TRUE`; of a `destroy_pipeline` that returns `FALSE`
there is a lemma to say that it has changed no field (`atRest_iff_of_destroyPipeline_false`).

### How the rest is shown

What may set which field is a walk through the programs, once for each function (`Prog.Calls`).
What `destroy_pipeline` puts to rest has to be recorded while it is gone through, since only what
was reached before the last `return` counts: the state of `resetRules` is a record of the fields put
to rest so far, and its `wp` says that with `TRUE` all of them are on it (`Resets`).

A field that the build does not have is at rest for another reason, that nobody sets it
(`Build.LeavesOut`), and this has to be kept by every operation and every callback of a run.  So the
invariant between rounds has two parts (`Round.Ready`), and the theorem says of both together that
all fields are as `player_init` has left them.
-/

namespace LeipoCode.Player

open Prog Discipline

/-! ### The fields of the pipeline -/

/-- A field `player_init` and `dropsink` are about: a pointer, the source of the bus, or a flag. -/
inductive PipelineField
  | ptr (f : PtrField)
  | busEventSourceId
  | padLinked (f : LinkedField)
deriving DecidableEq

namespace PipelineField

/-- Is it a field of the pipeline, and not of the application?  The main loop and the keyboard task
stay from one round to the next. -/
def ofPipeline : PipelineField → Bool
  | ptr .mainLoop | ptr .inputTask | ptr .inputTaskMutex => false
  | _ => true

/-- Does the field have the value it has in static storage?  It is the value `player_init` sets it
to, if it sets it. -/
def AtRest (p : STGstPlayer) : PipelineField → Prop
  | ptr f => p.ptr f = NULL
  | busEventSourceId => p.mBusEventSourceId = 0
  | padLinked f => p.padLinked f = false

end PipelineField

/-- The pipeline of the player is at rest: all fields of it are, as `player_init` leaves them. -/
def STGstPlayer.PipelineAtRest (p : STGstPlayer) : Prop :=
  ∀ f : PipelineField, f.ofPipeline = true → f.AtRest p

/-- The players agree in every field of the pipeline.  Nothing is said of the mutex, which
`create_pipeline` makes anew, and of the address. -/
structure SamePipeline (p p' : STGstPlayer) : Prop where
  ptr : ∀ f, (PipelineField.ptr f).ofPipeline = true → p.ptr f = p'.ptr f
  busEventSourceId : p.mBusEventSourceId = p'.mBusEventSourceId
  padLinked : ∀ f, p.padLinked f = p'.padLinked f

/-- Two pipelines that are at rest agree in every field, as there is one value to be at rest with.
-/
theorem SamePipeline.of_atRest {p p' : STGstPlayer} (h : p.PipelineAtRest)
    (h' : p'.PipelineAtRest) : SamePipeline p p' where
  ptr f hf := (h (.ptr f) hf).trans (h' (.ptr f) hf).symm
  busEventSourceId := (h .busEventSourceId rfl).trans (h' .busEventSourceId rfl).symm
  padLinked f := (h (.padLinked f) rfl).trans (h' (.padLinked f) rfl).symm

/-! ### The calls that set them -/

namespace PlayerCall

/-- The field a call sets; no call sets two of them, and most set none. -/
def stores : PlayerCall → Option PipelineField
  | .store f _ => some (.ptr f)
  | .storeBusEventSourceId _ => some .busEventSourceId
  | .storePadLinked f _ => some (.padLinked f)
  | _ => none

/-- The calls that put to rest the field they set, and those that set none. -/
def Rests : PlayerCall → Prop
  | .store _ p => p = NULL
  | .storeBusEventSourceId id => id = 0
  | .storePadLinked _ linked => linked = false
  | _ => True

theorem rests_of_quiet {c : PlayerCall} (hc : c.stores = none) : c.Rests := by
  cases c <;> trivial

end PlayerCall

section Perform

open PlayerCall

variable {s s' : Shared} {t : Thread} {c : PlayerCall} {r : c.Resp} {f : PipelineField}

/-- A call leaves alone the fields it does not set: they are at rest after it if they were before,
and only then. -/
theorem performPlayer_frame_field (hf : c.stores ≠ some f)
    (hs : s.performPlayer t c r = some s') : f.AtRest s'.player ↔ f.AtRest s.player := by
  cases c with
  | store g p =>
      cases hs
      cases f with
      | ptr f =>
          have hne : f ≠ g := fun h => hf (h ▸ rfl)
          simp [PipelineField.AtRest, Shared.setPtr, hne]
      | busEventSourceId => rfl
      | padLinked f => rfl
  | storeBusEventSourceId id =>
      cases hs
      cases f with
      | ptr f => rfl
      | busEventSourceId => exact absurd rfl hf
      | padLinked f => rfl
  | storePadLinked g linked =>
      cases hs
      cases f with
      | ptr f => rfl
      | busEventSourceId => rfl
      | padLinked f =>
          have hne : f ≠ g := fun h => hf (h ▸ rfl)
          simp [PipelineField.AtRest, hne]
  | recMutex o m =>
      obtain ⟨m', -, rfl⟩ := Option.map_eq_some_iff.mp hs
      cases m <;> cases f <;> rfl
  | memsetMutex | memsetUri n | memcpyUri bytes =>
      cases hs
      cases f <;> rfl
  | _ => grind [Shared.performPlayer, Shared.setUri, PipelineField.AtRest]

/-- A call that only puts to rest what it sets (`Rests`) leaves the field that it sets at rest. -/
theorem performPlayer_atRest (hc : c.Rests) (hf : c.stores = some f)
    (hs : s.performPlayer t c r = some s') : f.AtRest s'.player := by
  cases c with
  | store g p =>
      cases hs
      cases hf
      simpa [PipelineField.AtRest, Shared.setPtr, Rests] using hc
  | storeBusEventSourceId id =>
      cases hs
      cases hf
      exact hc
  | storePadLinked g linked =>
      cases hs
      cases hf
      simpa [PipelineField.AtRest, Rests] using hc
  | _ => cases hf

end Perform

/-! ### The fields of the build -/

/-- Does the build have the field?  Those of the subtitles are under a preprocessor symbol. -/
def Build.has (b : Build) : PipelineField → Bool
  | .ptr .subtDecoder | .ptr .ffmpegcsp | .ptr .vidDmxQueue | .ptr .audDmxQueue
  | .ptr .subtDmxQueue | .padLinked .ttx => b.subtitleTeltextSupport
  | _ => true

theorem ofPipeline_of_not_has {b : Build} {f : PipelineField} (h : b.has f = false) :
    f.ofPipeline = true := by
  rcases f with f | _ | f
  · cases f <;> first | rfl | cases h
  · rfl
  · rfl

/-- The calls that set no field the build does not have, and so leave such a field as it was. -/
def Build.Within (b : Build) (c : PlayerCall) : Prop := ∀ f ∈ c.stores, b.has f = true

/-- The calls that set no such field, and no flag either: those of `create_pipeline`. -/
def Build.Creates (b : Build) (c : PlayerCall) : Prop :=
  ∀ f ∈ c.stores, b.has f = true ∧ ∀ g, f ≠ .padLinked g

section Walk

variable {b : Build}

theorem calls_loads {P : PlayerCall → Prop} (hP : ∀ f, P (.load f)) (fs : List PtrField) :
    (loads fs).Calls P := by
  induction fs with
  | nil => exact trivial
  | cons f fs ih =>
      exact Calls.bind (calls_lift.mpr (hP f)) fun _ => Calls.bind ih fun _ => trivial

theorem calls_createSinkElement2 : (createSinkElement2 b).Calls b.Creates := by
  unfold createSinkElement2 ifdef createSubtitleElements addSinkElements linkVideo linkAudio
    linkSubtitle
  repeat' first
    | exact calls_loads (fun _ => nofun) _
    | refine Calls.bind ?_ fun _ => ?_
    | refine Calls.ite (fun _ => ?_) fun _ => ?_
  all_goals simp_all [elementFactoryMake, objectUnref, tested, untested, store, load, call,
    Build.Creates, Build.has, PlayerCall.stores]

/-- **`create_pipeline` sets only fields of the build**, and no flag: the flags belong to the
callback. -/
theorem calls_createPipelineBody_creates : (createPipelineBody b).Calls b.Creates := by
  unfold createPipelineBody createSourceElement1 createSourceElement2 createSinkElement1 addsink
  repeat' first
    | exact calls_createSinkElement2
    | refine Calls.bind ?_ fun _ => ?_
    | refine Calls.ite (fun _ => ?_) fun _ => ?_
  all_goals simp_all [elementFactoryMake, objectUnref, tested, untested, store, load, call,
    recMutex, Build.Creates, Build.has, PlayerCall.stores]

theorem calls_createPipelineBody : (createPipelineBody b).Calls b.Within :=
  calls_createPipelineBody_creates.mono fun _ hc f hf => (hc f hf).1

/-- `set_pipeline_state` sets no field at all, of any build. -/
theorem calls_setPipelineStateBody_stores {state : GstState} :
    (setPipelineStateBody state).Calls fun c => c.stores = none := by
  unfold setPipelineStateBody
  refine Calls.bind (calls_lift.mpr rfl) fun mPipeline => ?_
  refine Calls.bind (calls_lift.mpr rfl) fun ret => Calls.ite (fun _ => trivial) fun _ => ?_
  refine Calls.bind (calls_lift.mpr rfl) fun ret => Calls.ite (fun _ => trivial) fun _ => ?_
  exact Calls.ite (fun _ => trivial) fun _ => trivial

theorem calls_setPipelineStateBody {state : GstState} :
    (setPipelineStateBody state).Calls b.Within := by
  refine calls_setPipelineStateBody_stores.mono fun c hc f hf => ?_
  rw [hc] at hf
  cases hf

/-- What the callback may do to the player: set flags and fields of the build. -/
def PadCall.Within (b : Build) : PadCall → Prop
  | .player c => b.Within c
  | _ => True

theorem calls_linkMedium {f : PtrField} {linked : LinkedField} {pad : Ptr}
    (hb : b.has (.padLinked linked) = true) :
    (linkMedium f linked pad).Calls (PadCall.Within b) := by
  unfold linkMedium
  refine Calls.bind (calls_mapCall.mpr (calls_lift.mpr nofun)) fun element => ?_
  refine Calls.bind (calls_mapCall.mpr (calls_lift.mpr nofun)) fun sinkPad => ?_
  refine Calls.bind (calls_lift.mpr trivial) fun alreadyLinked => ?_
  refine Calls.ite (fun _ => trivial) fun _ => ?_
  refine Calls.bind (calls_lift.mpr trivial) fun successful => ?_
  have hunref : (liftM (objectUnref sinkPad) : PadAction Unit).Calls (PadCall.Within b) :=
    calls_mapCall.mpr (calls_lift.mpr nofun)
  refine Calls.ite (fun _ => ?_) fun _ => hunref
  -- the flag that is set is the one of the medium
  refine Calls.bind (calls_mapCall.mpr (calls_lift.mpr ?_)) fun _ => hunref
  rintro f ⟨⟩
  exact hb

/-- **The callback sets only flags of the build**: the one of the subtitles only if there are
subtitles. -/
theorem calls_onDemuxSrcPadAdded {pad : Ptr} :
    (onDemuxSrcPadAdded b pad).Calls (PadCall.Within b) := by
  unfold onDemuxSrcPadAdded
  refine Calls.bind (calls_lift.mpr trivial) fun caps => ?_
  refine Calls.bind (calls_lift.mpr trivial) fun capsStructure => ?_
  refine Calls.bind (calls_lift.mpr trivial) fun name => ?_
  refine Calls.bind (calls_lift.mpr trivial) fun _ => ?_
  refine Calls.ite (fun _ => calls_linkMedium rfl) fun _ => ?_
  refine Calls.ite (fun _ => calls_linkMedium rfl) fun _ => ?_
  exact Calls.ite (fun h => calls_linkMedium h.1) fun _ => trivial

end Walk

/-! ### Executions -/

/-- The calls of a thread as steps of the state it shares, in the form that executions have in
`Lib.Exec`. -/
def Shared.Performs (t : Thread) (s : Shared) (c : PlayerCall) (r : c.Resp) (s' : Shared) : Prop :=
  s.performPlayer t c r = some s'

/-- The calls of the callback as such steps; it may ask for more than a thread does. -/
def Shared.PerformsPad (t : Thread) (s : Shared) (c : PadCall) (r : c.Resp) (s' : Shared) : Prop :=
  s.performPad t c r = some s'

/-! ### What `destroy_pipeline` puts to rest -/

/-- Keep a record of the fields that were put to rest; nothing else may be set. -/
def resetRules : Discipline PlayerCall PlayerCall.Resp (Set PipelineField) where
  allowed _ c := c.Rests
  granted _ _ _ := True
  next q c _ := {f | c.stores = some f} ∪ q

/-- What has been put to rest in an execution is at rest at its end, as nothing else is set in
between. -/
theorem honours_resetRules {t : Thread} :
    resetRules.Honours (Shared.Performs t) (fun s q => ∀ f ∈ q, f.AtRest s.player) := by
  intro s q c r s' hrel hrests hs
  refine ⟨trivial, ?_⟩
  intro f hf
  by_cases hc : c.stores = some f
  · exact performPlayer_atRest hrests hc hs
  · exact (performPlayer_frame_field hc hs).mpr (hrel f (hf.resolve_left hc))

/-- Put a field to rest, by the statement the source has for it: the value is the one `player_init`
gives it. -/
def PipelineField.rest : PipelineField → Action Unit
  | .ptr f => store f NULL
  | .busEventSourceId => call (.storeBusEventSourceId 0)
  | .padLinked f => storePadLinked f false

/-- Put the fields to rest, in order.  `dropsink` and `destroy_pipeline` end with lists of such
statements. -/
def restAll : List PipelineField → Action Unit
  | [] => return ()
  | f :: fs => do
      f.rest
      restAll fs

/-- The fields `dropsink` puts to rest, in order, with those of the subtitles at the end if the
build has them. -/
def Build.sinkFields (b : Build) : List PipelineField :=
  [.ptr .mQueue, .ptr .mSink, .ptr .demux, .ptr .videoDecoder, .ptr .videoSink,
    .ptr .audioDecoder, .ptr .audioSink, .ptr .videoQueue, .ptr .audioQueue, .padLinked .audio,
    .padLinked .video] ++
  if b.subtitleTeltextSupport then
    [.ptr .subtDecoder, .ptr .ffmpegcsp, .ptr .vidDmxQueue, .ptr .audDmxQueue,
      .ptr .subtDmxQueue, .padLinked .ttx]
  else []

theorem resetSinkFields_eq (b : Build) : resetSinkFields b = restAll b.sinkFields := by
  unfold resetSinkFields Build.sinkFields
  cases b.subtitleTeltextSupport <;> rfl

/-- The fields `destroy_pipeline` puts to rest after that.  Together they are all of the build
(`mem_fields`). -/
def sourceFields : List PipelineField :=
  [.busEventSourceId, .ptr .mPipeline, .ptr .bus, .ptr .mSource, .ptr .mTee]

/-- **No field of the build is left out**: what `dropsink` puts to rest and what `destroy_pipeline`
does after it are all of the pipeline. -/
theorem mem_fields {b : Build} {f : PipelineField} (hf : f.ofPipeline = true)
    (hb : b.has f = true) : f ∈ b.sinkFields ∨ f ∈ sourceFields := by
  rcases f with f | _ | f
  · cases f <;>
      simp_all [Build.sinkFields, sourceFields, Build.has, PipelineField.ofPipeline]
  · exact .inr (by decide)
  · cases f <;> simp_all [Build.sinkFields, Build.has]

section Resets

variable {b : Build} {q : Set PipelineField} {α : Type} {post : α → Set PipelineField → Prop}

/-- A call that sets nothing leaves the record as it is, whatever it returns. -/
theorem wp_quiet {c : PlayerCall} {rest : c.Resp → Action α} (hc : c.stores = none)
    (hrest : ∀ r, resetRules.wp post (rest r) q) : resetRules.wp post (call c >>= rest) q := by
  have hnext : ∀ r, resetRules.next q c r = q := fun r => by simp [resetRules, hc]
  refine wp_bind.mpr ⟨PlayerCall.rests_of_quiet hc, fun r _ => ?_⟩
  rw [hnext r]
  exact hrest r

theorem wp_rest {f : PipelineField} :
    resetRules.wp (fun _ q' => q' = {f} ∪ q) f.rest q := by
  cases f <;>
    exact ⟨rfl, fun _ _ => by ext g; simp [resetRules, PlayerCall.stores, eq_comm]⟩

theorem wp_restAll (fs : List PipelineField) :
    resetRules.wp (fun _ q' => q ⊆ q' ∧ ∀ f ∈ fs, f ∈ q') (restAll fs) q := by
  induction fs generalizing q with
  | nil => exact ⟨subset_rfl, nofun⟩
  | cons f fs ih =>
      refine wp_seq wp_rest fun _ q' hq' => wp_mono (fun _ q'' ⟨hsub, hfs⟩ => ?_) ih
      subst hq'
      refine ⟨fun g hg => hsub (.inr hg), fun g hg => ?_⟩
      rcases List.mem_cons.mp hg with rfl | hg
      · exact hsub (.inl rfl)
      · exact hfs g hg

/-- What is recorded at the end of a function that is to put `fields` to rest: all of them
when it returns `TRUE`, and nothing when it returns `FALSE`. -/
def Resets (fields : PipelineField → Prop) (q : Set PipelineField) (r : Bool)
    (q' : Set PipelineField) : Prop :=
  (r = true → q ⊆ q' ∧ ∀ f, fields f → f ∈ q') ∧ (r = false → q' = q)

theorem Resets.gaveUp {fields : PipelineField → Prop} : Resets fields q false q :=
  ⟨nofun, fun _ => rfl⟩

/-- `dropsink` puts the fields of the sink to rest on its way to `TRUE`, and none on its way to
`FALSE`. -/
theorem wp_dropsink_resets :
    resetRules.wp (Resets (· ∈ b.sinkFields) q) (dropsink b) q := by
  unfold dropsink
  refine wp_quiet rfl fun mPipeline => wp_quiet rfl fun mSink => ?_
  refine wp_quiet rfl fun mQueue => wp_quiet rfl fun mTee => ?_
  refine wp_ite (fun _ => .gaveUp) fun _ => wp_ite (fun _ => .gaveUp) fun _ => ?_
  refine wp_ite (fun _ => .gaveUp) fun _ => ?_
  refine wp_quiet rfl fun _ => wp_quiet rfl fun _ => ?_
  refine wp_quiet rfl fun queueSinkPad => wp_quiet rfl fun teeSrcPad => ?_
  refine wp_ite (fun _ => .gaveUp) fun _ => wp_ite (fun _ => .gaveUp) fun _ => ?_
  refine wp_quiet rfl fun unlinked => wp_ite (fun _ => .gaveUp) fun _ => ?_
  refine wp_quiet rfl fun _ => wp_quiet rfl fun _ => wp_quiet rfl fun _ => ?_
  refine wp_quiet rfl fun queueRemoved => wp_ite (fun _ => .gaveUp) fun _ => ?_
  refine wp_quiet rfl fun sinkRemoved => wp_ite (fun _ => .gaveUp) fun _ => ?_
  rw [resetSinkFields_eq]
  exact wp_seq (wp_restAll _) fun _ _ hq => ⟨fun _ => hq, nofun⟩

/-- **`destroy_pipeline` puts every field of the build to rest** on its way to `TRUE`, and
no field on its way to `FALSE`. -/
theorem wp_destroyPipelineBody_resets :
    resetRules.wp (Resets (fun f => f.ofPipeline = true ∧ b.has f = true) q)
      (destroyPipelineBody b) q := by
  unfold destroyPipelineBody
  refine wp_quiet rfl fun mPipeline => wp_quiet rfl fun _ => ?_
  refine wp_seq wp_dropsink_resets fun dropped q₁ hdropped => wp_ite (fun hne => ?_) fun hne => ?_
  · cases hdropped.2 hne
    exact .gaveUp
  obtain ⟨hq, hsink⟩ := hdropped.1 (eq_true_of_ne_false hne)
  refine wp_quiet rfl fun id => wp_quiet rfl fun _ => ?_
  -- the assignments that are left, between calls that set nothing
  refine wp_seq (wp_rest (f := .busEventSourceId)) fun _ q₂ hq₂ => wp_quiet rfl fun _ => ?_
  refine wp_seq (wp_rest (f := .ptr .mPipeline)) fun _ q₃ hq₃ => ?_
  refine wp_seq (wp_rest (f := .ptr .bus)) fun _ q₄ hq₄ => ?_
  refine wp_quiet rfl fun _ => wp_quiet rfl fun _ => wp_quiet rfl fun _ => wp_quiet rfl fun _ => ?_
  refine wp_seq (wp_rest (f := .ptr .mSource)) fun _ q₅ hq₅ => ?_
  refine wp_seq (wp_rest (f := .ptr .mTee)) fun _ q₆ hq₆ => ⟨fun _ => ?_, nofun⟩
  subst q₂ q₃ q₄ q₅ q₆
  refine ⟨fun f hf => by simp [hq hf], fun f ⟨hof, hhas⟩ => ?_⟩
  rcases mem_fields hof hhas with hf | hf
  · simp [hsink f hf]
  · simp only [sourceFields, List.mem_cons, List.not_mem_nil, or_false] at hf
    rcases hf with rfl | rfl | rfl | rfl | rfl <;> simp

end Resets

/-! ### The operations on a pipeline -/

section Executions

variable {b : Build} {t : Thread} {s s' : Shared}

/-- The fields the build does not have are at rest, which they are as long as nobody sets them. -/
def Build.LeavesOut (b : Build) (s : Shared) : Prop :=
  ∀ f : PipelineField, b.has f = false → f.AtRest s.player

theorem performs_leavesOut {c : PlayerCall} {r : c.Resp} (hc : b.Within c)
    (hs : s.Performs t c r s') (h : b.LeavesOut s) : b.LeavesOut s' := by
  intro f hf
  refine (performPlayer_frame_field (fun hstores => ?_) hs).mpr (h f hf)
  have hhas := hc f hstores
  rw [hf] at hhas
  cases hhas

theorem leavesOut_of_createPipeline {tr : Trace PlayerCall PlayerCall.Resp} {result : Bool}
    (h : Exec (Shared.Performs t) s (createPipelineBody b) tr result s')
    (hs : b.LeavesOut s) : b.LeavesOut s' :=
  h.frame (fun _ _ _ _ hc hs hstep => performs_leavesOut hc hstep hs) calls_createPipelineBody hs

theorem leavesOut_of_setPipelineState {state : GstState}
    {tr : Trace PlayerCall PlayerCall.Resp} {result : Bool}
    (h : Exec (Shared.Performs t) s (setPipelineStateBody state) tr result s')
    (hs : b.LeavesOut s) : b.LeavesOut s' :=
  h.frame (fun _ _ _ _ hc hs hstep => performs_leavesOut hc hstep hs)
    calls_setPipelineStateBody hs

theorem leavesOut_of_padAdded {pad : Ptr} {tr : Trace PadCall PadCall.Resp}
    (h : Exec (Shared.PerformsPad t) s (onDemuxSrcPadAdded b pad) tr () s')
    (hs : b.LeavesOut s) : b.LeavesOut s' := by
  refine h.frame (fun s c r s' hc hs hstep => ?_) calls_onDemuxSrcPadAdded hs
  cases c with
  | player c => exact performs_leavesOut hc hstep hs
  | loadPadLinked f =>
      obtain ⟨-, hs'⟩ := Option.ite_none_right_eq_some.mp hstep
      cases hs'
      exact hs
  | _ =>
      cases hstep
      exact hs

/-- **After `destroy_pipeline` has returned `TRUE` the pipeline is at rest**: the fields of the
build were put to rest, and nobody sets the others. -/
theorem atRest_of_destroyPipeline {tr : Trace PlayerCall PlayerCall.Resp}
    (h : Exec (Shared.Performs t) s (destroyPipelineBody b) tr true s') (hs : b.LeavesOut s) :
    s'.player.PipelineAtRest := by
  -- what the build leaves out counts as put to rest
  obtain ⟨hpost, hrest⟩ := sound honours_resetRules h
    (wp_destroyPipelineBody_resets (q := {f | b.has f = false})) hs
  obtain ⟨hsub, hfields⟩ := hpost.1 rfl
  intro f hf
  cases hb : b.has f with
  | false => exact hrest f (hsub hb)
  | true => exact hrest f (hfields f ⟨hf, hb⟩)

/-- **When `destroy_pipeline` returns `FALSE`** the fields are as they were, since all tests come
before the first assignment. -/
theorem atRest_iff_of_destroyPipeline_false {tr : Trace PlayerCall PlayerCall.Resp}
    (h : Exec (Shared.Performs t) s (destroyPipelineBody b) tr false s') (f : PipelineField) :
    f.AtRest s'.player ↔ f.AtRest s.player := by
  have hframe : resetRules.Honours (Shared.Performs t)
      (fun s' q => ∀ f ∉ q, f.AtRest s'.player ↔ f.AtRest s.player) := by
    intro u q c r u' hrel _ hu
    refine ⟨trivial, ?_⟩
    intro f hf
    have hstores : c.stores ≠ some f := fun hc => hf (.inl hc)
    exact (performPlayer_frame_field hstores hu).trans (hrel f fun hq => hf (.inr hq))
  obtain ⟨hpost, hrest⟩ := sound hframe h (wp_destroyPipelineBody_resets (q := ∅))
    fun _ _ => Iff.rfl
  refine hrest f ?_
  rw [hpost.2 rfl]
  exact Set.notMem_empty f

/-- `player_init` only puts fields to rest, or clears the mutex and the address. -/
theorem calls_playerInit : playerInit.Calls PlayerCall.Rests := by
  unfold playerInit
  repeat' refine Calls.bind ?_ fun _ => ?_
  all_goals simp [store, storePadLinked, call, PlayerCall.Rests]

/-- After `player_init` everything is at rest: what it does not set, the fields of the subtitles, is
static and has not been set before. -/
theorem atRest_of_playerInit {tr : Trace PlayerCall PlayerCall.Resp}
    (h : Exec (Shared.Performs t) .initial playerInit tr () s') (f : PipelineField) :
    f.AtRest s'.player := by
  refine h.frame (I := fun s => ∀ f : PipelineField, f.AtRest s.player)
    (fun s c r s' hc hs hstep f => ?_) calls_playerInit ?_ f
  · by_cases hf : c.stores = some f
    · exact performPlayer_atRest hc hf hstep
    · exact (performPlayer_frame_field hf hstep).mpr (hs f)
  · intro f
    cases f <;> rfl

end Executions

/-! ### The system -/

/-- What a step of the rounds is: an operation with what it returns, or a callback in between. -/
inductive RoundStep
  | createPipeline
  | padAdded (pad : Ptr)
  | setPipelineState (state : GstState)
  | destroyPipeline
deriving DecidableEq, Repr

/-- What is shared, and whether there is a pipeline: `create_pipeline` has returned `TRUE`, and no
`destroy_pipeline` has since. -/
structure Round where
  shared : Shared
  built : Bool

/-- The steps, with any responses to the calls made: the operations return `TRUE`, the
callback comes at any time there is a pipeline. -/
inductive Round.Step (b : Build) : Round → RoundStep → Round → Prop
  | create {s s' : Shared} {t : Thread} {tr : Trace PlayerCall PlayerCall.Resp} :
      Exec (Shared.Performs t) s (createPipelineBody b) tr true s' →
      Round.Step b ⟨s, false⟩ .createPipeline ⟨s', true⟩
  | padAdded {s s' : Shared} {t : Thread} {pad : Ptr} {tr : Trace PadCall PadCall.Resp} :
      Exec (Shared.PerformsPad t) s (onDemuxSrcPadAdded b pad) tr () s' →
      Round.Step b ⟨s, true⟩ (.padAdded pad) ⟨s', true⟩
  | setState {s s' : Shared} {t : Thread} {state : GstState}
      {tr : Trace PlayerCall PlayerCall.Resp} {result : Bool} :
      Exec (Shared.Performs t) s (setPipelineStateBody state) tr result s' →
      Round.Step b ⟨s, true⟩ (.setPipelineState state) ⟨s', true⟩
  | destroy {s s' : Shared} {t : Thread} {tr : Trace PlayerCall PlayerCall.Resp} :
      Exec (Shared.Performs t) s (destroyPipelineBody b) tr true s' →
      Round.Step b ⟨s, true⟩ .destroyPipeline ⟨s', false⟩

/-- Rounds after `player_init`: a pipeline is created, set to any states, and destroyed, and
callbacks come while there is one. -/
def rounds (b : Build) : LTS Round RoundStep where
  init s := s.built = false ∧
    ∃ t tr, Exec (Shared.Performs t) .initial playerInit tr () s.shared
  step := Round.Step b

section Rounds

variable {b : Build} {s₀ s s' : Round} {ls : List RoundStep} {l : RoundStep}

/-- Between two rounds the pipeline is at rest, and the fields the build does not have
always are. -/
structure Round.Ready (b : Build) (s : Round) : Prop where
  leavesOut : b.LeavesOut s.shared
  atRest : s.built = false → s.shared.player.PipelineAtRest

theorem Round.Ready.of_init (h : (rounds b).init s) : s.Ready b := by
  obtain ⟨-, t, tr, hexec⟩ := h
  exact ⟨fun f _ => atRest_of_playerInit hexec f, fun _ f _ => atRest_of_playerInit hexec f⟩

/-- **One step**: a `destroy_pipeline` puts the pipeline to rest, and none of the four sets a field
that the build does not have. -/
theorem Round.Ready.step (h : s.Ready b) (hstep : (rounds b).step s l s') : s'.Ready b := by
  cases hstep with
  | create hexec => exact ⟨leavesOut_of_createPipeline hexec h.leavesOut, nofun⟩
  | padAdded hexec => exact ⟨leavesOut_of_padAdded hexec h.leavesOut, nofun⟩
  | setState hexec => exact ⟨leavesOut_of_setPipelineState hexec h.leavesOut, nofun⟩
  | destroy hexec =>
      have hrest := atRest_of_destroyPipeline hexec h.leavesOut
      exact ⟨fun f hf => hrest f (ofPipeline_of_not_has hf), fun _ => hrest⟩

/-- **Every round starts from the same pipeline**, in every run of rounds: the one `player_init`
leaves is there again whenever `destroy_pipeline` has returned `TRUE`, and whenever
`create_pipeline` is called.  It holds for each build, with any callbacks in between, and the
pipeline is the fields of `SamePipeline`: the pointers, the flags and the id of the bus watch. -/
theorem rounds_start_at_rest (h₀ : (rounds b).init s₀) (hrun : (rounds b).Run s₀ ls s)
    (hstep : (rounds b).step s l s') :
    (l = .destroyPipeline → SamePipeline s'.shared.player s₀.shared.player) ∧
      (l = .createPipeline → SamePipeline s.shared.player s₀.shared.player) := by
  have hready₀ : s₀.Ready b := .of_init h₀
  have hready : s.Ready b := hrun.invariant (fun _ _ _ => Round.Ready.step) hready₀
  have hfirst := hready₀.atRest h₀.1
  constructor
  · rintro rfl
    have hready' := hready.step hstep
    cases hstep with
    | destroy _ => exact .of_atRest (hready'.atRest rfl) hfirst
  · rintro rfl
    cases hstep with
    | create _ => exact .of_atRest (hready.atRest rfl) hfirst

end Rounds

/-! ### A round that can be computed -/

/-- What a call of the callback returns in a world where the caps have this name. -/
def World.padReply (w : World) (name : List Char) (s : Shared) : (c : PadCall) → c.Resp
  | .player c => w.reply s (.player c)
  | .loadPadLinked f => s.player.padLinked f
  | .padGetCaps _ => .obj 4
  | .capsGetStructure _ _ => .obj 5
  | .structureGetName _ => name
  | .capsUnref _ => ()
  | .padLink _ _ => true

/-- Run a program of the main thread in a world, for the witnesses: the world answers, and the
result is computed. -/
def World.run (w : World) {α : Type} (p : Action α) (s : Shared) :
    Option (Trace PlayerCall PlayerCall.Resp × α × Shared) :=
  p.runWith (fun s c => w.reply s (.player c)) (fun s c r => s.performPlayer .main c r) s

/-- The same for a program of the callback, for a pad whose caps have this name. -/
def World.runPad (w : World) {α : Type} (name : List Char) (p : PadAction α) (s : Shared) :
    Option (Trace PadCall PadCall.Resp × α × Shared) :=
  p.runWith (w.padReply name) (fun s c r => s.performPad .main c r) s

section FirstRound

/-- The build with subtitles, from the test channel: it has all of the fields. -/
def subtitleBuild : Build := ⟨true, false, true, false⟩

/-- A world where every call succeeds, and no key is pressed: what the witnesses are run in, unless
they need a failure. -/
def kindWorld : World := ⟨fun _ => false, none⟩

/-- The first round: the player initialised, the pipeline with its video pad linked, the
pipeline destroyed. -/
def firstRound : Option (Shared × Shared × Shared) := do
  let (_, _, s₀) ← kindWorld.run playerInit .initial
  let (_, created, s₁) ← kindWorld.run (createPipelineBody subtitleBuild) s₀
  let (_, _, s₂) ← kindWorld.runPad "video/mpeg".toList
    (onDemuxSrcPadAdded subtitleBuild (.obj 6)) s₁
  let (_, destroyed, s₃) ← kindWorld.run (destroyPipelineBody subtitleBuild) s₂
  if created = true ∧ destroyed = true then some (s₀, s₂, s₃) else none

theorem firstRound_links : firstRound.any (fun r => r.2.1.player.padLinked .video) = true := by
  decide +kernel

/-- In that round the flag of the video pad is set, and is at rest again after `destroy_pipeline`.
-/
theorem firstRound_starts_at_rest :
    ∃ s₀ s s' : Round, (rounds subtitleBuild).init s₀ ∧
      (rounds subtitleBuild).Run s₀ [.createPipeline, .padAdded (.obj 6)] s ∧
      (rounds subtitleBuild).step s .destroyPipeline s' ∧
      s.shared.player.padLinked .video = true ∧
      SamePipeline s'.shared.player s₀.shared.player := by
  obtain ⟨⟨s₀, s₂, s₃⟩, hround, hlinked⟩ := (Option.any_eq_true _ _).mp firstRound_links
  simp only [firstRound, Option.bind_eq_bind, Option.bind_eq_some_iff, Prod.exists,
    Option.ite_none_right_eq_some] at hround
  obtain ⟨tr₀, _, s₀', h₀, tr₁, _, s₁, h₁, tr₂, _, s₂', h₂, tr₃, _, s₃', h₃, ⟨rfl, rfl⟩, heq⟩ :=
    hround
  cases heq
  have hinit : (rounds subtitleBuild).init ⟨s₀, false⟩ := ⟨rfl, .main, tr₀, exec_runWith h₀⟩
  have hrun := (LTS.Run.nil (M := rounds subtitleBuild)).snoc
    (.create (t := .main) (exec_runWith h₁)) |>.snoc (.padAdded (t := .main) (exec_runWith h₂))
  have hstep : (rounds subtitleBuild).step ⟨s₂, true⟩ .destroyPipeline ⟨s₃, false⟩ :=
    .destroy (t := .main) (exec_runWith h₃)
  exact ⟨_, _, _, hinit, hrun, hstep, hlinked, (rounds_start_at_rest hinit hrun hstep).1 rfl⟩

end FirstRound

end LeipoCode.Player
