import LeipoCode.Player.Exclusion

/-!
# The balance of `player->m_mutex`

`create_pipeline` and `destroy_pipeline` lock the mutex at their start and unlock it
before their last `return`, but not before the returns in between.  Which of the
returns is taken is decided by the tests on the results of GStreamer calls, and in
`dropsink` by three pointers of the player.

* `lockRules` — as a `Discipline`: a thread holds the mutex inside an operation only,
  and leaves none with it, relying on the tests to succeed;
* `wp_createPipelineBody`, `wp_destroyPipelineBody` — the two functions keep it;
* `Shared.Balanced` — the books of both threads, kept by every call
  (`performPlayer`, `performControl`).  That a call of one thread leaves the books of the other
  alone rests on `other_outside`: an initialisation of the mutex takes it away from
  whoever holds it.

### What the tests have to do with it

The rule relies on the tests to succeed, so it says nothing of an execution in which one fails: that
is left out by `TestsSucceed`, which is a condition on the response of a call and on three pointers
at the entry of `destroy_pipeline`, and not on where the mutex is.  In the other direction each
early return is one behind a test, and a thread that takes it leaves with the mutex
(`create_pipeline_keeps_lock`).

The mutex is initialised anew by every `create_pipeline`, which would make a thread that holds it
lose it, and freed by every `destroy_pipeline`.  So the books can be kept for two threads only
because no thread is inside an operation while the other one is: the exclusion comes first.

### How the proof is put together

The functions are walked through once, from the inside out, and what is shown of each is that it
keeps the rule and ends in the state of the rule that it began in (`Gives`, `Returns`), so a caller
uses the lemma of the callee and never its text.  `wp_sinkElement` and `wp_subtitleElement` are the
two ways in which an element is made, and cover a dozen of them.

Then the two threads are put beside each other.  A step of one of them is a call, and the calls are
of two kinds: those inside an operation, which change the books of the thread that makes them only
(`Shared.Balanced.performPlayer`), and the control calls, by which operations are entered and left
(`Shared.Balanced.performControl`).  `Accounted` is the invariant, the books and what each thread
still has to do; `Accounted.act` is the step lemma, and the theorem reads its conclusions off a
reachable state.
-/

namespace LeipoCode.Player

open Discipline

/-! ### The rule -/

/-- The operations that take the mutex.  `set_pipeline_state` does not, though it reads the
pipeline. -/
def Op.locks : Op → Bool
  | .createPipeline | .destroyPipeline => true
  | .setPipelineState => false

/-- The pointers `dropsink` tests.  It fails if one of them is null, and `destroy_pipeline` with it.
-/
def PtrField.testedByDropsink : PtrField → Bool
  | .mPipeline | .mSink | .mQueue => true
  | _ => false

/-- The books of a thread: the operation it is inside of, how many times it holds the
mutex, and whether the pointers `dropsink` tests are known not to be null. -/
structure Books where
  inside : Option Op
  hold : ℕ
  known : Bool
deriving DecidableEq

/-- A thread inside no operation, without the mutex, which knows nothing of the pointers. -/
def outside : Books := ⟨none, 0, false⟩

/-- The rule for the mutex: it is taken inside an operation only, given back only if it is held, and
not held at the entry of an operation nor when it is left.  What a test may rely on is that it
succeeds. -/
def lockRules : Discipline Call Call.Resp Books where
  allowed q
    | .player (.recMutex .lock .mMutex) => q.inside ≠ none
    | .player (.recMutex .unlock .mMutex) => 0 < q.hold
    | .control (.enter _) => q.inside = none ∧ q.hold = 0
    | .control (.leave op _) => q.inside = some op ∧ q.hold = 0
    | _ => True
  granted q
    | .player (.load f), p => q.known = true → f.testedByDropsink = true → p ≠ NULL
    | .player (.gst g tested), r =>
        tested = true → q.inside.any Op.locks = true → ¬ g.kind.Fails r
    | _, _ => True
  next q
    | .player (.store _ _), _ => { q with known := false }
    | .player .memsetMutex, _ => { q with hold := 0 }
    | .player (.recMutex .init .mMutex), _ => { q with hold := 0 }
    | .player (.recMutex .lock .mMutex), _ => { q with hold := q.hold + 1 }
    | .player (.recMutex .unlock .mMutex), _ => { q with hold := q.hold - 1 }
    | .control (.enter op), _ => ⟨some op, q.hold, op == .destroyPipeline⟩
    | .control (.leave _ _), _ => ⟨none, q.hold, false⟩
    | _, _ => q

/-- The rule between the control calls, which is what is shown of each function inside an operation.
-/
abbrev bodyRules : Discipline PlayerCall PlayerCall.Resp Books := lockRules.comap .player

/-! ### The functions inside the operations -/

section Functions

variable {q : Books} {b : Build}

theorem gives_load {f : PtrField} :
    bodyRules.Gives q (fun p => q.known = true → f.testedByDropsink = true → p ≠ NULL)
      (load f) :=
  Gives.call trivial fun _ => rfl

theorem returns_store (hk : q.known = false) {f : PtrField} {p : Ptr} :
    bodyRules.Returns q (store f p) := by
  refine (Gives.call trivial fun _ => ?_).returns
  show { q with known := false } = q
  rw [← hk]

theorem returns_untested {g : GstCall} : bodyRules.Returns q (untested g) :=
  (Gives.call trivial fun _ => rfl).returns

/-- Inside an operation that takes the mutex a test succeeds, which is what `granted` promises
there. -/
theorem gives_tested (hq : q.inside.any Op.locks = true) {g : GstCall} :
    bodyRules.Gives q (fun r => ¬ g.kind.Fails r) (tested g) :=
  ⟨trivial, fun _ hr => ⟨hr rfl hq, rfl⟩⟩

theorem gives_make (hq : q.inside.any Op.locks = true) {factory name : String} :
    bodyRules.Gives q (fun p => p ≠ NULL) (elementFactoryMake factory name) :=
  gives_tested hq

theorem gives_ifdef {symbol : Bool} {region : Action Bool}
    (h : bodyRules.Gives q (fun r => ¬ r = false) region) :
    bodyRules.Gives q (fun r => ¬ r = false) (ifdef symbol region) :=
  wp_ite (fun _ => h) fun _ => Gives.pure nofun

theorem returns_loads (fs : List PtrField) : bodyRules.Returns q (loads fs) := by
  induction fs with
  | nil => exact Gives.pure trivial
  | cons f fs ih => exact gives_load.seq fun _ _ => ih.seq fun _ _ => ⟨trivial, rfl⟩

/-! #### `create_pipeline` -/

section Create

variable (hq : q.inside.any Op.locks = true) (hk : q.known = false)
include hq

theorem gives_createSourceElement1 :
    bodyRules.Gives q (fun p => p ≠ NULL) createSourceElement1 := by
  unfold createSourceElement1
  refine (gives_tested hq).seq fun bin hbin => ?_
  rw [if_neg (show bin ≠ NULL from hbin)]
  refine returns_untested.seq fun pad _ => ?_
  refine returns_untested.seq fun _ _ => ?_
  exact Gives.pure hbin

theorem gives_createSourceElement2 :
    bodyRules.Gives q (fun r => ¬ r = false) (createSourceElement2 b) := by
  unfold createSourceElement2
  refine gives_load.seq fun bin _ => ?_
  refine (gives_make hq).seq fun source hsource => ?_
  rw [if_neg hsource]
  refine returns_untested.seq fun _ _ => ?_
  refine returns_untested.seq fun _ _ => ?_
  refine returns_untested.seq fun _ _ => ?_
  refine returns_untested.seq fun pad _ => ?_
  refine returns_untested.seq fun ghostPad _ => ?_
  refine (gives_tested hq).seq fun targetSet hset => ?_
  rw [if_neg (show ¬ targetSet = false from hset)]
  refine returns_untested.seq fun _ _ => ?_
  refine returns_untested.seq fun _ _ => ?_
  refine wp_bind.mpr ⟨trivial, fun uri _ => ?_⟩
  refine returns_untested.seq fun _ _ => ?_
  exact Gives.pure nofun

omit hq in
theorem returns_createSinkElement1 : bodyRules.Returns q createSinkElement1 := by
  unfold createSinkElement1
  refine returns_untested.seq fun bin _ => ?_
  refine returns_untested.seq fun pad _ => ?_
  refine returns_untested.seq fun _ _ => ?_
  exact ⟨trivial, rfl⟩

omit hq in
theorem returns_addSinkElements {bin : Ptr} {e : SinkElements} :
    bodyRules.Returns q (addSinkElements b bin e) := by
  unfold addSinkElements
  refine wp_ite (fun _ => ?_) fun _ => returns_untested
  exact (returns_loads _).seq fun _ _ => returns_untested

theorem gives_linkVideo {e : SinkElements} :
    bodyRules.Gives q (fun r => ¬ r = false) (linkVideo b e) := by
  unfold linkVideo
  refine wp_ite (fun _ => ?_) fun _ => gives_tested hq
  exact (returns_loads _).seq fun _ _ => gives_tested hq

theorem gives_linkAudio {e : SinkElements} :
    bodyRules.Gives q (fun r => ¬ r = false) (linkAudio b e) := by
  unfold linkAudio
  refine wp_ite (fun _ => ?_) fun _ => gives_tested hq
  exact (returns_loads _).seq fun _ _ => gives_tested hq

theorem gives_linkSubtitle : bodyRules.Gives q (fun r => ¬ r = false) linkSubtitle := by
  unfold linkSubtitle
  refine (returns_loads _).seq fun fields _ => ?_
  refine (gives_tested hq).seq fun linked hlinked => ?_
  rw [if_neg (show ¬ linked = false from hlinked)]
  refine gives_load.seq fun subtDecoder _ => ?_
  refine returns_untested.seq fun _ _ => ?_
  exact Gives.pure nofun

include hk

/-- One of the subtitle elements is made, stored and tested.  As the test succeeds, the books are
what they were when the rest begins. -/
theorem wp_subtitleElement {factory name : String} {f : PtrField} {rest : Action Bool}
    {post : Bool → Books → Prop} (hrest : bodyRules.wp post rest q) :
    bodyRules.wp post (do
      let p ← elementFactoryMake factory name
      store f p
      if p = NULL then
        return false
      rest) q := by
  refine (gives_make hq).seq fun p hp => ?_
  refine (returns_store hk).seq fun _ _ => ?_
  rw [if_neg hp]
  exact hrest

theorem gives_createSubtitleElements :
    bodyRules.Gives q (fun r => ¬ r = false) createSubtitleElements := by
  unfold createSubtitleElements
  refine wp_subtitleElement hq hk ?_
  refine wp_subtitleElement hq hk ?_
  refine wp_subtitleElement hq hk ?_
  refine wp_subtitleElement hq hk ?_
  refine wp_subtitleElement hq hk ?_
  exact Gives.pure nofun

/-- One of the elements every build has is made, tested and stored, and then the rest begins with
the books as they were. -/
theorem wp_sinkElement {factory name : String} {f : PtrField} {rest : Ptr → Action Bool}
    {post : Bool → Books → Prop} (hrest : ∀ p, bodyRules.wp post (rest p) q) :
    bodyRules.wp post (do
      let p ← elementFactoryMake factory name
      if p = NULL then
        return false
      store f p
      rest p) q := by
  refine (gives_make hq).seq fun p hp => ?_
  rw [if_neg hp]
  exact (returns_store hk).seq fun _ _ => hrest p

theorem gives_createSinkElement2 :
    bodyRules.Gives q (fun r => ¬ r = false) (createSinkElement2 b) := by
  unfold createSinkElement2
  refine gives_load.seq fun bin _ => ?_
  refine wp_sinkElement hq hk fun demux => ?_
  refine returns_untested.seq fun _ _ => ?_
  refine wp_sinkElement hq hk fun videoDecoder => ?_
  refine wp_sinkElement hq hk fun videoSink => ?_
  refine gives_load.seq fun videoSinkField _ => ?_
  refine returns_untested.seq fun _ _ => ?_
  refine (gives_ifdef (gives_createSubtitleElements hq hk)).seq fun subtitles hsubtitles => ?_
  rw [if_neg hsubtitles]
  refine wp_sinkElement hq hk fun videoQueue => ?_
  refine wp_sinkElement hq hk fun audioDecoder => ?_
  refine wp_sinkElement hq hk fun audioSink => ?_
  refine gives_load.seq fun audioSinkField _ => ?_
  refine returns_untested.seq fun _ _ => ?_
  refine wp_sinkElement hq hk fun audioQueue => ?_
  refine returns_addSinkElements.seq fun _ _ => ?_
  refine (gives_linkVideo hq).seq fun videoLinked hvideo => ?_
  rw [if_neg hvideo]
  refine (gives_linkAudio hq).seq fun audioLinked haudio => ?_
  rw [if_neg haudio]
  refine (gives_ifdef (gives_linkSubtitle hq)).seq fun subtitleLinked hsubtitle => ?_
  rw [if_neg hsubtitle]
  refine returns_untested.seq fun pad _ => ?_
  refine returns_untested.seq fun ghostPad _ => ?_
  refine (gives_tested hq).seq fun targetSet hset => ?_
  rw [if_neg (show ¬ targetSet = false from hset)]
  refine returns_untested.seq fun _ _ => ?_
  refine returns_untested.seq fun _ _ => ?_
  exact Gives.pure nofun

theorem gives_addsink : bodyRules.Gives q (fun r => ¬ r = false) addsink := by
  unfold addsink
  refine gives_load.seq fun mPipeline _ => ?_
  refine gives_load.seq fun mSink _ => ?_
  refine gives_load.seq fun mTee _ => ?_
  refine (gives_tested hq).seq fun mQueue hqueue => ?_
  rw [if_neg (show mQueue ≠ NULL from hqueue)]
  refine (returns_store hk).seq fun _ _ => ?_
  refine returns_untested.seq fun _ _ => ?_
  refine returns_untested.seq fun _ _ => ?_
  refine returns_untested.seq fun _ _ => ?_
  refine returns_untested.seq fun _ _ => ?_
  refine returns_untested.seq fun _ _ => ?_
  refine returns_untested.seq fun _ _ => ?_
  exact Gives.pure nofun

end Create

/-- **`create_pipeline` gives the mutex back** if its tests succeed: entered without it, it is left
without it. -/
theorem wp_createPipelineBody :
    bodyRules.wp (fun _ q' => q' = ⟨some .createPipeline, 0, false⟩) (createPipelineBody b)
      ⟨some .createPipeline, 0, false⟩ := by
  unfold createPipelineBody
  refine wp_bind.mpr ⟨trivial, fun _ _ => wp_bind.mpr ⟨nofun, fun _ _ => ?_⟩⟩
  -- the mutex is held once from here to its last use
  show bodyRules.wp _ _ ⟨some .createPipeline, 1, false⟩
  refine (gives_tested rfl).seq fun mPipeline hpipeline => ?_
  refine (returns_store rfl).seq fun _ _ => ?_
  refine (gives_createSourceElement1 rfl).seq fun mSource hsource => ?_
  refine (returns_store rfl).seq fun _ _ => ?_
  refine (gives_make rfl).seq fun mTee htee => ?_
  refine (returns_store rfl).seq fun _ _ => ?_
  rw [if_neg (not_or.mpr ⟨hpipeline, not_or.mpr ⟨hsource, htee⟩⟩ :
    ¬ (mPipeline = NULL ∨ mSource = NULL ∨ mTee = NULL))]
  refine returns_untested.seq fun _ _ => ?_
  refine (gives_tested rfl).seq fun linked hlinked => ?_
  rw [if_neg (show ¬ linked = false from hlinked)]
  refine returns_untested.seq fun bus _ => ?_
  refine returns_untested.seq fun id _ => ?_
  refine wp_bind.mpr ⟨trivial, fun _ _ => ?_⟩
  refine returns_untested.seq fun _ _ => ?_
  refine (gives_createSourceElement2 rfl).seq fun sourceCreated hcreated => ?_
  rw [if_neg hcreated]
  refine returns_createSinkElement1.seq fun mSink _ => ?_
  refine (returns_store rfl).seq fun _ _ => ?_
  refine (gives_createSinkElement2 rfl rfl).seq fun sinkCreated hcreated => ?_
  rw [if_neg hcreated]
  refine (gives_addsink rfl rfl).seq fun sinkAdded hadded => ?_
  rw [if_neg hadded]
  exact wp_bind.mpr ⟨Nat.one_pos, fun _ _ => rfl⟩

/-- `set_pipeline_state` does not touch the mutex, so its tests may fail. -/
theorem wp_setPipelineStateBody {state : GstState} :
    bodyRules.wp (fun _ q' => q' = ⟨some .setPipelineState, 0, false⟩) (setPipelineStateBody state)
      ⟨some .setPipelineState, 0, false⟩ := by
  unfold setPipelineStateBody
  refine wp_bind.mpr ⟨trivial, fun mPipeline _ => ?_⟩
  refine wp_bind.mpr ⟨trivial, fun ret _ => wp_ite (fun _ => rfl) fun _ => ?_⟩
  refine wp_bind.mpr ⟨trivial, fun ret _ => wp_ite (fun _ => rfl) fun _ => ?_⟩
  exact wp_ite (fun _ => rfl) fun _ => rfl

/-! #### `destroy_pipeline` -/

theorem wp_resetSinkFields {n : ℕ} {known : Bool} :
    bodyRules.wp (fun _ q' => q' = ⟨some .destroyPipeline, n, false⟩) (resetSinkFields b)
      ⟨some .destroyPipeline, n, known⟩ := by
  unfold resetSinkFields
  refine wp_bind.mpr ⟨trivial, fun _ _ => ?_⟩
  repeat refine wp_bind.mpr ⟨trivial, fun _ _ => ?_⟩
  refine wp_ite (fun _ => ?_) fun _ => rfl
  repeat refine wp_bind.mpr ⟨trivial, fun _ _ => ?_⟩
  exact ⟨trivial, fun _ _ => rfl⟩

/-- `dropsink` succeeds if the pointers it tests are not null and its tests succeed. -/
theorem wp_dropsink {n : ℕ} :
    bodyRules.wp (fun r q' => ¬ r = false ∧ q' = ⟨some .destroyPipeline, n, false⟩) (dropsink b)
      ⟨some .destroyPipeline, n, true⟩ := by
  unfold dropsink
  refine gives_load.seq fun mPipeline hpipeline => ?_
  refine gives_load.seq fun mSink hsink => ?_
  refine gives_load.seq fun mQueue hqueue => ?_
  refine gives_load.seq fun mTee _ => ?_
  -- nothing has been written since the entry, so the three are what they were then
  rw [if_neg (hpipeline rfl rfl), if_neg (hsink rfl rfl), if_neg (hqueue rfl rfl)]
  refine returns_untested.seq fun _ _ => ?_
  refine returns_untested.seq fun _ _ => ?_
  refine (gives_tested rfl).seq fun queueSinkPad hsinkPad => ?_
  refine (gives_tested rfl).seq fun teeSrcPad hsrcPad => ?_
  rw [if_neg (show queueSinkPad ≠ NULL from hsinkPad),
    if_neg (show teeSrcPad ≠ NULL from hsrcPad)]
  refine (gives_tested rfl).seq fun unlinked hunlinked => ?_
  rw [if_neg (show ¬ unlinked = false from hunlinked)]
  refine returns_untested.seq fun _ _ => ?_
  refine returns_untested.seq fun _ _ => ?_
  refine returns_untested.seq fun _ _ => ?_
  refine (gives_tested rfl).seq fun queueRemoved hqueueRemoved => ?_
  rw [if_neg (show ¬ queueRemoved = false from hqueueRemoved)]
  refine (gives_tested rfl).seq fun sinkRemoved hsinkRemoved => ?_
  rw [if_neg (show ¬ sinkRemoved = false from hsinkRemoved)]
  exact wp_seq wp_resetSinkFields fun _ _ hq => ⟨nofun, hq⟩

/-- **`destroy_pipeline` gives the mutex back** if the pointers `dropsink` tests are not
null when it is entered and its tests succeed. -/
theorem wp_destroyPipelineBody :
    bodyRules.wp (fun _ q' => q' = ⟨some .destroyPipeline, 0, false⟩) (destroyPipelineBody b)
      ⟨some .destroyPipeline, 0, true⟩ := by
  unfold destroyPipelineBody
  refine gives_load.seq fun mPipeline _ => ?_
  refine wp_bind.mpr ⟨nofun, fun _ _ => ?_⟩
  -- held once while the sink is dropped
  refine wp_seq wp_dropsink fun dropped _ ⟨hdropped, hq'⟩ => ?_
  rw [if_neg hdropped, hq']
  refine wp_bind.mpr ⟨trivial, fun id _ => ?_⟩
  refine returns_untested.seq fun _ _ => ?_
  refine wp_bind.mpr ⟨trivial, fun _ _ => ?_⟩
  refine returns_untested.seq fun _ _ => ?_
  refine (returns_store rfl).seq fun _ _ => ?_
  refine (returns_store rfl).seq fun _ _ => ?_
  refine wp_bind.mpr ⟨Nat.one_pos, fun _ _ => ?_⟩
  -- locked and unlocked once more, to wait
  refine wp_bind.mpr ⟨nofun, fun _ _ => wp_bind.mpr ⟨Nat.one_pos, fun _ _ => ?_⟩⟩
  refine wp_bind.mpr ⟨trivial, fun _ _ => ?_⟩
  refine (returns_store rfl).seq fun _ _ => ?_
  refine (returns_store rfl).seq fun _ _ => ?_
  exact rfl

end Functions

/-! ### The threads -/

section Threads

variable {b : Build}

/-- An operation that gives the mutex back is entered and left without it, as the rule has it for
the thread that calls it. -/
theorem returns_lockOperation {op : Op} {body : Action Bool}
    (hbody : bodyRules.wp (fun _ q' => q' = ⟨some op, 0, false⟩) body
      ⟨some op, 0, op == .destroyPipeline⟩) : lockRules.Returns outside (operation op body) := by
  refine wp_bind.mpr ⟨⟨rfl, rfl⟩, fun _ _ => wp_seq (wp_mapCall.mpr hbody) ?_⟩
  rintro result q' rfl
  exact wp_bind.mpr ⟨⟨rfl, rfl⟩, fun _ _ => ⟨trivial, rfl⟩⟩

theorem serves_lockRules : Serves lockRules b outside where
  createPipeline := returns_lockOperation wp_createPipelineBody
  destroyPipeline := returns_lockOperation wp_destroyPipelineBody
  setPipelineState _ := returns_lockOperation wp_setPipelineStateBody
  memcpyUri _ := ⟨trivial, fun _ _ => ⟨trivial, rfl⟩⟩
  sleep _ := ⟨trivial, fun _ _ => ⟨trivial, rfl⟩⟩

/-- The keyboard task holds the mutex inside the operations only, and is outside of all when its
function ends. -/
theorem wp_lockProcess :
    lockRules.wp (fun _ q' => q' = outside) (processInputKeyFromKeyboard b) outside := by
  unfold processInputKeyFromKeyboard
  refine wp_bind.mpr ⟨trivial, fun mainLoop _ => ?_⟩
  refine wp_bind.mpr ⟨trivial, fun isRunning _ => wp_ite (fun _ => ?_) fun _ => rfl⟩
  refine wp_bind.mpr ⟨trivial, fun c _ => ?_⟩
  show lockRules.wp (fun _ q' => q' = outside) (handleKey b mainLoop c) outside
  refine serves_lockRules.handleKey ?_ ?_ c
  · exact ⟨trivial, fun _ _ => rfl⟩
  · rfl

theorem returns_playerInit : bodyRules.Returns outside playerInit := by
  unfold playerInit
  repeat refine wp_bind.mpr ⟨trivial, fun _ _ => ?_⟩
  exact ⟨trivial, fun _ _ => ⟨trivial, rfl⟩⟩

theorem returns_createKeyboardTask : bodyRules.Returns outside createKeyboardTask := by
  unfold createKeyboardTask
  refine wp_bind.mpr ⟨trivial, fun mutex _ => wp_bind.mpr ⟨trivial, fun _ _ => ?_⟩⟩
  refine wp_bind.mpr ⟨trivial, fun task _ => wp_bind.mpr ⟨trivial, fun _ _ => ?_⟩⟩
  refine wp_bind.mpr ⟨trivial, fun _ _ => wp_ite (fun _ => ?_) fun _ => ⟨trivial, rfl⟩⟩
  refine wp_bind.mpr ⟨trivial, fun _ _ => wp_bind.mpr ⟨trivial, fun _ _ => ?_⟩⟩
  exact ⟨trivial, fun _ _ => ⟨trivial, rfl⟩⟩

theorem returns_joinKeyboardTask : bodyRules.Returns outside joinKeyboardTask := by
  unfold joinKeyboardTask
  repeat refine wp_bind.mpr ⟨trivial, fun _ _ => ?_⟩
  exact ⟨trivial, fun _ _ => ⟨trivial, rfl⟩⟩

/-- The main thread holds the mutex inside the operations only, and is outside of all when `main`
returns, with any status. -/
theorem wp_lockMain : lockRules.wp (fun _ q' => q' = outside) (main b) outside := by
  unfold main
  have hlift {α : Type} {p : Action α} (hp : bodyRules.Returns outside p) :
      lockRules.Returns outside (liftM p : Routine α) := wp_mapCall.mpr hp
  have hserves : Serves lockRules b outside := serves_lockRules
  refine wp_bind.mpr ⟨trivial, fun _ _ => ?_⟩
  refine (hlift returns_playerInit).seq fun _ _ => ?_
  refine wp_bind.mpr ⟨trivial, fun _ _ => wp_bind.mpr ⟨trivial, fun loop _ => ?_⟩⟩
  refine wp_bind.mpr ⟨trivial, fun _ _ => ?_⟩
  refine (hlift returns_createKeyboardTask).seq fun _ _ => ?_
  refine hserves.createPipeline.seq fun created _ => ?_
  refine wp_ite (fun _ => rfl) fun _ => ?_
  refine (hserves.setPipelineState .playing).seq fun playing _ => ?_
  refine wp_ite (fun _ => rfl) fun _ => ?_
  refine wp_bind.mpr ⟨trivial, fun mainLoop _ => ?_⟩
  refine wp_bind.mpr ⟨trivial, fun _ _ => wp_bind.mpr ⟨trivial, fun _ _ => ?_⟩⟩
  refine (hserves.setPipelineState .null).seq fun stopped _ => ?_
  refine wp_ite (fun _ => rfl) fun _ => ?_
  refine (hlift returns_joinKeyboardTask).seq fun _ _ => ?_
  refine hserves.destroyPipeline.seq fun destroyed _ => ?_
  exact wp_ite (fun _ => rfl) fun _ => rfl

end Threads

/-! ### The books of both threads -/

/-- What is true of the books between any two calls; `known` is what each thread knows of
the pointers `dropsink` tests. -/
structure Shared.Balanced (s : Shared) (known : Thread → Bool) : Prop where
  hold_outside : ∀ t, s.inside t = none → s.hold t = 0
  inside_of_known : ∀ t, known t = true → s.inside t ≠ none
  ptr_of_known : ∀ t, known t = true → ∀ f, f.testedByDropsink = true → s.player.ptr f ≠ NULL
  entry : ∀ t, s.entryHold t = 0

/-- The books of a thread, as the shared state has them, but for what it knows of the pointers. -/
def Shared.books (s : Shared) (known : Thread → Bool) (t : Thread) : Books :=
  ⟨s.inside t, s.hold t, known t⟩

theorem lockRules_next_untouched {q : Books} {c : PlayerCall} (hc : c.touches = false)
    (r : c.Resp) : lockRules.next q (.player c) r = q := by
  cases c with
  | store f p => cases hc
  | memsetMutex => cases hc
  | recMutex o m =>
      cases m with
      | mMutex => cases hc
      | inputTaskMutex => cases o <;> rfl
  | _ => rfl

namespace Shared.Balanced

variable {s s' : Shared} {known : Thread → Bool} {t : Thread}

/-- A step that leaves the pointers, the mutex and the places of the threads alone leaves the books
of both threads as they are. -/
theorem of_frame (h : s.Balanced known) (hptr : s'.player.ptr = s.player.ptr)
    (hmutex : s'.player.mMutex = s.player.mMutex) (hinside : s'.inside = s.inside)
    (hentry : s'.entryHold = s.entryHold) :
    s'.Balanced known ∧ s'.books known = s.books known := by
  have hhold : s'.hold = s.hold := by
    funext t
    simp only [hold, hmutex]
  refine ⟨⟨?_, ?_, ?_, ?_⟩, ?_⟩
  · rw [hinside, hhold]
    exact h.hold_outside
  · rw [hinside]
    exact h.inside_of_known
  · rw [hptr]
    exact h.ptr_of_known
  · rw [hentry]
    exact h.entry
  · funext t
    simp only [books, hinside, hhold]

/-- A thread inside an operation changes how many times it holds the mutex, while the
other one holds it as before. -/
theorem of_mutex (h : s.Balanced known) {m : RecMutex} (hin : s.inside t ≠ none ∨ m.holds t = 0)
    (hother : m.holds t.other = s.hold t.other) :
    (s.setMutex m .mMutex).Balanced known ∧
      (s.setMutex m .mMutex).books known t = { s.books known t with hold := m.holds t } ∧
      (s.setMutex m .mMutex).books known t.other = s.books known t.other := by
  refine ⟨⟨fun t' ht' => ?_, h.inside_of_known, h.ptr_of_known, h.entry⟩, rfl, ?_⟩
  · obtain rfl | rfl := t.eq_or_eq_other t'
    · exact hin.resolve_left fun hne => hne ht'
    · exact hother.trans (h.hold_outside _ ht')
  · show Books.mk _ (m.holds t.other) _ = _
    rw [hother]
    rfl

/-- A thread writes a pointer while the other one is outside: it forgets what it knew of the
pointers, and the other one knew nothing. -/
theorem of_store (h : s.Balanced known) (hother : s.inside t.other = none) (f : PtrField)
    (p : Ptr) :
    (s.setPtr f p).Balanced (Function.update known t false) ∧
      (s.setPtr f p).books (Function.update known t false) t =
        { s.books known t with known := false } ∧
      (s.setPtr f p).books (Function.update known t false) t.other = s.books known t.other := by
  have hne : t.other ≠ t := by cases t <;> decide
  -- nobody knows anything of the pointers after the write
  have hunknown : ∀ t', Function.update known t false t' ≠ true := by
    intro t' ht'
    obtain rfl | rfl := t.eq_or_eq_other t'
    · rw [Function.update_self] at ht'
      cases ht'
    · rw [Function.update_of_ne hne] at ht'
      exact h.inside_of_known _ ht' hother
  refine ⟨⟨h.hold_outside, fun t' ht' => absurd ht' (hunknown t'),
    fun t' ht' => absurd ht' (hunknown t'), h.entry⟩, ?_, ?_⟩
  · show Books.mk _ _ (Function.update known t false t) = _
    rw [Function.update_self]
    rfl
  · show Books.mk _ _ (Function.update known t false t.other) = _
    rw [Function.update_of_ne hne]
    rfl

/-- **Calls between control calls keep the books**, if they obey the rule and do not touch the
pipeline while the other thread is inside an operation. -/
theorem performPlayer (h : s.Balanced known) {c : PlayerCall} {r : c.Resp}
    (hother : c.touches = true → s.inside t.other = none)
    (ha : lockRules.allowed (s.books known t) (.player c))
    (hs : s.performPlayer t c r = some s') :
    ∃ known', s'.Balanced known' ∧
      s'.books known' t = lockRules.next (s.books known t) (.player c) r ∧
      s'.books known' t.other = s.books known t.other := by
  by_cases hc : c.touches = true
  · -- the other thread is outside, and so without the mutex
    have hhold := h.hold_outside _ (hother hc)
    cases c with
    | store f p =>
        cases hs
        exact ⟨_, h.of_store (hother hc) f p⟩
    | memsetMutex =>
        cases hs
        exact ⟨known, h.of_mutex (.inr (RecMutex.holds_free t)) hhold.symm⟩
    | recMutex o m =>
        cases m with
        | inputTaskMutex => cases hc
        | mMutex =>
            obtain ⟨m', hm, rfl⟩ := Option.map_eq_some_iff.mp hs
            cases o with
            | init =>
                cases hm
                exact ⟨known, h.of_mutex (.inr (RecMutex.holds_free t)) hhold.symm⟩
            | lock =>
                obtain ⟨hself, hoth⟩ := RecMutex.holds_of_lock hm
                obtain ⟨hbal, hbooks, hrest⟩ := h.of_mutex (.inl ha) hoth
                exact ⟨known, hbal, by rw [hbooks, hself]; rfl, hrest⟩
            | unlock =>
                obtain ⟨hself, hoth⟩ := RecMutex.holds_of_unlock ha hm
                have hin : s.inside t ≠ none := fun hout =>
                  absurd (h.hold_outside t hout) (Nat.ne_of_gt ha)
                obtain ⟨hbal, hbooks, hrest⟩ := h.of_mutex (.inl hin) hoth
                exact ⟨known, hbal, by rw [hbooks, hself]; rfl, hrest⟩
            | free =>
                cases hm
                exact ⟨known, h.of_frame rfl rfl rfl rfl |>.imp_right fun hb =>
                  ⟨congrFun hb t, congrFun hb t.other⟩⟩
    | _ => cases hc
  · have hc : c.touches = false := Bool.eq_false_iff.mpr hc
    obtain ⟨-, -, hinside, hentry⟩ := performPlayer_frame hs
    obtain ⟨hptr, hmutex⟩ := performPlayer_untouched hc hs
    obtain ⟨hbal, hbooks⟩ := h.of_frame hptr hmutex hinside hentry
    refine ⟨known, hbal, ?_, congrFun hbooks _⟩
    rw [lockRules_next_untouched hc]
    exact congrFun hbooks t

/-- A thread without the mutex enters an operation or leaves one.  It may know of the pointers then
only what is true of them. -/
theorem move (h : s.Balanced known) (hhold : s.hold t = 0) (o : Option Op) (k : Bool)
    {e : Thread → ℕ} (he : ∀ t, e t = 0)
    (hk : k = true → o ≠ none ∧ ∀ f, f.testedByDropsink = true → s.player.ptr f ≠ NULL)
    (hs' : s' = { s with inside := Function.update s.inside t o, entryHold := e }) :
    s'.Balanced (Function.update known t k) ∧
      s'.books (Function.update known t k) t = ⟨o, s.hold t, k⟩ ∧
      s'.books (Function.update known t k) t.other = s.books known t.other := by
  subst hs'
  have hne : t.other ≠ t := by cases t <;> decide
  refine ⟨⟨fun t' ht' => ?_, fun t' ht' => ?_, fun t' ht' => ?_, he⟩, ?_, ?_⟩
  · obtain rfl | rfl := t.eq_or_eq_other t'
    · exact hhold
    · apply h.hold_outside _
      simpa only [Function.update_of_ne hne] using ht'
  · obtain rfl | rfl := t.eq_or_eq_other t'
    · simp only [Function.update_self] at ht' ⊢
      exact (hk ht').1
    · simp only [Function.update_of_ne hne] at ht' ⊢
      exact h.inside_of_known _ ht'
  · obtain rfl | rfl := t.eq_or_eq_other t'
    · simp only [Function.update_self] at ht'
      exact (hk ht').2
    · simp only [Function.update_of_ne hne] at ht'
      exact h.ptr_of_known _ ht'
  · show Books.mk (Function.update s.inside t o t) _ (Function.update known t k t) = _
    simp only [Function.update_self]
    rfl
  · show Books.mk (Function.update s.inside t o t.other) _ (Function.update known t k t.other) = _
    simp only [Function.update_of_ne hne]
    rfl

/-- **Control calls keep the books**, if they obey the rule and `destroy_pipeline` is entered with
the pointers `dropsink` tests. -/
theorem performControl (h : s.Balanced known) {c : ControlCall} {r : c.Resp}
    (ha : lockRules.allowed (s.books known t) (.control c))
    (hptr : c = .enter .destroyPipeline →
      ∀ f, f.testedByDropsink = true → s.player.ptr f ≠ NULL)
    (hs : s.performControl t c r = some s') :
    ∃ known', s'.Balanced known' ∧
      s'.books known' t = lockRules.next (s.books known t) (.control c) r ∧
      s'.books known' t.other = s.books known t.other := by
  have hframe (hinside : s'.inside = s.inside) (hentry : s'.entryHold = s.entryHold)
      (hplayer : s'.player = s.player) :
      s'.Balanced known ∧ s'.books known t = s.books known t ∧
        s'.books known t.other = s.books known t.other :=
    (h.of_frame (by rw [hplayer]) (by rw [hplayer]) hinside hentry).imp_right fun hb =>
      ⟨congrFun hb t, congrFun hb t.other⟩
  cases c with
  | enter op =>
      refine ⟨_, h.move ha.2 (some op) (op == .destroyPipeline) (fun t' => ?_) (fun hop => ?_)
        (Option.some.inj hs).symm⟩
      · obtain rfl | hne := eq_or_ne t' t
        · rw [Function.update_self]
          exact ha.2
        · rw [Function.update_of_ne hne]
          exact h.entry t'
      · exact ⟨nofun, hptr (congrArg _ (eq_of_beq hop))⟩
  | leave op result =>
      exact ⟨_, h.move ha.2 none false h.entry nofun (Option.some.inj hs).symm⟩
  | mainLoopNew =>
      simp only [Shared.performControl, Option.ite_none_left_eq_some] at hs
      cases hs.2
      exact ⟨known, hframe rfl rfl rfl⟩
  | mainLoopRun loop =>
      cases hs
      exact ⟨known, hframe rfl rfl rfl⟩
  | mainLoopRunReturns =>
      simp only [Shared.performControl, Option.ite_none_left_eq_some] at hs
      cases hs.2
      exact ⟨known, hframe rfl rfl rfl⟩
  | mainLoopQuit loop =>
      cases hs
      exact ⟨known, hframe rfl rfl rfl⟩
  | mainLoopIsRunning loop =>
      simp only [Shared.performControl, Option.ite_none_right_eq_some] at hs
      cases hs.2
      exact ⟨known, hframe rfl rfl rfl⟩

end Shared.Balanced

/-! ### Runs -/

/-- The answer that stands for success, in the worlds of the witnesses, is no failure for any kind
of result. -/
theorem kind_value_succeeds (k : Kind) : ¬ k.Fails (k.value true) := by
  cases k <;> simp [Kind.Fails, Kind.value]

/-- The steps that do not lead to one of the early returns of `create_pipeline` and
`destroy_pipeline`: a GStreamer call tested inside them succeeds, and `destroy_pipeline`
is entered with the pointers `dropsink` tests. -/
def TestsSucceed (s : State) : Label → Prop
  | .act t (.player (.gst g tested)) r =>
      tested = true → (s.shared.inside t).any Op.locks = true → ¬ g.kind.Fails r
  | .act _ (.control (.enter .destroyPipeline)) _ =>
      ∀ f, f.testedByDropsink = true → s.shared.player.ptr f ≠ NULL
  | _ => True

/-- The books are kept, and what each thread still has to do keeps the rule. -/
structure Accounted (s : State) (known : Thread → Bool) : Prop where
  balanced : s.shared.Balanced known
  keeps : ∀ t, s.Keeps lockRules (fun q => q = outside) t (s.shared.books known t)

theorem start_accounted (b : Build) : Accounted (start b) fun _ => false where
  balanced := ⟨fun _ _ => rfl, nofun, nofun, fun _ => rfl⟩
  keeps t := by
    cases t with
    | main => exact wp_lockMain
    | keyboard => rfl

/-- What a thread relies on holds of a call that is not the way to an early return. -/
theorem Accounted.granted {b : Build} {s s' : State} {known : Thread → Bool} {t : Thread}
    {c : Call} {r : c.Resp} (h : Accounted s known) (hs : Step b s (.act t c r) s')
    (htests : TestsSucceed s (.act t c r)) : lockRules.granted (s.shared.books known t) c r := by
  cases c with
  | control c => cases c <;> trivial
  | player c =>
      cases c with
      | load f =>
          intro hknown hf
          have hr : r = s.shared.player.ptr f := by
            have hperf := hs.perform
            simp only [Shared.perform, Shared.performPlayer,
              Option.ite_none_right_eq_some] at hperf
            exact hperf.1
          rw [hr]
          exact h.balanced.ptr_of_known t hknown f hf
      | gst g tested => exact htests
      | _ => trivial

/-- **A call** that is not the way to an early return keeps the accounts.  That no other thread is
inside an operation, when the call touches the pipeline, comes from `other_outside`. -/
theorem Accounted.act {b : Build} {s s' : State} {known : Thread → Bool} {t : Thread}
    {c : Call} {r : c.Resp} (h : Accounted s known) (hreach : (player b).Reachable s)
    (hs : Step b s (.act t c r) s') (htests : TestsSucceed s (.act t c r)) :
    ∃ known', Accounted s' known' := by
  obtain ⟨hallowed, hnext⟩ := hs.keeps_self (h.keeps t)
  have hbooks : ∃ known', s'.shared.Balanced known' ∧
      s'.shared.books known' t = lockRules.next (s.shared.books known t) c r ∧
      s'.shared.books known' t.other = s.shared.books known t.other := by
    cases c with
    | player c =>
        exact h.balanced.performPlayer (fun hc => other_outside hreach hs (.inr hc)) hallowed
          hs.perform
    | control c =>
        refine h.balanced.performControl hallowed (fun hc => ?_) hs.perform
        subst hc
        exact htests
  obtain ⟨known', hbalanced, hself, hother⟩ := hbooks
  refine ⟨known', hbalanced, ?_⟩
  intro t'
  obtain rfl | rfl := t.eq_or_eq_other t'
  · rw [hself]
    exact hnext (h.granted hs htests)
  · rw [hother]
    exact hs.keeps_other (h.keeps t.other)

/-- What the task does around its function keeps the accounts: the function may be run again by a
thread that is outside. -/
theorem Accounted.task {b : Build} {s s' : State} {known : Thread → Bool} {e : TaskEvent}
    (h : Accounted s known) (hs : Step b s (.task e) s') : Accounted s' known := by
  obtain ⟨hplayer, -, -, hinside, hentry⟩ := hs.task_frame
  obtain ⟨hbalanced, hbooks⟩ :=
    h.balanced.of_frame (by rw [hplayer]) (by rw [hplayer]) hinside hentry
  refine ⟨hbalanced, fun t => hs.keeps_task (fun _ hidle => ?_) ?_⟩
  · rw [hidle]
    exact wp_lockProcess
  · rw [hbooks]
    exact h.keeps t

theorem accounted_of_reachable {b : Build} {s : State}
    (h : ((player b).restrict TestsSucceed).Reachable s) : ∃ known, Accounted s known := by
  induction h with
  | init h0 =>
      rw [show _ = start b from h0]
      exact ⟨_, start_accounted b⟩
  | @step s s' l hreach hs ih =>
      obtain ⟨known, hacc⟩ := ih
      obtain ⟨htests, hs⟩ := hs
      cases l with
      | act t c r => exact hacc.act hreach.of_restrict hs htests
      | task e => exact ⟨known, hacc.task hs⟩

/-- **Lock balance over whole runs.**  As long as no test inside `create_pipeline` and
`destroy_pipeline` fails (`TestsSucceed`), whenever one of the operations returns, `TRUE` or
`FALSE`, the calling thread holds the mutex as many times as when it entered; and the main thread
never finds it held by the keyboard task inside an operation.  The condition is on each step of the
run, before it is made. -/
theorem lock_balance_of_tests (b : Build) {s : State}
    (h : ((player b).restrict TestsSucceed).Reachable s) :
    (∀ t op result s', Step b s (.act t (.control (.leave op result)) ()) s' →
      s'.shared.hold t = s.shared.entryHold t) ∧
    (s.shared.inside .main ≠ none → s.shared.hold .keyboard = 0) := by
  obtain ⟨known, hacc⟩ := accounted_of_reachable h
  refine ⟨fun t op result s' hs => ?_, fun hin => ?_⟩
  · have hallowed := (hs.keeps_self (hacc.keeps t)).1
    have hplayer : s'.shared.player = s.shared.player :=
      Shared.performControl_player (c := .leave op result) (r := ()) hs.perform
    rw [hacc.balanced.entry t, Shared.hold, hplayer]
    exact hallowed.2
  · obtain ⟨k, ho⟩ := orderly_of_reachable h.of_restrict
    exact hacc.balanced.hold_outside _ (ho.apart.other_outside (ho.apart.may_of_inside hin))

/-- If the call is the entry of `destroy_pipeline`, the pointers `dropsink` tests are there. -/
def Shared.readyFor (s : Shared) : Call → Bool
  | .control (.enter .destroyPipeline) =>
      [.mPipeline, .mSink, .mQueue].all fun f => s.player.ptr f ≠ NULL
  | _ => true

/-- The main thread leaves `destroy_pipeline` with `TRUE`, at the end of a run in which GStreamer
grants everything: it creates the pipeline and waits in `g_main_loop_run`, the keyboard task
destroys and creates it once for `k` and quits the loop for `q`, and the main thread waits for the
task before it destroys the pipeline. -/
theorem lock_balance_of_tests_run :
    ∃ s s' : State, Step ⟨false, false, false, false⟩ s
        (.act .main (.control (.leave .destroyPipeline true)) ()) s' ∧
      s'.shared.hold .main = s.shared.entryHold .main ∧ s.shared.hold .keyboard = 0 := by
  let b : Build := ⟨false, false, false, false⟩
  let zap : World := ⟨fun _ => false, some 'k'⟩
  let quit : World := ⟨fun _ => false, some 'q'⟩
  have hobserve : (((start b).follow b zap Shared.readyFor
      (calls .main 115 ++ [.task .begins, .task .iterates] ++ calls .keyboard 130)).bind
        fun s => s.follow b quit Shared.readyFor ([.task .iterates] ++ calls .keyboard 4 ++
          calls .main 8 ++ [.task .ends] ++ calls .main 45)).map (fun s => s.observe .main) =
      some (some (.control (.leave .destroyPipeline true)), some .destroyPipeline, 0, 0) := by
    decide +kernel
  obtain ⟨s, hrun, hs⟩ := Option.map_eq_some_iff.mp hobserve
  obtain ⟨s₁, hzap, hquit⟩ := Option.bind_eq_some_iff.mp hrun
  simp only [State.observe, Prod.mk.injEq] at hs
  obtain ⟨hcall, hinside, -⟩ := hs
  have hgranted (key : Option Char) : ∀ s t c, s.shared.readyFor c = true →
      TestsSucceed s (.act t c (World.reply ⟨fun _ => false, key⟩ s.shared c)) := by
    intro s t c hc
    cases c with
    | player c => cases c <;> first | trivial | exact fun _ _ => kind_value_succeeds _
    | control c =>
        cases c with
        | enter op =>
            cases op with
            | destroyPipeline =>
                intro f hf
                cases f <;> simp_all [PtrField.testedByDropsink, Shared.readyFor]
            | _ => trivial
        | _ => trivial
  have hreach := reachable_follow (hgranted _) (fun _ _ => trivial) (.init rfl) hzap
  have hreach := reachable_follow (hgranted _) (fun _ _ => trivial) hreach hquit
  obtain ⟨s', hstep, -⟩ := State.step_of_call (b := b) (r := ()) hcall rfl
  obtain ⟨hleave, hkeyboard⟩ := lock_balance_of_tests b hreach
  exact ⟨s, s', hstep, hleave _ _ _ _ hstep, hkeyboard (by simp [hinside])⟩

/-- **A failed test loses the mutex.**  If there is no `tee` to be made, the main thread
leaves `create_pipeline` with `FALSE` and holds the mutex once more than when it entered. -/
theorem create_pipeline_keeps_lock :
    ¬ ∀ (b : Build) (s s' : State) (t : Thread) (op : Op) (result : Bool),
      (player b).Reachable s → op.locks = true →
      Step b s (.act t (.control (.leave op result)) ()) s' →
      s'.shared.hold t = s.shared.entryHold t := by
  intro hbalance
  let b : Build := ⟨false, false, false, false⟩
  let w : World := ⟨(· == .elementFactoryMake "tee" (some "source_tee")), none⟩
  have hobserve : ((start b).follow b w (fun _ _ => true) (calls .main 45)).map
      (fun s => s.observe .main) =
      some (some (.control (.leave .createPipeline false)), some .createPipeline, 1, 0) := by
    decide +kernel
  obtain ⟨s, hrun, hs⟩ := Option.map_eq_some_iff.mp hobserve
  simp only [State.observe, Prod.mk.injEq] at hs
  obtain ⟨hcall, -, hhold, hentry⟩ := hs
  have hreach := reachable_follow (P := fun _ _ => True) (fun _ _ _ _ => trivial)
    (fun _ _ => trivial) (.init rfl) hrun
  obtain ⟨s', hstep, hshared⟩ := State.step_of_call (b := b) (r := ()) hcall rfl
  have hbalanced := hbalance b s _ .main .createPipeline false hreach.of_restrict rfl hstep
  rw [hshared] at hbalanced
  change s.shared.hold .main = s.shared.entryHold .main at hbalanced
  rw [hhold, hentry] at hbalanced
  cases hbalanced

end LeipoCode.Player
