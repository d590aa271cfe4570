import LeipoCode.Player.Ledger
import LeipoCode.Player.Rounds

/-!
# What a failed `create_pipeline` leaves behind

`create_pipeline` and the functions it calls return as soon as a test fails, and none of
their exits gives back what was obtained before.  The first object obtained is the
pipeline, or else the source bin, or else the tee; from then on it stays with the program.

* `LeavesNothing` — what a failed call should leave: no new object, reference or watch,
  and the fields as they were;
* `keepRules` — as a `Discipline`: the first object made is never released, and a test that
  fails is the last;
* `wp_createPipelineBody_keeps` — `create_pipeline` follows this rule;
* `failed_create_leaves_nothing_iff` — a failed call leaves nothing exactly if nothing at
  all could be obtained.

The rule is about one object, the first that is made.  No call of the rest of the function releases
it (`GstCall.Releases`), which is a question of which fields a call gets its arguments from: what is
kept is only in the fields of `PtrField.first`, and what the later calls are given to add or to
unref comes from others, or was made after it.  So a call that fails after its first object leaves
that object, whatever else it leaves.

For the converse nothing may have been obtained at all: every test has failed, and the three fields
that are overwritten with `NULL` on the way were `NULL` before.  This is a straight walk through the
function, with one outcome at each test (`nothing_obtained`).

### How the rule is followed

The state of the rule is the object that is kept, if any, and whether a test has failed or succeeded
so far.  `Checks` is what every function here has in common: it returns `FALSE` as soon as a test
fails and `TRUE` if none does, and `Checks.seq` puts two such functions together.  On the way a
function reads fields, and what it reads from a field that is not one of the first is never the
object that is kept: that is the side of the world (`KeptSince`), which `honours_keepRules` shows of
GStreamer and of the assignments.

The books say what a call may do to the objects, and which of its outcomes it has is left open
everywhere.  So the result holds whatever GStreamer grants and refuses, and in whatever state the
function is called, with a pipeline that is still there as well.
-/

namespace LeipoCode.Player

open Prog Discipline

/-- What was obtained since has been released, and the pipeline fields are what they
were. -/
structure LeavesNothing (σ σ' : Site) : Prop where
  held : ∀ p, σ'.ledger.Held p → σ.ledger.Held p
  refs : ∀ p, σ'.ledger.refs p ≤ σ.ledger.refs p
  watches : σ'.ledger.watches ⊆ σ.ledger.watches
  pipeline : SamePipeline σ'.shared.player σ.shared.player

/-- Where nothing is left behind, no object is kept that was not known before: the program would
have a reference that it did not have. -/
theorem LeavesNothing.not_keeps {σ σ' : Site} {k : Ptr} (h : LeavesNothing σ σ')
    (hnew : ¬ σ.ledger.Knows k) : ¬ σ'.ledger.Keeps k := by
  intro hkeeps
  have hrefs := h.refs k
  rw [Ledger.refs_of_not_knows hnew] at hrefs
  exact absurd hkeeps.refs_pos (Nat.not_lt.mpr hrefs)

/-! ### The rule -/

/-- The fields that hold the first objects made: whichever is the first, it is in one of these. -/
def PtrField.first : PtrField → Bool
  | .mPipeline | .mSource | .mTee => true
  | _ => false

/-- The element a call makes, if it succeeds: a pipeline, a bin, or one of a factory. -/
def GstCall.makes : (g : GstCall) → g.kind.Val → Option Ptr
  | .pipelineNew _, p | .binNew _, p | .elementFactoryMake _ _, p =>
      if (p : Ptr) = NULL then none else some p
  | _, _ => none

/-- What is kept, and whether a test has failed or succeeded so far: the state of the rule. -/
structure Kept where
  object : Option Ptr
  failed : Bool
  succeeded : Bool
deriving DecidableEq

/-- The rule for what is kept: it is not stored in another field, no call is given it that would
release it, and what is read back or returned later is not it. -/
def keepRules : Discipline PlayerCall PlayerCall.Resp Kept where
  allowed q
    | .store f p => f.first = false → q.object ≠ some p
    | .gst g _ => ∀ k ∈ q.object, ¬ g.Releases k
    | _ => True
  granted q
    | .load f, p => f.first = false → q.object ≠ some p
    | .gst g _, r => ∀ k ∈ q.object, ¬ g.kind.IsPtr r k
    | _, _ => True
  next q
    | .gst g tested, r =>
        ⟨q.object.or (g.makes r), q.failed || (tested && decide (g.kind.Fails r)),
          q.succeeded || (tested && !decide (g.kind.Fails r))⟩
    | _, _ => q

/-! ### The world keeps its side -/

/-- What ties a state to the rule, in an execution from `σ₀`: what is kept did not exist
then. -/
structure KeptSince (σ₀ σ : Site) (q : Kept) : Prop where
  known : ∀ p, σ₀.ledger.Knows p → σ.ledger.Knows p
  new : ∀ k ∈ q.object, ¬ σ₀.ledger.Knows k ∧ k ≠ NULL
  keeps : ∀ k ∈ q.object, σ.ledger.Keeps k
  fields : ∀ k ∈ q.object, ∀ f : PtrField, f.first = false → σ.shared.player.ptr f ≠ k

section Honours

variable {σ₀ σ σ' : Site} {q : Kept} {t : Thread}

/-- The pointers of the player change by assignments only: no other call of the program moves one.
-/
theorem performPlayer_ptr {s s' : Shared} {c : PlayerCall} {r : c.Resp} {f : PtrField}
    (hc : ∀ p, c ≠ .store f p) (hs : s.performPlayer t c r = some s') :
    s'.player.ptr f = s.player.ptr f := by
  cases c with
  | store g p =>
      cases hs
      have hne : f ≠ g := fun h => hc p (h ▸ rfl)
      simp [Shared.setPtr, hne]
  | recMutex o m =>
      obtain ⟨m', -, rfl⟩ := Option.map_eq_some_iff.mp hs
      cases m <;> rfl
  | memsetMutex | memsetUri n | memcpyUri bytes | storeBusEventSourceId id | storePadLinked g b =>
      cases hs
      rfl
  | _ => grind [Shared.performPlayer]

theorem Site.Creates.makes {p k : Ptr} {l : Ledger} (h : σ.Creates .element p l)
    (hk : (if p = NULL then none else some p) = some k) : σ.Fresh k ∧ l.Keeps k := by
  obtain ⟨hp, hpk⟩ := Option.ite_none_left_eq_some.mp hk
  cases hpk
  rcases h with ⟨hnull, -⟩ | ⟨hfresh, rfl⟩
  · exact absurd hnull hp
  · exact ⟨hfresh, ⟨.element, 1, NULL⟩, by simp [Ledger.create], rfl, Nat.one_pos⟩

/-- What a constructor has made is an element that was not on the books and in no field, and that is
kept from then on. -/
theorem Site.Books.makes {g : GstCall} {r : g.kind.Val} {l : Ledger} {k : Ptr}
    (h : σ.Books g r l) (hk : g.makes r = some k) : σ.Fresh k ∧ l.Keeps k := by
  cases g
  case pipelineNew | binNew | elementFactoryMake => exact Creates.makes h hk
  all_goals cases hk

theorem KeptSince.gst (h : KeptSince σ₀ σ q) {g : GstCall} {tested : Bool} {r : g.kind.Val}
    (hallowed : keepRules.allowed q (.gst g tested)) (hshared : σ'.shared = σ.shared)
    (hbooks : σ.Books g r σ'.ledger) : KeptSince σ₀ σ' (keepRules.next q (.gst g tested) r) := by
  have hknown : ∀ p, σ₀.ledger.Knows p → σ'.ledger.Knows p :=
    fun p hp => hbooks.knows (h.known p hp)
  have hkeeps : ∀ k ∈ q.object, σ'.ledger.Keeps k :=
    fun k hk => hbooks.keeps (h.keeps k hk) (hallowed k hk)
  cases hobject : q.object with
  | some k₀ =>
      -- what is kept stays the same
      have hnext : (keepRules.next q (.gst g tested) r).object = q.object := by
        simp [keepRules, hobject]
      refine ⟨hknown, ?_, ?_, ?_⟩
      · rw [hnext]
        exact h.new
      · rw [hnext]
        exact hkeeps
      · rw [hnext, hshared]
        exact h.fields
  | none =>
      have hnext : (keepRules.next q (.gst g tested) r).object = g.makes r := by
        simp [keepRules, hobject]
      refine ⟨hknown, fun k hk => ?_, fun k hk => ?_, fun k hk f _ => ?_⟩
      all_goals
        rw [hnext] at hk
        obtain ⟨hfresh, hkeep⟩ := hbooks.makes hk
      · refine ⟨fun hknows => ?_, hfresh.1⟩
        have hnone := hfresh.2.1
        have hsome := h.known k hknows
        simp [Ledger.Knows, hnone] at hsome
      · exact hkeep
      · rw [hshared]
        exact hfresh.2.2 f

/-- A step that leaves the books alone, and stores what is kept in none of the later fields, keeps
the tie. -/
theorem KeptSince.frame (h : KeptSince σ₀ σ q) (hledger : σ'.ledger = σ.ledger)
    (hptr : ∀ f : PtrField, f.first = false → ∀ k ∈ q.object, σ'.shared.player.ptr f ≠ k) :
    KeptSince σ₀ σ' q where
  known := hledger ▸ h.known
  new := h.new
  keeps := hledger ▸ h.keeps
  fields k hk f hf := hptr f hf k hk

/-- **GStreamer keeps its side of the rule**: what it returns, and what is read back from a later
field, is never the element that is kept, and the tie holds after each call that the rule allows. -/
theorem honours_keepRules : keepRules.Honours (Site.Performs t) (KeptSince σ₀) := by
  rintro σ q c r σ' h hallowed ⟨hperform, hledger⟩
  have hsame (hc : ∀ f p, c ≠ .store f p) (f : PtrField) (hf : f.first = false) :
      ∀ k ∈ q.object, σ'.shared.player.ptr f ≠ k := by
    intro k hk
    rw [performPlayer_ptr (hc f) hperform]
    exact h.fields k hk f hf
  cases c with
  | gst g tested =>
      have hshared : σ'.shared = σ.shared := (Option.some.inj hperform).symm
      exact ⟨fun k hk => hledger.ne (h.new k hk).2 (h.keeps k hk), h.gst hallowed hshared hledger⟩
  | load f =>
      obtain ⟨rfl, -⟩ := Option.ite_none_right_eq_some.mp hperform
      exact ⟨fun hf hk => h.fields _ hk f hf rfl, h.frame hledger (hsame (by rintro _ _ ⟨⟩))⟩
  | store f p =>
      refine ⟨trivial, h.frame hledger ?_⟩
      intro g hg k hk
      rw [← Option.some.inj hperform]
      by_cases hgf : g = f
      · subst hgf
        rintro rfl
        simp only [Shared.setPtr, Function.update_self] at hk
        exact hallowed hg hk
      · simpa [Shared.setPtr, hgf] using h.fields k hk g hg
  | _ => exact ⟨trivial, h.frame hledger (hsame (by rintro _ _ ⟨⟩))⟩

end Honours

/-! ### `create_pipeline` follows the rule -/

section Walk

variable {b : Build} {p : Ptr}

/-- The pipeline is kept and no test has failed: where the function is after its first call. -/
def keeping (p : Ptr) : Kept := ⟨some p, false, true⟩

/-- The program returns `FALSE` as soon as a test fails, and `TRUE` if none does. -/
def Checks (p : Ptr) (prog : Action Bool) : Prop :=
  keepRules.wp (fun r q' => q' = { keeping p with failed := !r }) prog (keeping p)

theorem checks_true : Checks p (return true) := rfl

/-- **The rule of tests**: where two parts follow each other and the program returns `FALSE` after
the first if that has failed, the whole checks its tests if both parts do. -/
theorem Checks.seq {prog rest : Action Bool} (hprog : Checks p prog) (hrest : Checks p rest) :
    Checks p (do
      let r ← prog
      if r = false then
        return false
      rest) := by
  apply wp_seq hprog
  rintro r q' rfl
  cases r with
  | false => rfl
  | true => exact hrest

theorem checks_ifdef {symbol : Bool} {region : Action Bool} (h : Checks p region) :
    Checks p (ifdef symbol region) :=
  wp_ite (fun _ => h) fun _ => checks_true

theorem gives_load_keeps {f : PtrField} (hf : f.first = false) :
    keepRules.Gives (keeping p) (fun x => x ≠ p) (load f) :=
  ⟨trivial, fun _ hx => ⟨fun h => hx hf (h ▸ rfl), rfl⟩⟩

theorem returns_load_keeps {f : PtrField} : keepRules.Returns (keeping p) (load f) :=
  ⟨trivial, fun _ _ => ⟨trivial, rfl⟩⟩

theorem gives_loads_keeps {fs : List PtrField} (hfs : ∀ f ∈ fs, f.first = false) :
    keepRules.Gives (keeping p) (fun xs => p ∉ xs) (loads fs) := by
  induction fs with
  | nil => exact Gives.pure (List.not_mem_nil)
  | cons f fs ih =>
      obtain ⟨hf, hfs⟩ := List.forall_mem_cons.mp hfs
      refine (gives_load_keeps hf).seq fun x hx => (ih hfs).seq fun xs hxs => ⟨?_, rfl⟩
      exact List.not_mem_cons_of_ne_of_not_mem hx.symm hxs

/-- An assignment of anything but what is kept is allowed in every field, and changes nothing of the
rule. -/
theorem returns_store_keeps {f : PtrField} {x : Ptr} (hx : x ≠ p) {failed : Bool} :
    keepRules.Returns { keeping p with failed := failed } (store f x) :=
  ⟨fun _ h => hx (Option.some.inj h).symm, fun _ _ => ⟨trivial, rfl⟩⟩

theorem gives_untested_keeps {g : GstCall} (hg : ¬ g.Releases p) :
    keepRules.Gives (keeping p) (fun r => ¬ g.kind.IsPtr r p) (untested g) := by
  refine ⟨?_, fun r hr => ⟨hr p rfl, by simp [keepRules, keeping]⟩⟩
  rintro k ⟨⟩
  exact hg

theorem checks_untested {g : GstCall} {rest : g.kind.Val → Action Bool} (hg : ¬ g.Releases p)
    (hrest : ∀ r, ¬ g.kind.IsPtr r p → Checks p (rest r)) : Checks p (untested g >>= rest) :=
  (gives_untested_keeps hg).seq hrest

/-- A tested call that does not release what is kept: whether it has failed is all that is recorded
of it, and it returns something else than what is kept. -/
theorem wp_tested {α : Type} {post : α → Kept → Prop} {g : GstCall}
    {rest : g.kind.Val → Action α} (hg : ¬ g.Releases p)
    (hrest : ∀ r, ¬ g.kind.IsPtr r p →
      keepRules.wp post (rest r) { keeping p with failed := decide (g.kind.Fails r) }) :
    keepRules.wp post (tested g >>= rest) (keeping p) := by
  refine wp_bind.mpr ⟨?_, fun r hr => ?_⟩
  · rintro k ⟨⟩
    exact hg
  · have hnext : keepRules.next (keeping p) (.gst g true) r =
        { keeping p with failed := decide (g.kind.Fails r) } := by
      simp [keepRules, keeping]
    rw [hnext]
    exact hrest r (hr p rfl)

/-- This and the next two are calls that release nothing, and whose result says whether they have
failed. -/
theorem checks_elementLinkMany {elements : List Ptr} :
    Checks p (tested (.elementLinkMany elements)) :=
  ⟨fun _ _ => id, fun (linked : Bool) _ => by cases linked <;> rfl⟩

theorem checks_elementLink {src dest : Ptr} : Checks p (tested (.elementLink src dest)) :=
  ⟨fun _ _ => id, fun (linked : Bool) _ => by cases linked <;> rfl⟩

theorem checks_ghostPadSetTarget {ghostPad target : Ptr} :
    Checks p (tested (.ghostPadSetTarget ghostPad target)) :=
  ⟨fun _ _ => id, fun (targetSet : Bool) _ => by cases targetSet <;> rfl⟩

/-- An element that is made and tested: the program returns `FALSE` if there is none, and goes on
with one that is not what is kept. -/
theorem checks_make {factory : String} {name : Option String} {rest : Ptr → Action Bool}
    (hrest : ∀ x, x ≠ p → Checks p (rest x)) :
    Checks p (do
      let x : Ptr ← tested (.elementFactoryMake factory name)
      if x = NULL then
        return false
      rest x) := by
  refine wp_tested id fun (x : Ptr) hx => wp_ite (fun hnull => ?_) fun hnull => ?_
  · subst hnull
    rfl
  · have hok : decide (Kind.Fails .pointer x) = false := decide_eq_false hnull
    rw [hok]
    exact hrest x (Ne.symm hx)

/-- The elements every build has are made, tested and then stored in their field. -/
theorem checks_sinkElement {factory name : String} {f : PtrField} {rest : Ptr → Action Bool}
    (hrest : ∀ x, x ≠ p → Checks p (rest x)) :
    Checks p (do
      let x ← elementFactoryMake factory name
      if x = NULL then
        return false
      store f x
      rest x) :=
  checks_make fun x hx => (returns_store_keeps hx).seq fun _ _ => hrest x hx

/-- The subtitle elements are made, stored and only then tested, so a field may be set to `NULL`. -/
theorem checks_subtitleElement {factory name : String} {f : PtrField} {rest : Action Bool}
    (hrest : Checks p rest) :
    Checks p (do
      let x ← elementFactoryMake factory name
      store f x
      if x = NULL then
        return false
      rest) := by
  refine wp_tested id fun (x : Ptr) hx => (returns_store_keeps (Ne.symm hx)).seq fun _ _ => ?_
  refine wp_ite (fun hnull => ?_) fun hnull => ?_
  · subst hnull
    rfl
  · have hok : decide (Kind.Fails .pointer x) = false := decide_eq_false hnull
    rw [hok]
    exact hrest

theorem checks_createSourceElement2 : Checks p (createSourceElement2 b) := by
  unfold createSourceElement2
  refine returns_load_keeps.seq fun bin _ => checks_make fun source hsource => ?_
  refine checks_untested hsource.symm fun _ _ => ?_
  refine checks_untested id fun _ _ => checks_untested id fun _ _ => ?_
  refine checks_untested id fun pad hpad => checks_untested id fun ghostPad hghostPad => ?_
  refine checks_ghostPadSetTarget.seq ?_
  refine checks_untested hghostPad fun _ _ => checks_untested hpad fun _ _ => ?_
  refine wp_bind.mpr ⟨trivial, fun uri _ => ?_⟩
  exact checks_untested id fun _ _ => checks_true

theorem returns_createSinkElement1_keeps :
    keepRules.Gives (keeping p) (fun bin => bin ≠ p) createSinkElement1 := by
  unfold createSinkElement1
  refine (gives_untested_keeps id).seq fun (bin : Ptr) hbin => ?_
  refine (gives_untested_keeps id).seq fun (pad : Ptr) hpad => ?_
  refine Gives.seq (gives_untested_keeps ?_) fun _ _ => ⟨Ne.symm hbin, rfl⟩
  exact hpad

theorem checks_createSubtitleElements : Checks p createSubtitleElements := by
  unfold createSubtitleElements
  refine checks_subtitleElement (checks_subtitleElement (checks_subtitleElement ?_))
  exact checks_subtitleElement (checks_subtitleElement checks_true)

theorem returns_addSinkElements_keeps {bin : Ptr} {e : SinkElements} (hdemux : p ≠ e.demux)
    (he : p ∉ [e.videoDecoder, e.videoQueue, e.videoSink, e.audioDecoder, e.audioQueue,
      e.audioSink]) : keepRules.Returns (keeping p) (addSinkElements b bin e) := by
  unfold addSinkElements
  refine wp_ite (fun _ => ?_) fun _ => ?_
  · refine (gives_loads_keeps (by decide)).seq fun fields hfields => ?_
    refine Gives.returns (gives_untested_keeps ?_)
    exact List.not_mem_cons_of_ne_of_not_mem hdemux hfields
  · refine Gives.returns (gives_untested_keeps ?_)
    exact List.not_mem_cons_of_ne_of_not_mem hdemux he

theorem checks_linkVideo {e : SinkElements} : Checks p (linkVideo b e) := by
  unfold linkVideo
  refine wp_ite (fun _ => ?_) fun _ => checks_elementLinkMany
  exact (gives_loads_keeps (by decide)).seq fun fields _ => checks_elementLinkMany

theorem checks_linkAudio {e : SinkElements} : Checks p (linkAudio b e) := by
  unfold linkAudio
  refine wp_ite (fun _ => ?_) fun _ => checks_elementLinkMany
  exact (gives_loads_keeps (by decide)).seq fun fields _ => checks_elementLinkMany

theorem checks_linkSubtitle : Checks p linkSubtitle := by
  unfold linkSubtitle
  refine (gives_loads_keeps (by decide)).seq fun fields _ => checks_elementLinkMany.seq ?_
  exact returns_load_keeps.seq fun _ _ => checks_untested id fun _ _ => checks_true

theorem checks_createSinkElement2 : Checks p (createSinkElement2 b) := by
  unfold createSinkElement2
  refine returns_load_keeps.seq fun bin _ => checks_sinkElement fun demux hdemux => ?_
  refine checks_untested id fun _ _ => checks_sinkElement fun videoDecoder hvideoDecoder => ?_
  refine checks_sinkElement fun videoSink hvideoSink => returns_load_keeps.seq fun _ _ => ?_
  refine checks_untested id fun _ _ => (checks_ifdef checks_createSubtitleElements).seq ?_
  refine checks_sinkElement fun videoQueue hvideoQueue => ?_
  refine checks_sinkElement fun audioDecoder haudioDecoder => ?_
  refine checks_sinkElement fun audioSink haudioSink => returns_load_keeps.seq fun _ _ => ?_
  refine checks_untested id fun _ _ => checks_sinkElement fun audioQueue haudioQueue => ?_
  refine (returns_addSinkElements_keeps hdemux.symm (by simp [*, Ne.symm])).seq fun _ _ => ?_
  refine checks_linkVideo.seq (checks_linkAudio.seq ((checks_ifdef checks_linkSubtitle).seq ?_))
  refine checks_untested id fun pad hpad => checks_untested id fun ghostPad hghostPad => ?_
  refine checks_ghostPadSetTarget.seq ?_
  exact checks_untested hghostPad fun _ _ => checks_untested hpad fun _ _ => checks_true

theorem checks_addsink : Checks p addsink := by
  unfold addsink
  refine returns_load_keeps.seq fun mPipeline _ => (gives_load_keeps rfl).seq fun mSink hsink => ?_
  refine returns_load_keeps.seq fun mTee _ => checks_make fun mQueue hqueue => ?_
  refine (returns_store_keeps hqueue).seq fun _ _ => checks_untested hqueue.symm fun _ _ => ?_
  refine checks_untested id fun _ _ => checks_untested hsink.symm fun _ _ => ?_
  refine checks_untested id fun _ _ => checks_untested id fun _ _ => ?_
  exact checks_untested id fun _ _ => checks_true

/-- An object that is made: the first one is kept, and those that come later are not looked at. -/
def Kept.made (q : Kept) (x : Ptr) : Kept :=
  ⟨q.object.or (if x = NULL then none else some x), q.failed || decide (x = NULL),
    q.succeeded || !decide (x = NULL)⟩

theorem Kept.made_of_ne {q : Kept} {x : Ptr} (hx : x ≠ NULL) :
    q.made x = ⟨q.object.or (some x), q.failed, true⟩ := by
  simp [Kept.made, hx]

theorem Kept.made_null {q : Kept} : q.made NULL = { q with failed := true } := by
  simp [Kept.made]

/-- If something is kept once a test has succeeded, it still is so after one more object was asked
for. -/
theorem Kept.isSome_made {q : Kept} (h : q.succeeded = true → q.object.isSome = true) (x : Ptr) :
    (q.made x).succeeded = true → (q.made x).object.isSome = true := by
  by_cases hx : x = NULL
  · subst hx
    simpa [Kept.made_null] using h
  · simp [Kept.made_of_ne hx]

/-- A call that is not tested and makes no element changes nothing of what is recorded. -/
theorem next_untested {q : Kept} {g : GstCall} {r : g.kind.Val} (h : g.makes r = none) :
    keepRules.next q (.gst g false) r = q := by
  simp [keepRules, h]

/-- `create_source_element_1` makes the bin, which is tested, and gives it a pad that is no element;
the bin is not what was kept before. -/
theorem wp_createSourceElement1_keeps {q : Kept} :
    keepRules.wp (fun bin q' => q' = q.made bin ∧ ∀ k ∈ q.object, k ≠ bin)
      createSourceElement1 q := by
  unfold createSourceElement1
  refine wp_bind.mpr ⟨fun _ _ => id, fun (bin : Ptr) hbin => ?_⟩
  refine wp_ite (fun hnull => ⟨by subst hnull; rfl, ?_⟩) fun hnull => ?_
  · subst hnull
    exact hbin
  · refine wp_bind.mpr ⟨fun _ _ => id, fun (pad : Ptr) hpad => ?_⟩
    rw [next_untested rfl] at *
    exact ⟨hpad, fun _ _ => ⟨next_untested rfl, hbin⟩⟩

/-- **`create_pipeline` follows the rule**: its result says whether a test has failed, and
something is kept if one has succeeded. -/
theorem wp_createPipelineBody_keeps :
    keepRules.wp (fun r q' => q'.failed = !r ∧ (q'.succeeded = true → q'.object.isSome = true))
      (createPipelineBody b) ⟨none, false, false⟩ := by
  unfold createPipelineBody
  refine wp_bind.mpr ⟨trivial, fun _ _ => wp_bind.mpr ⟨trivial, fun _ _ => ?_⟩⟩
  refine wp_bind.mpr ⟨nofun, fun (mPipeline : Ptr) _ => ?_⟩
  refine wp_bind.mpr ⟨nofun, fun _ _ => ?_⟩
  show keepRules.wp _ _ (Kept.made ⟨none, false, false⟩ mPipeline)
  refine wp_seq wp_createSourceElement1_keeps ?_
  rintro mSource _ ⟨rfl, hmSource⟩
  refine wp_bind.mpr ⟨nofun, fun _ _ => ?_⟩
  refine wp_bind.mpr ⟨fun _ _ => id, fun (mTee : Ptr) hmTee => ?_⟩
  refine wp_bind.mpr ⟨nofun, fun _ _ => ?_⟩
  show keepRules.wp _ _ (((Kept.made ⟨none, false, false⟩ mPipeline).made mSource).made mTee)
  refine wp_ite (fun hnull => ⟨?_, ?_⟩) fun hnull => ?_
  · rcases hnull with rfl | rfl | rfl <;> simp [Kept.made]
  · exact Kept.isSome_made (Kept.isSome_made (Kept.isSome_made (by simp) _) _) _
  · -- from here on it is the pipeline that is kept
    obtain ⟨hpipeline, hsource, htee⟩ := by simpa only [not_or] using hnull
    have hmade := Kept.made_of_ne (q := ⟨none, false, false⟩) hpipeline
    have hmSource' : mPipeline ≠ mSource := hmSource mPipeline (by rw [hmade]; rfl)
    have hmTee' : mPipeline ≠ mTee := by
      apply hmTee mPipeline
      show mPipeline ∈ ((Kept.made _ mPipeline).made mSource).object
      rw [hmade, Kept.made_of_ne hsource]
      rfl
    rw [hmade, Kept.made_of_ne hsource, Kept.made_of_ne htee]
    have hpost (r : Bool) (q' : Kept) (hq' : q' = { keeping mPipeline with failed := !r }) :
        q'.failed = !r ∧ (q'.succeeded = true → q'.object.isSome = true) := by
      subst hq'
      exact ⟨rfl, fun _ => rfl⟩
    refine wp_mono hpost (?_ : Checks mPipeline _)
    refine checks_untested ?_ fun _ _ => checks_elementLink.seq ?_
    · exact List.not_mem_cons_of_ne_of_not_mem hmSource' (by simpa using hmTee')
    refine checks_untested id fun (bus : Ptr) hbus => checks_untested id fun (id : ℕ) _ => ?_
    refine wp_bind.mpr ⟨trivial, fun _ _ => checks_untested hbus fun _ _ => ?_⟩
    refine checks_createSourceElement2.seq ?_
    refine returns_createSinkElement1_keeps.seq fun mSink hmSink => ?_
    refine (returns_store_keeps hmSink).seq fun _ _ => ?_
    refine checks_createSinkElement2.seq (checks_addsink.seq ?_)
    exact wp_bind.mpr ⟨trivial, fun _ _ => checks_true⟩

end Walk

/-! ### When nothing can be obtained -/

section Nothing

variable {b : Build} {t : Thread} {σ σ' : Site} {tr : Trace PlayerCall PlayerCall.Resp}
  {result : Bool}

/-- The books and the pipeline fields are the same, so what holds of one site holds of the other. -/
def SameBooks (σ σ' : Site) : Prop :=
  σ'.ledger = σ.ledger ∧ SamePipeline σ'.shared.player σ.shared.player

theorem SameBooks.trans {σ₁ σ₂ : Site} (h : SameBooks σ σ₁) (h' : SameBooks σ₁ σ₂) :
    SameBooks σ σ₂ :=
  ⟨h'.1.trans h.1, fun f hf => (h'.2.ptr f hf).trans (h.2.ptr f hf),
    h'.2.busEventSourceId.trans h.2.busEventSourceId,
    fun f => (h'.2.padLinked f).trans (h.2.padLinked f)⟩

theorem performs_mMutex {o : MutexOp} {r : Unit}
    (h : Site.Performs t σ (.recMutex o .mMutex) r σ') : SameBooks σ σ' := by
  obtain ⟨hs, hl⟩ := h
  obtain ⟨m, -, hm⟩ := Option.map_eq_some_iff.mp hs
  refine ⟨hl, ?_⟩
  rw [← hm]
  exact ⟨fun _ _ => rfl, rfl, fun _ => rfl⟩

theorem performs_store {f : PtrField} {p : Ptr} {r : Unit}
    (h : Site.Performs t σ (.store f p) r σ') : σ' = ⟨σ.shared.setPtr f p, σ.ledger⟩ := by
  obtain ⟨hs, hl⟩ := h
  cases σ'
  cases hs
  cases hl
  rfl

/-- A call of GStreamer that leaves the books as they are leaves everything as it is; a constructor
that is refused is one. -/
theorem performs_refused {g : GstCall} {r : g.kind.Val} {tested : Bool}
    (h : Site.Performs t σ (.gst g tested) r σ')
    (hrefused : ∀ l, σ.Books g r l → l = σ.ledger) : σ' = σ := by
  obtain ⟨hs, hl⟩ := h
  have hledger := hrefused _ hl
  cases σ'
  cases hs
  cases hledger
  rfl

theorem Site.Creates.of_null {l : Ledger} (h : σ.Creates .element NULL l) : l = σ.ledger := by
  rcases h with ⟨-, hl⟩ | ⟨hfresh, -⟩
  · exact hl
  · exact absurd rfl hfresh.1

/-- If no test of an execution succeeds, then the one that comes first has failed, and none after it
succeeds. -/
theorem fails_of_outcomes {g : GstCall} {r : g.kind.Val}
    (h : true ∉ outcomes (⟨.gst g true, r⟩ :: tr)) : g.kind.Fails r ∧ true ∉ outcomes tr := by
  rw [outcomes_tested, List.mem_cons, not_or] at h
  exact ⟨by simpa using h.1, h.2⟩

/-- The three assignments of a call that got nothing: all of them store `NULL`. -/
def Shared.refused (s : Shared) : Shared :=
  ((s.setPtr .mPipeline NULL).setPtr .mSource NULL).setPtr .mTee NULL

theorem refused_ptr (s : Shared) (f : PtrField) :
    s.refused.player.ptr f = if f.first = true then NULL else s.player.ptr f := by
  cases f <;> simp [Shared.refused, Shared.setPtr, PtrField.first]

/-- With every test failing, nothing comes of `create_pipeline` but three assignments. -/
theorem nothing_obtained (h : Exec (Site.Performs t) σ (createPipelineBody b) tr result σ')
    (hout : true ∉ outcomes tr) :
    result = false ∧ ∃ σ₂, SameBooks σ σ₂ ∧
      σ' = ⟨σ₂.shared.refused, σ₂.ledger⟩ := by
  obtain ⟨_, σ₁, tr₁, hinit, h₁, rfl⟩ := Exec.of_call h
  obtain ⟨_, σ₂, tr₂, hlock, h₂, rfl⟩ := Exec.of_call h₁
  obtain ⟨mPipeline, σ₃, tr₃, hpipeline, h₃, rfl⟩ := Exec.of_call h₂
  obtain ⟨rfl, hout₁⟩ : mPipeline = NULL ∧ _ := fails_of_outcomes hout
  obtain ⟨_, σ₄, tr₄, hstore₁, h₄, rfl⟩ := Exec.of_call h₃
  obtain ⟨mSource, σ₅, tr₅, hsource, h₅, rfl⟩ := Exec.of_call h₄
  rw [outcomes_store] at hout₁
  obtain ⟨rfl, hout₂⟩ : mSource = NULL ∧ _ := fails_of_outcomes hout₁
  obtain ⟨_, σ₆, tr₆, hstore₂, h₆, rfl⟩ := Exec.of_call h₅
  obtain ⟨mTee, σ₇, tr₇, htee, h₇, rfl⟩ := Exec.of_call h₆
  rw [outcomes_store] at hout₂
  obtain ⟨rfl, -⟩ : mTee = NULL ∧ _ := fails_of_outcomes hout₂
  obtain ⟨_, σ₈, tr₈, hstore₃, h₈, rfl⟩ := Exec.of_call h₇
  obtain ⟨hresult, rfl, rfl⟩ := Exec.of_pure h₈
  have hσ₃ := performs_refused hpipeline fun _ => Site.Creates.of_null
  have hσ₄ := performs_store hstore₁
  have hσ₅ := performs_refused hsource fun _ => Site.Creates.of_null
  have hσ₆ := performs_store hstore₂
  have hσ₇ := performs_refused htee fun _ => Site.Creates.of_null
  have hσ₈ := performs_store hstore₃
  refine ⟨hresult, σ₂, (performs_mMutex hinit).trans (performs_mMutex hlock), ?_⟩
  rw [hσ₈, hσ₇, hσ₆, hσ₅, hσ₄, hσ₃]
  rfl

/-- What the rule has recorded at the end of an execution is whether some test has failed and
whether some test has succeeded, besides what was recorded before. -/
theorem after_keepRules (q : Kept) (tr : Trace PlayerCall PlayerCall.Resp) :
    (keepRules.after q tr).failed = (q.failed || decide (false ∈ outcomes tr)) ∧
      (keepRules.after q tr).succeeded = (q.succeeded || decide (true ∈ outcomes tr)) := by
  induction tr generalizing q with
  | nil => simp [Discipline.after, outcomes]
  | cons x tr ih =>
      obtain ⟨c, r⟩ := x
      rw [Discipline.after, (ih _).1, (ih _).2]
      cases c with
      | gst g tested =>
          have hfailed : (keepRules.next q (.gst g tested) r).failed =
              (q.failed || (tested && decide (g.kind.Fails r))) := rfl
          have hsucceeded : (keepRules.next q (.gst g tested) r).succeeded =
              (q.succeeded || (tested && !decide (g.kind.Fails r))) := rfl
          rw [hfailed, hsucceeded]
          cases tested with
          | false =>
              rw [outcomes_untested]
              simp
          | true =>
              rw [outcomes_tested]
              cases decide (g.kind.Fails r) <;> simp
      | _ => exact ⟨rfl, rfl⟩

/-- In any execution: the result says whether a test has failed, and something is kept once
one has succeeded. -/
theorem createPipeline_keeps (h : Exec (Site.Performs t) σ (createPipelineBody b) tr result σ') :
    (false ∈ outcomes tr ↔ result = false) ∧
      (true ∈ outcomes tr → ∃ k, ¬ σ.ledger.Knows k ∧ σ'.ledger.Keeps k) := by
  have hstart : KeptSince σ σ ⟨none, false, false⟩ :=
    ⟨fun _ h => h, nofun, nofun, nofun⟩
  obtain ⟨⟨hfailed, hkept⟩, hsince⟩ := sound honours_keepRules h wp_createPipelineBody_keeps hstart
  obtain ⟨hfalse, htrue⟩ := after_keepRules ⟨none, false, false⟩ tr
  rw [hfalse] at hfailed
  rw [htrue] at hkept
  constructor
  · cases result <;> simpa using hfailed
  · intro hsucceeded
    obtain ⟨k, hk⟩ := Option.isSome_iff_exists.mp (hkept (by simpa using hsucceeded))
    exact ⟨k, (hsince.new k hk).1, hsince.keeps k hk⟩

/-- **A failed `create_pipeline` leaves nothing behind exactly if nothing could be obtained
at all**: for every build, state and combination of outcomes, what `FALSE` promises holds
if and only if no test failed, or every test did and the three fields were `NULL`. -/
theorem failed_create_leaves_nothing_iff
    (h : Exec (Site.Performs t) σ (createPipelineBody b) tr result σ') :
    (result = false → LeavesNothing σ σ') ↔
      false ∉ outcomes tr ∨
        true ∉ outcomes tr ∧ ∀ f : PtrField, f.first = true → σ.shared.player.ptr f = NULL := by
  obtain ⟨hresult, hkept⟩ := createPipeline_keeps h
  constructor
  · intro hclean
    by_cases hfailed : false ∈ outcomes tr
    · have hleaves := hclean (hresult.mp hfailed)
      have hrefused : true ∉ outcomes tr := by
        intro hsucceeded
        obtain ⟨k, hnew, hkeeps⟩ := hkept hsucceeded
        exact hleaves.not_keeps hnew hkeeps
      obtain ⟨-, σ₂, -, hσ'⟩ := nothing_obtained h hrefused
      refine .inr ⟨hrefused, ?_⟩
      intro f hf
      have hof : (PipelineField.ptr f).ofPipeline = true := by
        cases f <;> first | rfl | cases hf
      rw [← hleaves.pipeline.ptr f hof, hσ', refused_ptr, if_pos hf]
    · exact .inl hfailed
  · rintro (hok | ⟨hrefused, hnull⟩) hfalse
    · exact absurd (hresult.mpr hfalse) hok
    · obtain ⟨-, σ₂, ⟨hledger, hsame⟩, rfl⟩ := nothing_obtained h hrefused
      refine ⟨fun p hp => ?_, fun p => ?_, ?_, ⟨fun f hf => ?_, ?_, ?_⟩⟩
      · exact hledger ▸ hp
      · exact hledger ▸ Nat.le_refl _
      · exact hledger ▸ List.Subset.refl _
      · rw [refused_ptr]
        split
        · exact (hnull f ‹_›).symm
        · exact hsame.ptr f hf
      · exact hsame.busEventSourceId
      · exact hsame.padLinked

end Nothing

/-! ### Two first calls that fail -/

section Runs

variable {α : Type} {σ σ' : Site} {s : Shared} {l : Ledger} {t : Thread} {a : α}
  {tr : Trace PlayerCall PlayerCall.Resp}

/-- An execution that begins with a call of the program itself, which leaves the books alone. -/
theorem exec_own {c : PlayerCall} (r : c.Resp) {k : c.Resp → Action α}
    (hstep : Site.Performs t σ c r ⟨s, σ.ledger⟩)
    (h : Exec (Site.Performs t) ⟨s, σ.ledger⟩ (k r) tr a σ') :
    Exec (Site.Performs t) σ (.call c k) (⟨c, r⟩ :: tr) a σ' :=
  .call hstep h

/-- An execution that begins with a call of GStreamer, which leaves the shared state alone and the
books as `Books` says. -/
theorem exec_gst {g : GstCall} {tested : Bool} {r : g.kind.Val}
    {k : g.kind.Val → Action α} (hbooks : σ.Books g r l)
    (h : Exec (Site.Performs t) ⟨σ.shared, l⟩ (k r) tr a σ') :
    Exec (Site.Performs t) σ (.call (.gst g tested) k) (⟨.gst g tested, r⟩ :: tr) a σ' :=
  .call (t := ⟨σ.shared, l⟩) ⟨rfl, hbooks⟩ h

end Runs

/-- A first `create_pipeline` to which GStreamer refuses all it asks for. -/
theorem all_refused : ∃ σ' tr, Exec (Site.Performs .main) .initial
    (createPipelineBody subtitleBuild) tr false σ' ∧ outcomes tr = [false, false, false] :=
  ⟨_, _, exec_own () ⟨rfl, rfl⟩ <| exec_own () ⟨rfl, rfl⟩ <|
    exec_gst (r := NULL) (by exact .inl ⟨rfl, rfl⟩) <| exec_own () ⟨rfl, rfl⟩ <|
    exec_gst (r := NULL) (by exact .inl ⟨rfl, rfl⟩) <| exec_own () ⟨rfl, rfl⟩ <|
    exec_gst (r := NULL) (by exact .inl ⟨rfl, rfl⟩) <|
    exec_own () ⟨rfl, rfl⟩ (by exact .pure), by rfl⟩

/-- What `failed_create_leaves_nothing_iff` says of that call: every test has failed and the three
fields were `NULL`, so nothing is left behind. -/
theorem all_refused_leaves_nothing : ∃ σ' tr, Exec (Site.Performs .main) .initial
    (createPipelineBody subtitleBuild) tr false σ' ∧ LeavesNothing .initial σ' := by
  obtain ⟨σ', tr, hexec, hout⟩ := all_refused
  refine ⟨σ', tr, hexec, (failed_create_leaves_nothing_iff hexec).mpr (.inr ?_) rfl⟩
  exact ⟨by simp [hout], fun f _ => rfl⟩

/-- A first `create_pipeline` that gets a pipeline but no source bin and no tee. -/
theorem tee_refused : ∃ σ' tr, Exec (Site.Performs .main) .initial
    (createPipelineBody subtitleBuild) tr false σ' ∧ outcomes tr = [true, false, false] :=
  ⟨_, _, exec_own () ⟨rfl, rfl⟩ <| exec_own () ⟨rfl, rfl⟩ <|
    exec_gst (r := Ptr.obj 1) (by exact .inr ⟨⟨nofun, rfl, fun _ => nofun⟩, rfl⟩) <|
    exec_own () ⟨rfl, rfl⟩ <|
    exec_gst (r := NULL) (by exact .inl ⟨rfl, rfl⟩) <| exec_own () ⟨rfl, rfl⟩ <|
    exec_gst (r := NULL) (by exact .inl ⟨rfl, rfl⟩) <|
    exec_own () ⟨rfl, rfl⟩ (by exact .pure), by rfl⟩

/-- The call returns `FALSE`, and the pipeline it has made stays: nobody gives the reference back.
-/
theorem failed_create_leaves_pipeline : ∃ σ' tr, Exec (Site.Performs .main) .initial
    (createPipelineBody subtitleBuild) tr false σ' ∧ ¬ LeavesNothing .initial σ' := by
  obtain ⟨σ', tr, hexec, hout⟩ := tee_refused
  refine ⟨σ', tr, hexec, ?_⟩
  intro hleaves
  obtain ⟨k, hnew, hkeeps⟩ := (createPipeline_keeps hexec).2 (by simp [hout])
  exact hleaves.not_keeps hnew hkeeps

end LeipoCode.Player
