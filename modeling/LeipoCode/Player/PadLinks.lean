import LeipoCode.Player.Rounds

/-!
# One link for each medium

Between a `create_pipeline` and the `destroy_pipeline` that takes the pipeline down again the
demultiplexer announces its pads, and `onDemuxSrcPadAdded` links the first of each medium.

* `linkAttempts` — the calls of `gst_pad_link` in an execution, each with the field of the
  element whose sink pad it was made for, and whether it succeeded;
* `exec_onDemuxSrcPadAdded_iff` — what one callback does, by the calls it makes;
* `sessions` — the operations on the pipeline with all their outcomes, and the attempts since
  the pipeline was created;
* `Session.Linked` — **the flags tell which links have succeeded**, in every state.

Which element a link was made for is not something `gst_pad_link` is told: it gets a pad, and the
pad came from an element that came from a field.  `Lookup` follows this along the trace, so that an
attempt is for a medium if the pad was looked up last at the element that was read from the field of
this medium.  The flags are part of the state the threads share, and the attempts are what the
sessions remember beside it; `Session.Linked` ties the two.

An attempt that fails leaves the flag at `FALSE`, and the next pad of the medium is tried; one that
succeeds makes it `TRUE`, and further pads of the medium are left alone until the pipeline is
destroyed.

### How it goes

A callback is a short program with few branches, so its executions can be listed:
`exec_linkMedium_iff` has the three that the branch of a medium may take, and
`exec_onDemuxSrcPadAdded_iff` all of those of the callback, each with its calls and the state it
leaves.  What is said of a callback afterwards, which attempts it makes and what becomes of the
flag, is read off these lists, and the references to pads are counted on them too.

That nothing else sets a flag while there is a pipeline is a walk through the programs of the
operations (`padLinked_of_calls`); `create_pipeline` itself sets none, and `destroy_pipeline` puts
all of them to `FALSE` if it gets to its end.  If it does not, it has left the flags alone, and the
pipeline counts as being there still.  The step lemma then has one case for each operation with each
of its results.
-/

namespace LeipoCode.Player

open Prog Discipline

/-! ### Links that were tried -/

/-- What is known of the pad that was looked up last: the field the element came from, and
the pad. -/
structure Lookup where
  element : Option (PtrField × Ptr)
  sinkPad : Option (PtrField × Ptr)

namespace Lookup

/-- At the entry of the callback, when no field has been read and no pad looked up. -/
def none : Lookup := ⟨.none, .none⟩

/-- The pad an element has under the name `sink`, if the element came from a field. -/
def found (l : Lookup) (element : Ptr) (name : String) (pad : Ptr) : Option (PtrField × Ptr) :=
  match l.element with
  | some (f, p) => if p = element ∧ name = "sink" then some (f, pad) else .none
  | .none => .none

/-- A call that reads a field or looks a pad up; every other call leaves what is known as it is. -/
def next (l : Lookup) : (c : PadCall) → c.Resp → Lookup
  | .player (.load f), p => ⟨some (f, p), l.sinkPad⟩
  | .player (.gst (.elementGetStaticPad element name) _), pad =>
      ⟨l.element, l.found element name pad⟩
  | _, _ => l

/-- The field whose element the pad is the sink pad of, if the pad is the one that was looked up
last. -/
def field (l : Lookup) (sink : Ptr) : Option PtrField :=
  match l.sinkPad with
  | some (f, pad) => if pad = sink then some f else .none
  | .none => .none

end Lookup

/-- An attempt to link the new pad: the field of the element whose sink pad it is linked to,
if it is one, and whether it succeeded. -/
abbrev Attempt : Type := Option PtrField × Bool

/-- The attempts in an execution of the callback, in order, each with what was known of its sink pad
when it was made. -/
def linkAttempts (l : Lookup) : Trace PadCall PadCall.Resp → List Attempt
  | [] => []
  | ⟨.padLink _ sink, successful⟩ :: tr => (l.field sink, successful) :: linkAttempts l tr
  | ⟨c, r⟩ :: tr => linkAttempts (l.next c r) tr

/-! ### One callback -/

/-- The element whose sink pad is linked, for each flag: no two flags have one element, in either
build. -/
def Build.sinkElement (b : Build) : LinkedField → PtrField
  | .video => b.videoElement
  | .audio => b.audioElement
  | .ttx => .subtDmxQueue

/-- The flag of the medium that caps of this name stand for, by the tests of the callback in their
order; subtitles only in a build that has them. -/
def Build.medium (b : Build) (name : List Char) : Option LinkedField :=
  if strstr name "video/" = true then some .video
  else if strstr name "audio/" = true then some .audio
  else if b.subtitleTeltextSupport = true ∧
      (strstr name "subpicture/" = true ∨ strstr name "teletext" = true) then some .ttx
  else none

theorem Build.sinkElement_injective (b : Build) : Function.Injective b.sinkElement := by
  intro m m' h
  unfold Build.sinkElement Build.videoElement Build.audioElement at h
  cases m <;> cases m' <;> cases hb : b.subtitleTeltextSupport <;> simp_all

/-- The name of the caps in an execution of the callback, which asks for it once. -/
def capsName : Trace PadCall PadCall.Resp → Option (List Char)
  | [] => none
  | ⟨.structureGetName _, name⟩ :: _ => some name
  | _ :: tr => capsName tr

/-- What a callback does for a pad of a medium: nothing if the medium is linked; else one
attempt, after which the flag tells whether it succeeded. -/
inductive LinksOnce (b : Build) (m : LinkedField) (s : Shared) (attempts : List Attempt)
    (s' : Shared) : Prop
  | already : s.player.padLinked m = true → attempts = [] →
      s'.player.padLinked = s.player.padLinked → LinksOnce b m s attempts s'
  | tried (successful : Bool) : s.player.padLinked m = false →
      attempts = [(some (b.sinkElement m), successful)] →
      s'.player.padLinked = Function.update s.player.padLinked m successful →
      LinksOnce b m s attempts s'

/-- What a callback does for a pad whose caps have this name: what `LinksOnce` says for the medium,
or nothing for a name that is none. -/
def AddsPad (b : Build) (name : List Char) (s : Shared) (attempts : List Attempt)
    (s' : Shared) : Prop :=
  match b.medium name with
  | some m => LinksOnce b m s attempts s'
  | none => attempts = [] ∧ s'.player.padLinked = s.player.padLinked

/-- A flag that is not set stays what it is if the link fails, which stores nothing. -/
theorem update_false {flags : LinkedField → Bool} {m : LinkedField} (h : flags m = false) :
    Function.update flags m false = flags := by
  rw [← h]
  exact Function.update_eq_self m flags

/-- The state in which the flag of a medium has been set, as the branch does after a link that has
succeeded. -/
def Shared.link (s : Shared) (m : LinkedField) : Shared :=
  { s with player := { s.player with padLinked := Function.update s.player.padLinked m true } }

/-- The calls the branch of a medium starts with: the element, its sink pad with a reference to it,
and the flag. -/
def lookup (element : Ptr) (f : PtrField) (sinkPad : Ptr) (m : LinkedField)
    (alreadyLinked : Bool) : Trace PadCall PadCall.Resp :=
  [⟨.player (.load f), element⟩,
    ⟨.player (.gst (.elementGetStaticPad element "sink") false), sinkPad⟩,
    ⟨.loadPadLinked m, alreadyLinked⟩]

/-- The executions of the branch of a medium, by the sink pad that is found: the medium is linked
already, the link fails, or it succeeds.  Only in the first of them the pad is not given back. -/
inductive MediumExec (s : Shared) (f : PtrField) (m : LinkedField) (pad sinkPad : Ptr) :
    Trace PadCall PadCall.Resp → Shared → Prop
  | already : s.player.padLinked m = true →
      MediumExec s f m pad sinkPad (lookup (s.player.ptr f) f sinkPad m true) s
  | failed : s.player.padLinked m = false →
      MediumExec s f m pad sinkPad (lookup (s.player.ptr f) f sinkPad m false ++
        [⟨.padLink pad sinkPad, false⟩, ⟨.player (.gst (.objectUnref sinkPad) false), ()⟩]) s
  | linked : s.player.padLinked m = false →
      MediumExec s f m pad sinkPad (lookup (s.player.ptr f) f sinkPad m false ++
        [⟨.padLink pad sinkPad, true⟩, ⟨.player (.storePadLinked m true), ()⟩,
          ⟨.player (.gst (.objectUnref sinkPad) false), ()⟩]) (s.link m)

/-- The calls the callback starts with: it asks for the name of the caps, and gives the caps back.
-/
def askCaps (pad caps capsStructure : Ptr) (name : List Char) : Trace PadCall PadCall.Resp :=
  [⟨.padGetCaps pad, caps⟩, ⟨.capsGetStructure caps 0, capsStructure⟩,
    ⟨.structureGetName capsStructure, name⟩, ⟨.capsUnref caps, ()⟩]

section Callback

variable {b : Build} {t : Thread} {s s' : Shared} {pad : Ptr} {l : Lookup}
  {tr : Trace PadCall PadCall.Resp}

/-- **The branch of a medium**: its executions are those of `MediumExec`, for any sink pad that the
element may have. -/
theorem exec_linkMedium_iff {f : PtrField} {m : LinkedField} :
    Exec (Shared.PerformsPad t) s (linkMedium f m pad) tr () s' ↔
      ∃ sinkPad, MediumExec s f m pad sinkPad tr s' := by
  constructor
  · intro h
    unfold linkMedium at h
    obtain ⟨element, s₁, tr₁, hload, h₁, rfl⟩ := h.of_call
    obtain ⟨sinkPad, s₂, tr₂, hfind, h₂, rfl⟩ := h₁.of_call
    obtain ⟨alreadyLinked, s₃, tr₃, hflag, h₃, rfl⟩ := h₂.of_call
    obtain ⟨rfl, hs₁⟩ := Option.ite_none_right_eq_some.mp hload
    cases hs₁
    cases hfind
    obtain ⟨halready, hs₃⟩ := Option.ite_none_right_eq_some.mp hflag
    cases hs₃
    refine ⟨sinkPad, ?_⟩
    cases alreadyLinked with
    | true =>
        obtain ⟨-, rfl, rfl⟩ := Exec.of_pure h₃
        exact .already halready.symm
    | false =>
        obtain ⟨successful, s₄, tr₄, hlink, h₄, rfl⟩ := h₃.of_call
        cases hlink
        cases successful with
        | true =>
            obtain ⟨_, s₅, tr₅, hstore, h₅, rfl⟩ := h₄.of_call
            obtain ⟨_, s₆, tr₆, hunref, h₆, rfl⟩ := h₅.of_call
            obtain ⟨-, rfl, rfl⟩ := Exec.of_pure h₆
            cases hstore
            cases hunref
            exact .linked halready.symm
        | false =>
            obtain ⟨_, s₆, tr₆, hunref, h₆, rfl⟩ := h₄.of_call
            obtain ⟨-, rfl, rfl⟩ := Exec.of_pure h₆
            cases hunref
            exact .failed halready.symm
  · rintro ⟨sinkPad, h⟩
    have hload : s.PerformsPad t (.player (.load f)) (s.player.ptr f) s := if_pos rfl
    unfold linkMedium
    cases h with
    | already halready =>
        apply Exec.call hload
        apply Exec.call (t := s) rfl
        apply Exec.call (if_pos halready.symm)
        exact .pure
    | failed hfree =>
        apply Exec.call hload
        apply Exec.call (t := s) rfl
        apply Exec.call (if_pos hfree.symm)
        apply Exec.call (t := s) rfl
        apply Exec.call (t := s) rfl
        exact .pure
    | linked hfree =>
        apply Exec.call hload
        apply Exec.call (t := s) rfl
        apply Exec.call (if_pos hfree.symm)
        apply Exec.call (t := s) rfl
        apply Exec.call (t := s.link m) rfl
        apply Exec.call (t := s.link m) rfl
        exact .pure

/-- **The callback**, for a pad of any caps: it asks for their name, and then goes through the
branch of the medium the name stands for, or does nothing more. -/
theorem exec_onDemuxSrcPadAdded_iff :
    Exec (Shared.PerformsPad t) s (onDemuxSrcPadAdded b pad) tr () s' ↔
      ∃ caps capsStructure name tr', tr = askCaps pad caps capsStructure name ++ tr' ∧
        match b.medium name with
        | some m => ∃ sinkPad, MediumExec s (b.sinkElement m) m pad sinkPad tr' s'
        | none => tr' = [] ∧ s' = s := by
  -- what the chain of tests selects
  have hbranch : ∀ name tr', Exec (Shared.PerformsPad t) s
      (if strstr name "video/" = true then linkMedium b.videoElement .video pad
        else if strstr name "audio/" = true then linkMedium b.audioElement .audio pad
        else if b.subtitleTeltextSupport = true ∧
            (strstr name "subpicture/" = true ∨ strstr name "teletext" = true) then
          linkMedium .subtDmxQueue .ttx pad
        else return ()) tr' () s' ↔
      match b.medium name with
      | some m => ∃ sinkPad, MediumExec s (b.sinkElement m) m pad sinkPad tr' s'
      | none => tr' = [] ∧ s' = s := by
    intro name tr'
    unfold Build.medium
    split_ifs
    · exact exec_linkMedium_iff
    · exact exec_linkMedium_iff
    · exact exec_linkMedium_iff
    · constructor
      · intro h
        obtain ⟨-, rfl, rfl⟩ := Exec.of_pure h
        exact ⟨rfl, rfl⟩
      · rintro ⟨rfl, rfl⟩
        exact .pure
  constructor
  · intro h
    unfold onDemuxSrcPadAdded at h
    obtain ⟨caps, s₁, tr₁, hcaps, h₁, rfl⟩ := h.of_call
    obtain ⟨capsStructure, s₂, tr₂, hstructure, h₂, rfl⟩ := h₁.of_call
    obtain ⟨name, s₃, tr₃, hname, h₃, rfl⟩ := h₂.of_call
    obtain ⟨_, s₄, tr₄, hunref, h₄, rfl⟩ := h₃.of_call
    cases hcaps
    cases hstructure
    cases hname
    cases hunref
    exact ⟨caps, capsStructure, name, tr₄, rfl, (hbranch name tr₄).mp h₄⟩
  · rintro ⟨caps, capsStructure, name, tr', rfl, h⟩
    have hrest := (hbranch name tr').mpr h
    exact .call (t := s) rfl (.call (t := s) rfl (.call (t := s) rfl (.call (t := s) rfl hrest)))

/-- The branch of a medium makes one attempt at most, at the sink pad of the element of the medium,
whatever was known of pads before. -/
theorem MediumExec.linksOnce {m : LinkedField} {sinkPad : Ptr}
    (h : MediumExec s (b.sinkElement m) m pad sinkPad tr s') :
    LinksOnce b m s (linkAttempts l tr) s' := by
  cases h with
  | already halready => exact .already halready rfl rfl
  | failed hfree =>
      refine .tried false hfree ?_ (update_false hfree).symm
      simp [linkAttempts, lookup, Lookup.next, Lookup.found, Lookup.field]
  | linked hfree =>
      refine .tried true hfree ?_ rfl
      simp [linkAttempts, lookup, Lookup.next, Lookup.found, Lookup.field]

/-- A callback asks for the name of the caps once, and does for the pad what `AddsPad` says of that
name. -/
theorem exec_onDemuxSrcPadAdded
    (h : Exec (Shared.PerformsPad t) s (onDemuxSrcPadAdded b pad) tr () s') :
    ∃ name, capsName tr = some name ∧ AddsPad b name s (linkAttempts .none tr) s' := by
  obtain ⟨caps, capsStructure, name, tr', rfl, hbranch⟩ := exec_onDemuxSrcPadAdded_iff.mp h
  refine ⟨name, rfl, ?_⟩
  show AddsPad b name s (linkAttempts .none tr') s'
  unfold AddsPad
  split at hbranch
  · obtain ⟨sinkPad, hmedium⟩ := hbranch
    exact hmedium.linksOnce
  · obtain ⟨rfl, rfl⟩ := hbranch
    exact ⟨rfl, rfl⟩

/-- A pad of a medium that is not linked can be linked: there is an execution of the callback that
sets the flag. -/
theorem exec_onDemuxSrcPadAdded_links {m : LinkedField} {name : List Char}
    (hname : b.medium name = some m) (hm : s.player.padLinked m = false) :
    ∃ tr s', Exec (Shared.PerformsPad t) s (onDemuxSrcPadAdded b pad) tr () s' ∧
      capsName tr = some name ∧ s'.player.padLinked m = true := by
  have hmedium : ∃ tr, MediumExec s (b.sinkElement m) m pad NULL tr (s.link m) :=
    ⟨_, .linked hm⟩
  obtain ⟨tr, hmedium⟩ := hmedium
  have hexec := (exec_onDemuxSrcPadAdded_iff (b := b) (t := t)).mpr
    ⟨NULL, NULL, name, tr, rfl, by rw [hname]; exact ⟨NULL, hmedium⟩⟩
  have hlinked : (s.link m).player.padLinked m = true := by simp [Shared.link]
  exact ⟨_, _, hexec, rfl, hlinked⟩

end Callback

/-! ### The flags outside the callback -/

section Flags

variable {b : Build} {t : Thread} {s s' : Shared} {tr : Trace PlayerCall PlayerCall.Resp}

/-- Flags are the same if they are at rest in the same cases, as a flag has two values only. -/
theorem padLinked_eq_of_atRest_iff {p p' : STGstPlayer}
    (h : ∀ m, (PipelineField.padLinked m).AtRest p' ↔ (PipelineField.padLinked m).AtRest p) :
    p'.padLinked = p.padLinked := by
  funext m
  have hm : p'.padLinked m = false ↔ p.padLinked m = false := h m
  cases hp : p.padLinked m with
  | false => exact hm.mpr hp
  | true =>
      rw [hp] at hm
      exact eq_true_of_ne_false fun hfalse => nomatch hm.mp hfalse

/-- A function none of whose calls sets a flag leaves the flags alone, whatever its calls return. -/
theorem padLinked_of_calls {α : Type} {p : Action α} {a : α}
    (hp : p.Calls fun c => ∀ m, c.stores ≠ some (.padLinked m))
    (h : Exec (Shared.Performs t) s p tr a s') : s'.player.padLinked = s.player.padLinked := by
  refine h.frame (I := fun u => u.player.padLinked = s.player.padLinked) ?_ hp rfl
  intro u c r u' hc hu hstep
  rw [← hu]
  exact padLinked_eq_of_atRest_iff fun m => performPlayer_frame_field (hc m) hstep

theorem padLinked_of_createPipeline {result : Bool}
    (h : Exec (Shared.Performs t) s (createPipelineBody b) tr result s') :
    s'.player.padLinked = s.player.padLinked :=
  padLinked_of_calls
    (calls_createPipelineBody_creates.mono fun _ hc m hm => (hc _ hm).2 m rfl) h

theorem padLinked_of_setPipelineState {state : GstState} {result : Bool}
    (h : Exec (Shared.Performs t) s (setPipelineStateBody state) tr result s') :
    s'.player.padLinked = s.player.padLinked :=
  padLinked_of_calls
    (calls_setPipelineStateBody_stores.mono fun c hc m hm => by simp [hc] at hm) h

end Flags

/-! ### Sessions -/

/-- An operation on the pipeline, with what it returns; a callback with the name of the caps
of the new pad. -/
inductive SessionStep
  | createPipeline (result : Bool)
  | padAdded (pad : Ptr) (name : List Char)
  | setPipelineState (state : GstState) (result : Bool)
  | destroyPipeline (result : Bool)
deriving DecidableEq, Repr

/-- What is shared, whether there is a pipeline, and the attempts to link a pad of it. -/
structure Session where
  shared : Shared
  built : Bool
  attempts : List Attempt

/-- The steps, with any responses to the calls made.  A pipeline that could not be created is
none; one that could not be destroyed is still there. -/
inductive Session.Step (b : Build) : Session → SessionStep → Session → Prop
  | create {s s' : Shared} {attempts : List Attempt} {t : Thread}
      {tr : Trace PlayerCall PlayerCall.Resp} {result : Bool} :
      Exec (Shared.Performs t) s (createPipelineBody b) tr result s' →
      Session.Step b ⟨s, false, attempts⟩ (.createPipeline result) ⟨s', result, []⟩
  | padAdded {s s' : Shared} {attempts : List Attempt} {t : Thread} {pad : Ptr}
      {name : List Char} {tr : Trace PadCall PadCall.Resp} :
      Exec (Shared.PerformsPad t) s (onDemuxSrcPadAdded b pad) tr () s' →
      capsName tr = some name →
      Session.Step b ⟨s, true, attempts⟩ (.padAdded pad name)
        ⟨s', true, attempts ++ linkAttempts .none tr⟩
  | setState {s s' : Shared} {built : Bool} {attempts : List Attempt} {t : Thread}
      {state : GstState} {tr : Trace PlayerCall PlayerCall.Resp} {result : Bool} :
      Exec (Shared.Performs t) s (setPipelineStateBody state) tr result s' →
      Session.Step b ⟨s, built, attempts⟩ (.setPipelineState state result) ⟨s', built, attempts⟩
  | destroy {s s' : Shared} {built : Bool} {attempts : List Attempt} {t : Thread}
      {tr : Trace PlayerCall PlayerCall.Resp} {result : Bool} :
      Exec (Shared.Performs t) s (destroyPipelineBody b) tr result s' →
      Session.Step b ⟨s, built, attempts⟩ (.destroyPipeline result)
        ⟨s', built && !result, if result then [] else attempts⟩

/-- The operations on the pipeline after `player_init`, in any order, and callbacks in between,
while there is a pipeline. -/
def sessions (b : Build) : LTS Session SessionStep where
  init s := s.built = false ∧ s.attempts = [] ∧
    ∃ t tr, Exec (Shared.Performs t) .initial playerInit tr () s.shared
  step := Session.Step b

section Sessions

variable {b : Build} {s₀ s s' : Session} {ls : List SessionStep} {l : SessionStep}

/-- **The flags tell which links have succeeded**: each attempt is for a medium, one of a medium
succeeds at most, and a flag is set just if one has. -/
structure Session.Linked (b : Build) (s : Session) : Prop where
  leavesOut : b.LeavesOut s.shared
  /-- Each attempt is at the sink pad of a medium. -/
  ofMedium : ∀ a ∈ s.attempts, ∃ m, a.1 = some (b.sinkElement m)
  atMostOne : ∀ m, s.attempts.count (some (b.sinkElement m), true) ≤ 1
  flag : ∀ m, s.shared.player.padLinked m = true ↔
    (some (b.sinkElement m), true) ∈ s.attempts
  closed : s.built = false → s.attempts = []

/-- A step that leaves the flags and the attempts alone keeps them tied. -/
theorem Session.Linked.of_same (h : s.Linked b) (hleaves : b.LeavesOut s'.shared)
    (hflags : s'.shared.player.padLinked = s.shared.player.padLinked)
    (hattempts : s'.attempts = s.attempts) (hclosed : s'.built = false → s.attempts = []) :
    s'.Linked b where
  leavesOut := hleaves
  ofMedium := hattempts ▸ h.ofMedium
  atMostOne := hattempts ▸ h.atMostOne
  flag m := by
    rw [hflags, hattempts]
    exact h.flag m
  closed hbuilt := hattempts.trans (hclosed hbuilt)

/-- With all flags `FALSE` and no attempt made since, nothing has been linked yet: so it is at the
start, and after the pipeline is destroyed. -/
theorem Session.Linked.of_none (hleaves : b.LeavesOut s.shared)
    (hflags : ∀ m, s.shared.player.padLinked m = false) (hattempts : s.attempts = []) :
    s.Linked b where
  leavesOut := hleaves
  ofMedium := by simp [hattempts]
  atMostOne := by simp [hattempts]
  flag m := by simp [hflags, hattempts]
  closed _ := hattempts

/-- A callback that makes one attempt, for a medium that is not linked, and stores in the flag
whether it has succeeded. -/
theorem Session.Linked.snoc {m : LinkedField} {successful : Bool} (h : s.Linked b)
    (hm : s.shared.player.padLinked m = false) (hleaves : b.LeavesOut s'.shared)
    (hflags : s'.shared.player.padLinked =
      Function.update s.shared.player.padLinked m successful)
    (hattempts : s'.attempts = s.attempts ++ [(some (b.sinkElement m), successful)])
    (hbuilt : s'.built = true) : s'.Linked b where
  leavesOut := hleaves
  ofMedium := by
    intro a ha
    rw [hattempts] at ha
    rcases List.mem_append.mp ha with ha | ha
    · exact h.ofMedium a ha
    · exact ⟨m, by rw [List.mem_singleton.mp ha]⟩
  atMostOne := by
    intro m'
    rw [hattempts, List.count_append]
    by_cases hmm' : m' = m
    · -- no attempt for `m` has succeeded yet
      subst hmm'
      have hnone : s.attempts.count (some (b.sinkElement m'), true) = 0 := by
        apply List.count_eq_zero.mpr
        intro hmem
        rw [← h.flag, hm] at hmem
        cases hmem
      rw [hnone, Nat.zero_add]
      exact List.count_le_length
    · have hne : (some (b.sinkElement m), successful) ≠ (some (b.sinkElement m'), true) := by
        intro heq
        exact hmm' (b.sinkElement_injective (Option.some.inj (Prod.ext_iff.mp heq).1)).symm
      rw [List.count_singleton, if_neg (by simpa using hne)]
      exact h.atMostOne m'
  flag := by
    intro m'
    rw [hflags, hattempts, List.mem_append, List.mem_singleton, ← h.flag]
    by_cases hmm' : m' = m
    · subst hmm'
      simp [hm, eq_comm]
    · have hne : b.sinkElement m' ≠ b.sinkElement m :=
        fun heq => hmm' (b.sinkElement_injective heq)
      simp [hmm', hne]
  closed hclosed := by
    rw [hbuilt] at hclosed
    cases hclosed

theorem Session.Linked.of_init (h : (sessions b).init s) : s.Linked b := by
  obtain ⟨-, hattempts, t, tr, hexec⟩ := h
  exact .of_none (fun f _ => atRest_of_playerInit hexec f)
    (fun m => atRest_of_playerInit hexec (.padLinked m)) hattempts

/-- What a callback does to the flags keeps them in step with the attempts, whatever the caps of its
pad. -/
theorem Session.Linked.addsPad {name : List Char} {attempts : List Attempt} (h : s.Linked b)
    (hadds : AddsPad b name s.shared attempts s'.shared) (hleaves : b.LeavesOut s'.shared)
    (hattempts : s'.attempts = s.attempts ++ attempts) (hbuilt : s'.built = true) :
    s'.Linked b := by
  have hclosed : s'.built = false → s.attempts = [] := by
    rw [hbuilt]
    nofun
  unfold AddsPad at hadds
  split at hadds
  · cases hadds with
    | already _ hnone hflags =>
        rw [hnone, List.append_nil] at hattempts
        exact h.of_same hleaves hflags hattempts hclosed
    | tried successful hm hone hflags =>
        rw [hone] at hattempts
        exact h.snoc hm hleaves hflags hattempts hbuilt
  · obtain ⟨hnone, hflags⟩ := hadds
    rw [hnone, List.append_nil] at hattempts
    exact h.of_same hleaves hflags hattempts hclosed

/-- **One step**, with any result: a callback adds its attempt, a `destroy_pipeline` that returns
`TRUE` begins anew, and the others change neither the flags nor the attempts. -/
theorem Session.Linked.step (h : s.Linked b) (hstep : (sessions b).step s l s') :
    s'.Linked b := by
  cases hstep with
  | create hexec =>
      exact h.of_same (leavesOut_of_createPipeline hexec h.leavesOut)
        (padLinked_of_createPipeline hexec) (h.closed rfl).symm fun _ => h.closed rfl
  | padAdded hexec hname =>
      obtain ⟨name, hname', hadds⟩ := exec_onDemuxSrcPadAdded hexec
      exact h.addsPad hadds (leavesOut_of_padAdded hexec h.leavesOut) rfl rfl
  | setState hexec =>
      exact h.of_same (leavesOut_of_setPipelineState hexec h.leavesOut)
        (padLinked_of_setPipelineState hexec) rfl h.closed
  | @destroy _ _ built _ _ _ result hexec =>
      cases result with
      | true =>
          have hrest := atRest_of_destroyPipeline hexec h.leavesOut
          exact .of_none (fun f hf => hrest f (ofPipeline_of_not_has hf))
            (fun m => hrest (.padLinked m) rfl) rfl
      | false =>
          have hsame := atRest_iff_of_destroyPipeline_false hexec
          refine h.of_same (fun f hf => (hsame f).mpr (h.leavesOut f hf))
            (padLinked_eq_of_atRest_iff fun m => hsame (.padLinked m)) rfl fun hbuilt => ?_
          exact h.closed (by simpa using hbuilt)

/-- **At most one pad of each medium is linked**, in every sequence of operations on the
pipeline and callbacks, with any outcome of each: no sink pad is linked twice, a flag is
`TRUE` when the link of its medium has succeeded and at no other time, a callback links what
`AddsPad` says, and a pad of a medium that is not linked can be linked. -/
theorem one_pad_of_each_medium (h₀ : (sessions b).init s₀) (hrun : (sessions b).Run s₀ ls s) :
    (∀ a ∈ s.attempts, ∃ m, a.1 = some (b.sinkElement m)) ∧
      (∀ m, s.attempts.count (some (b.sinkElement m), true) ≤ 1 ∧
        (s.shared.player.padLinked m = true ↔
          (some (b.sinkElement m), true) ∈ s.attempts)) ∧
      (∀ pad name s', (sessions b).step s (.padAdded pad name) s' →
        ∃ attempts, s'.attempts = s.attempts ++ attempts ∧
          AddsPad b name s.shared attempts s'.shared) ∧
      (∀ m pad name, s.built = true → b.medium name = some m →
        s.shared.player.padLinked m = false →
        ∃ s', (sessions b).step s (.padAdded pad name) s' ∧
          s'.shared.player.padLinked m = true) := by
  have hlinked : s.Linked b :=
    hrun.invariant (fun _ _ _ => Session.Linked.step) (Session.Linked.of_init h₀)
  refine ⟨hlinked.ofMedium, fun m => ⟨hlinked.atMostOne m, hlinked.flag m⟩, ?_, ?_⟩
  · intro pad name s' hstep
    cases hstep with
    | padAdded hexec hname =>
        obtain ⟨name', hname', hadds⟩ := exec_onDemuxSrcPadAdded hexec
        cases hname.symm.trans hname'
        exact ⟨_, rfl, hadds⟩
  · obtain ⟨shared, built, attempts⟩ := s
    rintro m pad name rfl hname hm
    obtain ⟨tr, s', hexec, hcaps, hs'⟩ : ∃ tr s',
        Exec (Shared.PerformsPad .main) shared (onDemuxSrcPadAdded b pad) tr () s' ∧
          capsName tr = some name ∧ s'.player.padLinked m = true :=
      exec_onDemuxSrcPadAdded_links hname hm
    exact ⟨_, .padAdded hexec hcaps, hs'⟩

end Sessions

section TwoVideoPads

/-- The player initialised, a pipeline, and two video pads of its demultiplexer. -/
def twoVideoPads : Option (Shared × List Attempt × Shared) := do
  let (_, _, s₀) ← kindWorld.run playerInit .initial
  let (_, created, s₁) ← kindWorld.run (createPipelineBody subtitleBuild) s₀
  let name := "video/mpeg".toList
  let (tr₂, _, s₂) ← kindWorld.runPad name (onDemuxSrcPadAdded subtitleBuild (.obj 6)) s₁
  let (tr₃, _, s₃) ← kindWorld.runPad name (onDemuxSrcPadAdded subtitleBuild (.obj 7)) s₂
  if created = true ∧ capsName tr₂ = some name ∧ capsName tr₃ = some name then
    some (s₀, [] ++ linkAttempts .none tr₂ ++ linkAttempts .none tr₃, s₃)
  else none

theorem twoVideoPads_links : twoVideoPads.any (fun r => r.2.2.player.padLinked .video) = true := by
  decide +kernel

/-- Of two video pads that come after each other one is linked; the second finds the flag set. -/
theorem one_pad_of_two_video_pads :
    ∃ s₀ s : Session, (sessions subtitleBuild).init s₀ ∧
      (sessions subtitleBuild).Run s₀
        [.createPipeline true, .padAdded (.obj 6) "video/mpeg".toList,
          .padAdded (.obj 7) "video/mpeg".toList] s ∧
      s.attempts.count (some .vidDmxQueue, true) = 1 := by
  obtain ⟨⟨s₀, attempts, s₃⟩, hrun, hlinked⟩ := (Option.any_eq_true _ _).mp twoVideoPads_links
  simp only [twoVideoPads, Option.bind_eq_bind, Option.bind_eq_some_iff, Prod.exists,
    Option.ite_none_right_eq_some] at hrun
  obtain ⟨tr₀, _, s₀', h₀, tr₁, _, s₁, h₁, tr₂, _, s₂, h₂, tr₃, _, s₃', h₃,
    ⟨rfl, hname₂, hname₃⟩, heq⟩ := hrun
  cases heq
  have hinit : (sessions subtitleBuild).init ⟨s₀, false, []⟩ :=
    ⟨rfl, rfl, .main, tr₀, exec_runWith h₀⟩
  have hcreate : (sessions subtitleBuild).step ⟨s₀, false, []⟩ (.createPipeline true)
      ⟨s₁, true, []⟩ := .create (t := .main) (exec_runWith h₁)
  have hrun := LTS.Run.nil.snoc hcreate
    |>.snoc (.padAdded (t := .main) (exec_runWith h₂) hname₂)
    |>.snoc (.padAdded (t := .main) (exec_runWith h₃) hname₃)
  obtain ⟨-, hmedia, -⟩ := one_pad_of_each_medium hinit hrun
  obtain ⟨hmost, hflag⟩ := hmedia .video
  exact ⟨_, _, hinit, hrun, le_antisymm hmost (List.count_pos_iff.mpr (hflag.mp hlinked))⟩

end TwoVideoPads

end LeipoCode.Player
