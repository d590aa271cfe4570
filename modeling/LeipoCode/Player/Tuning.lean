import LeipoCode.Lib.Account
import LeipoCode.Lib.CString
import LeipoCode.Player.Exclusion
import LeipoCode.Player.Rounds
import Mathlib.Algebra.Group.Nat.Defs

/-!
# The URL the player is tuned to

`player->uri` has 255 bytes.  `player_init` clears it, and `main` and `handle_channel_zapping`
copy the URL they have selected to its start, without a terminator; `create_source_element_2`
hands its address to the source element.

* `Urls` — what `CHAN1_URL` and `CHAN2_URL` may stand for; `zappingRoundsOf` and `startUp` are
  the code for any two, `zappingRounds_eq` and `main_eq` say that the application is one case;
* `uriRules` — as a `Discipline`: what is in the buffer, and what has been handed over;
* `wp_startUp`, `wp_zappingRounds` — what both functions hand over, for URLs of any length;
* `tuner` — the player started, and commands of any number of rounds;
* `selected_url_never_inside` — **the buffer is overrun in every run**, and holds the URL that
  was selected just as long as none is shorter than one before it.

### What is claimed of which runs

Two halves are stated in one theorem.  That the program writes behind its buffer is so in every run,
for `player_init` clears 256 bytes where there are 255; the byte behind is padding of the structure,
and the model has it.  That what is handed over is the URL that was selected depends on the two
URLs, and only on their lengths: a copy without a terminator leaves the tail of a longer one behind,
and the first copy goes into a buffer of zeros.

A `Segment` is what the program does between two points at which it stands still, its start or one
command, and its trace is all that is looked at.  Commands may fail in the middle of a round, so
that nothing is handed over, and then there is nothing to be wrong.

### How it goes

The rules forbid nothing that the program does and record what it does: `uriRules` is followed by
every execution, and its state after an execution is the buffer and what has been handed over
(`after_uriRules`).  So a `wp` of the program under these rules is a statement about its traces.
Most functions have nothing to do with the buffer (`LeavesUri`), and are passed over by walking
through their calls.

A round copies the URL it has selected and then hands the buffer over once, or fails before.  What
is in the buffer before a round is `Holds`: text that is as long as the first URL at least, and as
the longer of the two at most, with a terminator behind.  `Holds.tuned_iff` is the one round,
`wp_zappingRounds` the loop by induction on the rounds, and `Tuner.Follows` what is known between
two commands.

The commands come one after the other here; that an operation of one thread does not overlap with
one of the other is a result of its own.
-/

namespace LeipoCode.Player

open Prog Discipline

/-! ### Any two channels -/

/-- Two URLs, each a string that fits into `uri_to_play`.  The application is the case of the two
that its build selects, and nothing else is known of them. -/
structure Urls where
  chan1 : List Char
  chan2 : List Char
  chan1_length : chan1.length < 255
  chan2_length : chan2.length < 255
  chan1_text : '\x00' ∉ chan1
  chan2_text : '\x00' ∉ chan2

/-- `uri_to_play` in `handle_channel_zapping`: the second channel first, and then the two in turn.
-/
def Urls.uriToPlay (u : Urls) (zappingCnt : ℕ) : List Char :=
  if zappingCnt % 2 = 0 then u.chan2 else u.chan1

/-- `zappingRounds` for these channels: the same text, but for the URL, which the source has as two
constants. -/
def zappingRoundsOf (u : Urls) (b : Build) (zappingCnt : ℕ) : ℕ → Routine Bool
  | 0 => return true
  | rounds + 1 => do
      let stopped ← setPipelineState .null
      if stopped = false then
        return false
      let destroyed ← destroyPipeline b
      if destroyed = false then
        return false
      call (.memcpyUri (u.uriToPlay zappingCnt))
      let created ← createPipeline b
      if created = false then
        return false
      let playing ← setPipelineState .playing
      if playing = false then
        return false
      call (.sleep ZAPPING_INTERVAL_IN_SEC)
      zappingRoundsOf u b (zappingCnt + 1) rounds

/-- `main` as far as `g_main_loop_run`; false if it returns before.  This is the part that writes to
the buffer. -/
def startUp (u : Urls) (b : Build) : Routine Bool := do
  let _ ← untested .initCheck
  playerInit
  call (.memcpyUri u.chan1)
  let loop : Ptr ← control .mainLoopNew
  store .mainLoop loop
  createKeyboardTask
  let created ← createPipeline b
  if created = false then
    return false
  let playing ← setPipelineState .playing
  if playing = false then
    return false
  return true

/-- `main` from `g_main_loop_run` on, where the address is not touched any more. -/
def runAndShutDown (b : Build) : Routine ℕ := do
  let mainLoop ← load .mainLoop
  control (.mainLoopRun mainLoop)
  control .mainLoopRunReturns
  let stopped ← setPipelineState .null
  if stopped = false then
    return 1
  joinKeyboardTask
  let destroyed ← destroyPipeline b
  if destroyed = false then
    return 1
  return 0

section Channels

variable {b : Build}

theorem chan1Url_fits : b.chan1Url.toList.length < 255 ∧ '\x00' ∉ b.chan1Url.toList := by
  unfold Build.chan1Url
  split_ifs <;> decide

theorem chan2Url_fits : b.chan2Url.toList.length < 255 ∧ '\x00' ∉ b.chan2Url.toList := by
  unfold Build.chan2Url
  split_ifs <;> decide

/-- The channels of the build, as an instance of two URLs that fit, so that what is shown of any two
is shown of these. -/
def Build.urls (b : Build) : Urls :=
  ⟨b.chan1Url.toList, b.chan2Url.toList, chan1Url_fits.1, chan2Url_fits.1, chan1Url_fits.2,
    chan2Url_fits.2⟩

/-- The application zaps between the channels of the build: its loop is `zappingRoundsOf` at those
two URLs. -/
theorem zappingRounds_eq (cnt rounds : ℕ) :
    zappingRounds b cnt rounds = zappingRoundsOf b.urls b cnt rounds := by
  induction rounds generalizing cnt with
  | zero => rfl
  | succ rounds ih =>
      have hselected : (if cnt % 2 = 0 then b.chan2Url else b.chan1Url).toList =
          b.urls.uriToPlay cnt := apply_ite ..
      unfold zappingRounds zappingRoundsOf
      simp only [ih]
      rw [hselected]

/-- `main` starts the player on the first of the two channels of the build, and runs the main loop
if it has started. -/
theorem main_eq :
    main b = (do
      let started ← startUp b.urls b
      if started = false then
        return 1
      runAndShutDown b) := by
  unfold main startUp
  simp only [bind_assoc]
  refine bind_congr fun _ => bind_congr fun _ => bind_congr fun _ => bind_congr fun loop => ?_
  refine bind_congr fun _ => bind_congr fun _ => bind_congr fun created => ?_
  cases created with
  | false => rfl
  | true =>
      simp only [Bool.true_eq_false, if_false, bind_assoc]
      refine bind_congr fun playing => ?_
      cases playing <;> rfl

end Channels

/-! ### What is in the buffer, and what is handed over -/

namespace PlayerCall

/-- How many bytes of `player->uri` a call writes, from its start.  Both calls that write begin
there. -/
def uriWritten : PlayerCall → ℕ
  | .memsetUri n => n
  | .memcpyUri bytes => bytes.length
  | _ => 0

/-- The buffer after a call: what was written, and behind it what was there before. -/
def uriAfter (uri : List Char) : PlayerCall → List Char
  | .memsetUri n => List.replicate n '\x00' ++ uri.drop n
  | .memcpyUri bytes => bytes ++ uri.drop bytes.length
  | _ => uri

/-- The buffer a call hands to an element as its location.  It is what GStreamer is told to play. -/
def handsOver : PlayerCall → Option (List Char)
  | .gst (.objectSet _ property (.str uri)) _ => if property = "location" then some uri else none
  | _ => none

/-- The calls that have nothing to do with the buffer: they do not write it, and do not hand it
over. -/
def LeavesUri (c : PlayerCall) : Prop :=
  c.uriWritten = 0 ∧ (∀ uri, c.uriAfter uri = uri) ∧ c.handsOver = none

end PlayerCall

namespace Call

/-- How many bytes of `player->uri` a call writes, of whichever kind: a control call writes none. -/
def uriWritten : Call → ℕ
  | .player c => c.uriWritten
  | .control _ => 0

/-- The buffer after a call, of whichever kind: a control call leaves it alone. -/
def uriAfter (uri : List Char) : Call → List Char
  | .player c => c.uriAfter uri
  | .control _ => uri

/-- The buffer a call hands over, if it is one of the player that does. -/
def handsOver : Call → Option (List Char)
  | .player c => c.handsOver
  | .control _ => none

end Call

/-- What is handed over in an execution, in order: one text for each element that is told its
location. -/
def handed (tr : Trace Call Call.Resp) : List (List Char) := tr.filterMap fun x => x.1.handsOver

/-- The buffer, and what has been handed over: the state in which the rules look at an execution. -/
structure UriLog where
  uri : List Char
  handed : List (List Char)

/-- Only `player_init` writes more than 255 bytes; who reads the buffer gets what is there. -/
def uriRules : Discipline Call Call.Resp UriLog where
  allowed _ c := c.uriWritten ≤ 255 ∨ c = .player (.memsetUri 256)
  granted q
    | .player .loadUri, uri => uri = q.uri
    | _, _ => True
  next q c _ := ⟨c.uriAfter q.uri, q.handed ++ c.handsOver.toList⟩

/-- The same for what is called between the control calls, which are all those that matter. -/
abbrev uriBodyRules : Discipline PlayerCall PlayerCall.Resp UriLog := uriRules.comap .player

/-- The calls of a thread as steps, control calls included, as `Prog.Exec` has them. -/
def Shared.PerformsCall (t : Thread) (s : Shared) (c : Call) (r : c.Resp) (s' : Shared) : Prop :=
  s.perform t c r = some s'

section Log

variable {t : Thread} {s s' : Shared} {q : UriLog} {tr : Trace Call Call.Resp}

/-- The buffer of the player follows the calls: what is in it after a call is what `uriAfter`
computes from what was. -/
theorem performPlayer_uri {c : PlayerCall} {r : c.Resp} (h : s.performPlayer t c r = some s') :
    s'.player.uri = c.uriAfter s.player.uri := by
  cases c with
  | recMutex o m =>
      obtain ⟨m', -, rfl⟩ := Option.map_eq_some_iff.mp h
      cases m <;> rfl
  | memsetMutex | memsetUri n | memcpyUri bytes | store f p | storePadLinked f linked =>
      cases h
      rfl
  | _ => grind [Shared.performPlayer, PlayerCall.uriAfter]

theorem honours_uriRules :
    uriRules.Honours (Shared.PerformsCall t) fun s q => s.player.uri = q.uri := by
  intro s q c r s' hrel _ h
  cases c with
  | control c =>
      refine ⟨trivial, ?_⟩
      show s'.player.uri = q.uri
      rw [Shared.performControl_player h, hrel]
  | player c =>
      constructor
      · cases c with
        | loadUri =>
            obtain ⟨hr, -⟩ := Option.ite_none_right_eq_some.mp h
            exact hr.trans hrel
        | _ => exact trivial
      · show s'.player.uri = c.uriAfter q.uri
        rw [performPlayer_uri h, hrel]

theorem after_uriRules : (uriRules.after q tr).handed = q.handed ++ handed tr := by
  induction tr generalizing q with
  | nil => simp [after, handed]
  | cons x tr ih =>
      obtain ⟨c, r⟩ := x
      rw [after, ih]
      cases hc : c.handsOver <;> simp [uriRules, handed, hc]

theorem next_leavesUri {c : PlayerCall} (hc : c.LeavesUri) (r : c.Resp) :
    uriBodyRules.next q c r = q := by
  obtain ⟨-, huri, hhands⟩ := hc
  show (⟨c.uriAfter q.uri, q.handed ++ c.handsOver.toList⟩ : UriLog) = q
  simp [huri, hhands]

theorem allowed_leavesUri {c : PlayerCall} (hc : c.LeavesUri) : uriBodyRules.allowed q c :=
  .inl (hc.1.trans_le (Nat.zero_le _))

/-- A part none of whose calls has to do with the buffer leaves the log as it is. -/
theorem returns_leavesUri {α : Type} {p : Action α} (hp : p.Calls PlayerCall.LeavesUri) :
    uriBodyRules.Returns q p :=
  returns_of_calls (fun _ hc => ⟨allowed_leavesUri hc, next_leavesUri hc⟩) hp

/-- A call that has nothing to do with the buffer leaves the log as it is, and is passed over. -/
theorem wp_leavesUri {α : Type} {post : α → UriLog → Prop} {c : PlayerCall}
    {rest : c.Resp → Action α} (hc : c.LeavesUri) (hrest : ∀ r, uriBodyRules.wp post (rest r) q) :
    uriBodyRules.wp post (call c >>= rest) q :=
  wp_neutral (allowed_leavesUri hc) (next_leavesUri hc) fun r _ => hrest r

end Log

/-! ### The operations -/

section Operations

variable {b : Build} {q : UriLog}

theorem leavesUri_createSourceElement1 : createSourceElement1.Calls PlayerCall.LeavesUri := by
  unfold createSourceElement1
  refine Calls.bind (calls_lift.mpr ⟨rfl, fun _ => rfl, rfl⟩) fun bin => ?_
  refine Calls.ite (fun _ => trivial) fun _ => ?_
  refine Calls.bind (calls_lift.mpr ⟨rfl, fun _ => rfl, rfl⟩) fun pad => ?_
  exact Calls.bind (calls_lift.mpr ⟨rfl, fun _ => rfl, rfl⟩) fun _ => trivial

theorem leavesUri_createSinkElement1 : createSinkElement1.Calls PlayerCall.LeavesUri := by
  unfold createSinkElement1
  refine Calls.bind (calls_lift.mpr ⟨rfl, fun _ => rfl, rfl⟩) fun bin => ?_
  refine Calls.bind (calls_lift.mpr ⟨rfl, fun _ => rfl, rfl⟩) fun pad => ?_
  exact Calls.bind (calls_lift.mpr ⟨rfl, fun _ => rfl, rfl⟩) fun _ => trivial

theorem leavesUri_createSinkElement2 : (createSinkElement2 b).Calls PlayerCall.LeavesUri := by
  unfold createSinkElement2 ifdef createSubtitleElements addSinkElements linkVideo linkAudio
    linkSubtitle
  repeat' first
    | exact calls_loads (fun _ => ⟨rfl, fun _ => rfl, rfl⟩) _
    | refine Calls.bind ?_ fun _ => ?_
    | refine Calls.ite (fun _ => ?_) fun _ => ?_
    | exact calls_lift.mpr ⟨rfl, fun _ => rfl, rfl⟩
    | exact trivial

theorem leavesUri_addsink : addsink.Calls PlayerCall.LeavesUri := by
  unfold addsink
  repeat' first
    | refine Calls.bind ?_ fun _ => ?_
    | refine Calls.ite (fun _ => ?_) fun _ => ?_
    | exact calls_lift.mpr ⟨rfl, fun _ => rfl, rfl⟩
    | exact trivial

theorem leavesUri_setPipelineStateBody {state : GstState} :
    (setPipelineStateBody state).Calls PlayerCall.LeavesUri := by
  unfold setPipelineStateBody
  repeat' first
    | refine Calls.bind ?_ fun _ => ?_
    | refine Calls.ite (fun _ => ?_) fun _ => ?_
    | exact calls_lift.mpr ⟨rfl, fun _ => rfl, rfl⟩
    | exact trivial

theorem leavesUri_destroyPipelineBody :
    (destroyPipelineBody b).Calls PlayerCall.LeavesUri := by
  unfold destroyPipelineBody dropsink resetSinkFields
  repeat' first
    | refine Calls.bind ?_ fun _ => ?_
    | refine Calls.ite (fun _ => ?_) fun _ => ?_
    | exact calls_lift.mpr ⟨rfl, fun _ => rfl, rfl⟩
    | exact trivial

theorem leavesUri_createKeyboardTask : createKeyboardTask.Calls PlayerCall.LeavesUri := by
  unfold createKeyboardTask
  repeat' first
    | refine Calls.bind ?_ fun _ => ?_
    | refine Calls.ite (fun _ => ?_) fun _ => ?_
    | exact calls_lift.mpr ⟨rfl, fun _ => rfl, rfl⟩
    | exact trivial

/-- The buffer as it is is handed over, or nothing is and the function fails.  This is what an
operation does to the log. -/
def HandsOver (q : UriLog) (r : Bool) (q' : UriLog) : Prop :=
  q' = { q with handed := q.handed ++ [q.uri] } ∨ r = false ∧ q' = q

theorem HandsOver.failed : HandsOver q false q := .inr ⟨rfl, rfl⟩

theorem wp_createSourceElement2_uri :
    uriBodyRules.wp (HandsOver q) (createSourceElement2 b) q := by
  unfold createSourceElement2
  refine wp_leavesUri ⟨rfl, fun _ => rfl, rfl⟩ fun bin => ?_
  refine wp_leavesUri ⟨rfl, fun _ => rfl, rfl⟩ fun source => ?_
  refine wp_ite (fun _ => .failed) fun _ => ?_
  refine wp_leavesUri ⟨rfl, fun _ => rfl, rfl⟩ fun _ => ?_
  refine wp_leavesUri ⟨rfl, fun _ => rfl, rfl⟩ fun _ => ?_
  refine wp_leavesUri ⟨rfl, fun _ => rfl, rfl⟩ fun _ => ?_
  refine wp_leavesUri ⟨rfl, fun _ => rfl, rfl⟩ fun pad => ?_
  refine wp_leavesUri ⟨rfl, fun _ => rfl, rfl⟩ fun ghostPad => ?_
  refine wp_leavesUri ⟨rfl, fun _ => rfl, rfl⟩ fun targetSet => ?_
  refine wp_ite (fun _ => .failed) fun _ => ?_
  refine wp_leavesUri ⟨rfl, fun _ => rfl, rfl⟩ fun _ => ?_
  refine wp_leavesUri ⟨rfl, fun _ => rfl, rfl⟩ fun _ => ?_
  have hload : PlayerCall.loadUri.LeavesUri := ⟨rfl, fun _ => rfl, rfl⟩
  refine wp_neutral (allowed_leavesUri hload) (next_leavesUri hload) fun uri huri => ?_
  -- what is read is what is in the buffer
  cases huri
  exact wp_bind.mpr ⟨.inl (Nat.zero_le _), fun _ _ => .inl rfl⟩

theorem wp_createPipelineBody_uri :
    uriBodyRules.wp (HandsOver q) (createPipelineBody b) q := by
  unfold createPipelineBody
  refine wp_leavesUri ⟨rfl, fun _ => rfl, rfl⟩ fun _ => ?_
  refine wp_leavesUri ⟨rfl, fun _ => rfl, rfl⟩ fun _ => ?_
  refine wp_leavesUri ⟨rfl, fun _ => rfl, rfl⟩ fun mPipeline => ?_
  refine wp_leavesUri ⟨rfl, fun _ => rfl, rfl⟩ fun _ => ?_
  refine (returns_leavesUri leavesUri_createSourceElement1).seq fun mSource _ => ?_
  refine wp_leavesUri ⟨rfl, fun _ => rfl, rfl⟩ fun _ => ?_
  refine wp_leavesUri ⟨rfl, fun _ => rfl, rfl⟩ fun mTee => ?_
  refine wp_leavesUri ⟨rfl, fun _ => rfl, rfl⟩ fun _ => ?_
  refine wp_ite (fun _ => .failed) fun _ => ?_
  refine wp_leavesUri ⟨rfl, fun _ => rfl, rfl⟩ fun _ => ?_
  refine wp_leavesUri ⟨rfl, fun _ => rfl, rfl⟩ fun linked => ?_
  refine wp_ite (fun _ => .failed) fun _ => ?_
  refine wp_leavesUri ⟨rfl, fun _ => rfl, rfl⟩ fun bus => ?_
  refine wp_leavesUri ⟨rfl, fun _ => rfl, rfl⟩ fun id => ?_
  refine wp_leavesUri ⟨rfl, fun _ => rfl, rfl⟩ fun _ => ?_
  refine wp_leavesUri ⟨rfl, fun _ => rfl, rfl⟩ fun _ => ?_
  refine wp_seq wp_createSourceElement2_uri fun sourceCreated q' hq' => ?_
  refine wp_ite (fun hcreated => ?_) fun hcreated => ?_
  · subst hcreated
    exact hq'
  -- from here on nothing touches the buffer
  have hhanded : q' = { q with handed := q.handed ++ [q.uri] } :=
    hq'.resolve_right fun hfailed => hcreated hfailed.1
  have hrest : ∀ p : Action Bool, p.Calls PlayerCall.LeavesUri →
      uriBodyRules.wp (HandsOver q) p q' := by
    intro p hp
    exact (returns_leavesUri hp).wp fun r _ => .inl hhanded
  apply hrest
  refine Calls.bind leavesUri_createSinkElement1 fun mSink => ?_
  refine Calls.bind (calls_lift.mpr ⟨rfl, fun _ => rfl, rfl⟩) fun _ => ?_
  refine Calls.bind leavesUri_createSinkElement2 fun sinkCreated => Calls.ite (fun _ => trivial) ?_
  intro _
  refine Calls.bind leavesUri_addsink fun sinkAdded => Calls.ite (fun _ => trivial) fun _ => ?_
  exact Calls.bind (calls_lift.mpr ⟨rfl, fun _ => rfl, rfl⟩) fun _ => trivial

/-- What an operation does to the log is what its body does: entering and leaving it are nothing to
the buffer. -/
theorem wp_operation_uri {op : Op} {body : Action Bool} {post : Bool → UriLog → Prop}
    (hbody : uriBodyRules.wp post body q) : uriRules.wp post (operation op body) q := by
  have hcontrol : ∀ (c : ControlCall) (q : UriLog) (r : c.Resp),
      uriRules.next q (.control c) r = q := by
    intro c q r
    show (⟨q.uri, q.handed ++ []⟩ : UriLog) = q
    rw [List.append_nil]
  refine wp_neutral (.inl (Nat.zero_le _)) (hcontrol (.enter op) q) fun _ _ => ?_
  refine wp_seq (wp_mapCall.mpr hbody) fun r q' hq' => ?_
  exact wp_neutral (.inl (Nat.zero_le _)) (hcontrol (.leave op r) q') fun _ _ => hq'

theorem wp_createPipeline_uri : uriRules.wp (HandsOver q) (createPipeline b) q :=
  wp_operation_uri wp_createPipelineBody_uri

theorem returns_setPipelineState_uri {state : GstState} :
    uriRules.Returns q (setPipelineState state) :=
  wp_operation_uri (returns_leavesUri leavesUri_setPipelineStateBody)

theorem returns_destroyPipeline_uri : uriRules.Returns q (destroyPipeline b) :=
  wp_operation_uri (returns_leavesUri leavesUri_destroyPipelineBody)

end Operations

/-! ### The URLs that are tuned -/

/-- The buffer holds the URL, with a terminator: read as a string it is the URL and no more. -/
def Tuned (uri url : List Char) : Prop :=
  '\x00' ∈ uri.take 255 ∧ CString.string '\x00' uri = url

namespace Urls

variable (u : Urls)

/-- The URL selected in the round is not shorter than the other one, so that nothing of the other
one is left behind it. -/
def Covers (zappingCnt : ℕ) : Prop :=
  if zappingCnt % 2 = 0 then u.chan1.length ≤ u.chan2.length
  else u.chan2.length ≤ u.chan1.length

/-- What is in the buffer before a round: text that is as long as the first URL at least, and
as the longer of the two at most, which it is from the second round on. -/
def Holds (zappingCnt : ℕ) (uri : List Char) : Prop :=
  ∃ n, CString.Filled '\x00' 256 n uri ∧ u.chan1.length ≤ n ∧
    n ≤ max u.chan1.length u.chan2.length ∧ (0 < zappingCnt → u.chan2.length ≤ n)

/-- The buffers handed over from this round on, each with the right URL just if that covers
the other one. -/
def Played (zappingCnt : ℕ) (uris : List (List Char)) : Prop :=
  ∀ i uri, uris[i]? = some uri →
    (Tuned uri (u.uriToPlay (zappingCnt + i)) ↔ u.Covers (zappingCnt + i))

variable {u} {cnt : ℕ} {uri : List Char} {uris : List (List Char)}

theorem uriToPlay_length : (u.uriToPlay cnt).length < 255 := by
  unfold uriToPlay
  split_ifs
  · exact u.chan2_length
  · exact u.chan1_length

theorem uriToPlay_text : '\x00' ∉ u.uriToPlay cnt := by
  unfold uriToPlay
  split_ifs
  · exact u.chan2_text
  · exact u.chan1_text

/-- A URL is copied over the start of a buffer that has `n` characters of text in front of a
terminator: the buffer then holds the URL and no more just if the URL is at least as long as the
text was. -/
theorem tuned_copy_iff {url : List Char} {n : ℕ} (huri : CString.Filled '\x00' 256 n uri)
    (hn : n < 255) (hurl : '\x00' ∉ url) (hlength : url.length < 255) :
    Tuned (url ++ uri.drop url.length) url ↔ n ≤ url.length := by
  rw [← huri.string_copy_iff hurl]
  constructor
  · exact fun h => h.2
  · intro h
    have hcopy := huri.copy hurl (by omega)
    refine ⟨CString.nul_mem_take_iff.mpr ⟨hcopy.nul_mem (by omega), ?_⟩, h⟩
    rw [h]
    exact hlength

/-- The rounds of a command all tune to their URLs as soon as the first two do, since the channels
take turns. -/
theorem forall_covers_iff {n : ℕ} :
    (∀ i < n, u.Covers i) ↔ (0 < n → u.chan1.length ≤ u.chan2.length) ∧
      (1 < n → u.chan2.length ≤ u.chan1.length) := by
  constructor
  · intro h
    exact ⟨fun hn => by simpa [Covers] using h 0 hn, fun hn => by simpa [Covers] using h 1 hn⟩
  · rintro ⟨hfirst, hsecond⟩ i hi
    unfold Covers
    split_ifs
    · exact hfirst (by omega)
    · exact hsecond (by omega)

theorem Holds.mono (h : u.Holds cnt uri) : u.Holds 0 uri := by
  obtain ⟨n, hfilled, hfirst, hmax, -⟩ := h
  exact ⟨n, hfilled, hfirst, hmax, nofun⟩

/-- After the URL of a round is copied into the buffer, that holds what the next round is to find.
-/
theorem Holds.copy (h : u.Holds cnt uri) :
    u.Holds (cnt + 1) (u.uriToPlay cnt ++ uri.drop (u.uriToPlay cnt).length) := by
  obtain ⟨n, hfilled, hfirst, hmax, hsecond⟩ := h
  have hlength : (u.uriToPlay cnt).length < 255 := u.uriToPlay_length
  refine ⟨_, hfilled.copy u.uriToPlay_text (by omega), ?_⟩
  unfold uriToPlay
  split_ifs <;> omega

/-- **The round tunes to its URL** just if that covers the other one, whatever the rounds before
have left. -/
theorem Holds.tuned_iff (h : u.Holds cnt uri) :
    Tuned (u.uriToPlay cnt ++ uri.drop (u.uriToPlay cnt).length) (u.uriToPlay cnt) ↔
      u.Covers cnt := by
  obtain ⟨n, hfilled, hfirst, hmax, hsecond⟩ := h
  have hchan1 := u.chan1_length
  have hchan2 := u.chan2_length
  rw [tuned_copy_iff hfilled (by omega) u.uriToPlay_text u.uriToPlay_length]
  unfold uriToPlay Covers
  split_ifs <;> omega

theorem Played.nil : u.Played cnt [] := by
  intro i uri h
  simp at h

theorem Played.cons (h : Tuned uri (u.uriToPlay cnt) ↔ u.Covers cnt)
    (huris : u.Played (cnt + 1) uris) : u.Played cnt (uri :: uris) := by
  intro i uri' hi
  cases i with
  | zero =>
      cases hi
      exact h
  | succ i =>
      have hlater := huris i uri' hi
      rwa [Nat.add_right_comm, Nat.add_assoc] at hlater

/-- What rounds from `zappingCnt` on leave: each hands over at most once, and no round follows
one that did not. -/
structure Zaps (u : Urls) (zappingCnt rounds : ℕ) (q q' : UriLog) : Prop where
  holds : u.Holds 0 q'.uri
  hands : ∃ uris, q'.handed = q.handed ++ uris ∧ uris.length ≤ rounds ∧ u.Played zappingCnt uris

variable {b : Build} {rounds : ℕ} {q q' : UriLog}

/-- A round that ends before it has handed over its URL: the loop ends with it. -/
theorem Zaps.nothing (hholds : u.Holds 0 q'.uri) (hhanded : q'.handed = q.handed) :
    u.Zaps cnt rounds q q' :=
  ⟨hholds, [], by rw [hhanded, List.append_nil], Nat.zero_le _, .nil⟩

/-- A round that hands over its URL, followed by the rounds that are still to go. -/
theorem Zaps.next {q₁ : UriLog} (huri : Tuned uri (u.uriToPlay cnt) ↔ u.Covers cnt)
    (hhanded : q₁.handed = q.handed ++ [uri]) (hrest : u.Zaps (cnt + 1) rounds q₁ q') :
    u.Zaps cnt (rounds + 1) q q' := by
  obtain ⟨hholds, uris, huris, hlength, hplayed⟩ := hrest
  refine ⟨hholds, uri :: uris, ?_, Nat.succ_le_succ hlength, hplayed.cons huri⟩
  rw [huris, hhanded, List.append_assoc, List.singleton_append]

/-- **The zapping loop**, from a buffer that holds what the rounds before have left. -/
theorem wp_zappingRounds (h : u.Holds cnt q.uri) :
    uriRules.wp (fun _ q' => u.Zaps cnt rounds q q') (zappingRoundsOf u b cnt rounds) q := by
  induction rounds generalizing cnt q with
  | zero => exact .nothing h.mono rfl
  | succ rounds ih =>
      have hnothing : u.Zaps cnt (rounds + 1) q q := .nothing h.mono rfl
      unfold zappingRoundsOf
      refine returns_setPipelineState_uri.seq fun stopped _ => ?_
      refine wp_ite (fun _ => hnothing) fun _ => ?_
      refine returns_destroyPipeline_uri.seq fun destroyed _ => ?_
      refine wp_ite (fun _ => hnothing) fun _ => ?_
      refine wp_bind.mpr ⟨.inl u.uriToPlay_length.le, fun r _ => ?_⟩
      have hcopied : uriRules.next q (.player (.memcpyUri (u.uriToPlay cnt))) r =
          ⟨u.uriToPlay cnt ++ q.uri.drop (u.uriToPlay cnt).length, q.handed⟩ := by
        simp [uriRules, Call.uriAfter, PlayerCall.uriAfter, Call.handsOver, PlayerCall.handsOver]
      rw [hcopied]
      refine wp_seq wp_createPipeline_uri fun created q₁ hq₁ => wp_ite (fun hcreated => ?_) ?_
      · -- the URL may have been handed over before something else failed
        rcases hq₁ with rfl | ⟨-, rfl⟩
        · exact .next h.tuned_iff rfl (.nothing h.copy.mono rfl)
        · exact .nothing h.copy.mono rfl
      · intro hcreated
        obtain rfl := hq₁.resolve_right fun hfailed => hcreated hfailed.1
        refine returns_setPipelineState_uri.seq fun playing _ => wp_ite (fun _ => ?_) fun _ => ?_
        · exact .next h.tuned_iff rfl (.nothing h.copy.mono rfl)
        · have hsleep : (PlayerCall.sleep ZAPPING_INTERVAL_IN_SEC).LeavesUri :=
            ⟨rfl, fun _ => rfl, rfl⟩
          refine wp_neutral (.inl (Nat.zero_le _)) (next_leavesUri hsleep) fun _ _ => ?_
          exact wp_mono (fun _ q' hq' => .next h.tuned_iff rfl hq') (ih h.copy)

end Urls

/-! ### The start -/

/-- Before `main`, and after `player_init`: zeros, and nothing handed over. -/
def UriLog.clear : UriLog := ⟨List.replicate 256 '\x00', []⟩

theorem next_memsetUri (r : Unit) : uriBodyRules.next .clear (.memsetUri 256) r = .clear := by
  show (⟨List.replicate 256 '\x00' ++ (List.replicate 256 '\x00').drop 256, []⟩ : UriLog) = .clear
  rw [List.drop_replicate, Nat.sub_self, List.replicate_zero, List.append_nil]
  rfl

theorem wp_playerInit_uri : uriBodyRules.wp (fun _ q' => q' = .clear) playerInit .clear := by
  unfold playerInit
  iterate 18 refine wp_leavesUri ⟨rfl, fun _ => rfl, rfl⟩ fun _ => ?_
  refine wp_neutral (.inr rfl) next_memsetUri fun _ _ => ?_
  iterate 2 refine wp_leavesUri ⟨rfl, fun _ => rfl, rfl⟩ fun _ => ?_
  exact ⟨.inl (Nat.zero_le _), fun _ _ => rfl⟩

/-- What the start leaves: the first URL in the buffer, handed over once at most. -/
structure Urls.Starts (u : Urls) (q' : UriLog) : Prop where
  holds : u.Holds 0 q'.uri
  tuned : ∀ uri ∈ q'.handed, Tuned uri u.chan1

/-- **The start** leaves in the buffer what a first command is to find, and hands over nothing but
the first URL, whether or not it gets as far as the main loop. -/
theorem wp_startUp {u : Urls} {b : Build} :
    uriRules.wp (fun _ q' => u.Starts q') (startUp u b) .clear := by
  have hfilled : CString.Filled '\x00' 256 0 UriLog.clear.uri :=
    ⟨Nat.zero_le _, [], rfl, List.not_mem_nil, rfl⟩
  have hchan1 := u.chan1_length
  have htuned : Tuned (u.chan1 ++ UriLog.clear.uri.drop u.chan1.length) u.chan1 :=
    (Urls.tuned_copy_iff hfilled (by decide) u.chan1_text u.chan1_length).mpr (Nat.zero_le _)
  have hholds : u.Holds 0 (u.chan1 ++ UriLog.clear.uri.drop u.chan1.length) :=
    ⟨_, hfilled.copy u.chan1_text (by omega), by omega, by omega, nofun⟩
  have hlift {α : Type} {q : UriLog} {p : Action α} (hp : p.Calls PlayerCall.LeavesUri) :
      uriRules.Returns q (liftM p : Routine α) := wp_mapCall.mpr (returns_leavesUri hp)
  unfold startUp
  refine (hlift (calls_lift.mpr ⟨rfl, fun _ => rfl, rfl⟩)).seq fun _ _ => ?_
  refine wp_seq (wp_mapCall.mpr wp_playerInit_uri) ?_
  rintro _ _ rfl
  refine wp_bind.mpr ⟨.inl u.chan1_length.le, fun r _ => ?_⟩
  show uriRules.wp _ _ ⟨u.chan1 ++ UriLog.clear.uri.drop u.chan1.length, []⟩
  refine wp_neutral (.inl (Nat.zero_le _)) (fun _ => rfl) fun loop _ => ?_
  refine (hlift (calls_lift.mpr ⟨rfl, fun _ => rfl, rfl⟩)).seq fun _ _ => ?_
  refine (hlift leavesUri_createKeyboardTask).seq fun _ _ => ?_
  refine wp_seq wp_createPipeline_uri fun created q' hq' => ?_
  have hstarts : u.Starts q' := by
    rcases hq' with rfl | ⟨-, rfl⟩
    · exact ⟨hholds, by simpa using htuned⟩
    · exact ⟨hholds, nofun⟩
  refine wp_ite (fun _ => hstarts) fun _ => ?_
  exact returns_setPipelineState_uri.seq fun _ _ => wp_ite (fun _ => hstarts) fun _ => hstarts

/-- `player_init` writes 256 bytes in every execution of the start, as no call before it can make
`main` return. -/
theorem memsetUri_mem_startUp {u : Urls} {b : Build} {t : Thread} {s s' : Shared}
    {tr : Trace Call Call.Resp} {r : Bool}
    (h : Exec (Shared.PerformsCall t) s (startUp u b) tr r s') :
    ∃ x ∈ tr, x.1 = .player (.memsetUri 256) := by
  let rules : Discipline Call Call.Resp (Account ℕ) :=
    accounts (fun _ _ => 0) fun c _ => c = .player (.memsetUri 256)
  have hinit : ∀ q, rules.wp (fun _ q' => q'.noted) (liftM playerInit : Routine Unit) q := by
    intro q
    refine wp_mapCall.mpr ?_
    unfold playerInit
    iterate 18 refine wp_bind.mpr ⟨trivial, fun _ _ => ?_⟩
    exact wp_bind.mpr ⟨trivial, fun _ _ => wp_noted (.inr rfl)⟩
  have hwp : rules.wp (fun _ q' => q'.noted) (startUp u b) ⟨0, False⟩ := by
    unfold startUp
    exact wp_bind.mpr ⟨trivial, fun _ _ => wp_seq (hinit _) fun _ _ hq => wp_noted hq⟩
  exact settle h hwp

/-! ### The system -/

/-- What the start or a command of the user has done: its calls, and the URL it was to tune to
in each round. -/
structure Segment where
  selected : ℕ → List Char
  trace : Trace Call Call.Resp

namespace Segment

/-- The buffers handed over in the segment, in order: at most one for each pipeline that it creates.
-/
def uris (seg : Segment) : List (List Char) := handed seg.trace

/-- The buffer handed over in each round holds the URL of the round.  A segment that failed early
has fewer rounds. -/
def TunesToSelected (seg : Segment) : Prop :=
  ∀ i uri, seg.uris[i]? = some uri → Tuned uri (seg.selected i)

/-- No call writes behind the 255 bytes that the buffer has, whether the bytes matter or not. -/
def WritesInside (seg : Segment) : Prop := ∀ x ∈ seg.trace, x.1.uriWritten ≤ 255

end Segment

/-- What is shared, whether the main loop runs, and what has been done: the segments, in order. -/
structure Tuner where
  shared : Shared
  running : Bool
  start : Segment
  commands : List Segment

/-- A command of `loop` rounds.  It comes from the keyboard task, and does not overlap with
another operation. -/
inductive Tuner.Step (u : Urls) (b : Build) : Tuner → ℕ → Tuner → Prop
  | zapping {s s' : Shared} {start : Segment} {commands : List Segment} {loop : ℕ}
      {tr : Trace Call Call.Resp} {r : Bool} :
      Exec (Shared.PerformsCall .keyboard) s (zappingRoundsOf u b 0 loop) tr r s' →
      Tuner.Step u b ⟨s, true, start, commands⟩ loop
        ⟨s', true, start, commands ++ [⟨u.uriToPlay, tr⟩]⟩

/-- The player started, and commands of any number of rounds, each of them an execution with any
responses. -/
def tuner (u : Urls) (b : Build) : LTS Tuner ℕ where
  init s := s.commands = [] ∧ ∃ tr,
    Exec (Shared.PerformsCall .main) .initial (startUp u b) tr s.running s.shared ∧
      s.start = ⟨fun _ => u.chan1, tr⟩
  step := Tuner.Step u b

section Tuner

variable {u : Urls} {b : Build} {s₀ s s' : Tuner} {loop : ℕ} {loops : List ℕ}

/-- What holds of a command: it plays what was selected exactly if no URL was shorter than the other
one, and nothing but `player_init` writes more than the buffer holds. -/
structure Segment.Zapped (u : Urls) (seg : Segment) : Prop where
  tunes : seg.TunesToSelected ↔ ∀ i < seg.uris.length, u.Covers i
  writes : ∀ x ∈ seg.trace, x.1.uriWritten ≤ 255 ∨ x.1 = .player (.memsetUri 256)

/-- An execution of a command, from a buffer that holds what the ones before have left: the buffer
holds as much for the next, and the command is as `Segment.Zapped` says. -/
theorem zapped_of_exec {t : Thread} {s s' : Shared} {tr : Trace Call Call.Resp} {r : Bool}
    (h : Exec (Shared.PerformsCall t) s (zappingRoundsOf u b 0 loop) tr r s')
    (hholds : u.Holds 0 s.player.uri) :
    u.Holds 0 s'.player.uri ∧ Segment.Zapped u ⟨u.uriToPlay, tr⟩ := by
  have hwp : uriRules.wp (fun _ q' => u.Zaps 0 loop ⟨s.player.uri, []⟩ q')
      (zappingRoundsOf u b 0 loop) ⟨s.player.uri, []⟩ := Urls.wp_zappingRounds hholds
  obtain ⟨hzaps, huri⟩ := sound honours_uriRules h hwp rfl
  obtain ⟨hholds', uris, huris, -, hplayed⟩ := hzaps
  rw [after_uriRules] at huris
  have heq : handed tr = uris := huris
  refine ⟨huri ▸ hholds', ⟨?_, fun x hx => ?_⟩⟩
  · simp only [Segment.TunesToSelected, Segment.uris, heq]
    have hround : ∀ i uri, uris[i]? = some uri → (Tuned uri (u.uriToPlay i) ↔ u.Covers i) := by
      simpa [Urls.Played] using hplayed
    constructor
    · intro htunes i hi
      have hi' : uris[i]? = some uris[i] := List.getElem?_eq_getElem hi
      exact (hround i _ hi').mp (htunes i _ hi')
    · intro hcovers i uri hi
      obtain ⟨hlt, -⟩ := List.getElem?_eq_some_iff.mp hi
      exact (hround i uri hi).mpr (hcovers i hlt)
  · obtain ⟨q', hallowed⟩ := allowed_of_exec honours_uriRules h hwp rfl x hx
    exact hallowed

/-- What holds of the start: it plays the first channel, and 256 bytes were cleared on the way. -/
structure Segment.Started (u : Urls) (seg : Segment) : Prop where
  tunes : seg.TunesToSelected
  writes : ∀ x ∈ seg.trace, x.1.uriWritten ≤ 255 ∨ x.1 = .player (.memsetUri 256)
  overruns : ∃ x ∈ seg.trace, x.1 = .player (.memsetUri 256)

/-- An execution of the start, from where `main` is called: it leaves in the buffer what a first
command is to find, and is as `Segment.Started` says. -/
theorem started_of_exec {t : Thread} {s' : Shared} {tr : Trace Call Call.Resp} {r : Bool}
    (h : Exec (Shared.PerformsCall t) .initial (startUp u b) tr r s') :
    u.Holds 0 s'.player.uri ∧ Segment.Started u ⟨fun _ => u.chan1, tr⟩ := by
  obtain ⟨hstarts, huri⟩ := sound honours_uriRules h (wp_startUp (u := u) (b := b)) rfl
  have hhanded : (uriRules.after .clear tr).handed = handed tr := after_uriRules
  refine ⟨huri ▸ hstarts.holds, ⟨?_, fun x hx => ?_, memsetUri_mem_startUp h⟩⟩
  · intro i uri hi
    apply hstarts.tuned
    rw [hhanded]
    exact List.mem_of_getElem? hi
  · obtain ⟨q', hallowed⟩ := allowed_of_exec honours_uriRules h wp_startUp rfl x hx
    exact hallowed

/-- What holds all the time: the invariant of the runs, from which the two results are read off. -/
structure Tuner.Follows (u : Urls) (s : Tuner) : Prop where
  holds : u.Holds 0 s.shared.player.uri
  started : s.start.Started u
  zapped : ∀ seg ∈ s.commands, seg.Zapped u

theorem Tuner.Follows.of_init (h : (tuner u b).init s) : s.Follows u := by
  obtain ⟨hcommands, tr, hexec, hstart⟩ := h
  obtain ⟨hholds, hstarted⟩ := started_of_exec hexec
  exact ⟨hholds, hstart ▸ hstarted, by simp [hcommands]⟩

/-- **One command** adds a segment to the ones there are, and leaves in the buffer what the next
command is to find. -/
theorem Tuner.Follows.step (h : s.Follows u) (hstep : (tuner u b).step s loop s') :
    s'.Follows u := by
  cases hstep with
  | zapping hexec =>
      obtain ⟨hholds, hzapped⟩ := zapped_of_exec hexec h.holds
      refine ⟨hholds, h.started, ?_⟩
      intro seg hseg
      rcases List.mem_append.mp hseg with hseg | hseg
      · exact h.zapped seg hseg
      · rw [List.mem_singleton.mp hseg]
        exact hzapped

/-- **The player never keeps within its 255 bytes**, and tunes to the URL it has selected just
if no URL is too short: in every run, for any two URLs and any commands, `player_init` writes
behind the buffer, which nothing else does; and what is handed over is the URL of the round
each time if and only if, where a command gets to hand over a URL, the first is not longer
than the second, and where it gets to hand over another, they have one length. -/
theorem selected_url_never_inside (u : Urls) (b : Build) (h₀ : (tuner u b).init s₀)
    (hrun : (tuner u b).Run s₀ loops s) :
    (¬ ((∀ seg ∈ s.start :: s.commands, seg.TunesToSelected) ∧
      ∀ seg ∈ s.start :: s.commands, seg.WritesInside)) ∧
      (∀ seg ∈ s.start :: s.commands, ∀ x ∈ seg.trace,
        255 < x.1.uriWritten → x.1 = .player (.memsetUri 256)) ∧
      ((∀ seg ∈ s.start :: s.commands, seg.TunesToSelected) ↔ ∀ seg ∈ s.commands,
        (0 < seg.uris.length → u.chan1.length ≤ u.chan2.length) ∧
          (1 < seg.uris.length → u.chan2.length ≤ u.chan1.length)) := by
  have hfollows : s.Follows u :=
    hrun.invariant (fun _ _ _ => Tuner.Follows.step) (Tuner.Follows.of_init h₀)
  refine ⟨?_, ?_, ?_⟩
  · rintro ⟨-, hinside⟩
    obtain ⟨x, hx, hmemset⟩ := hfollows.started.overruns
    have hle := hinside s.start (List.mem_cons_self ..) x hx
    rw [hmemset] at hle
    exact absurd hle (by decide)
  · intro seg hseg x hx hlt
    have hwrites : x.1.uriWritten ≤ 255 ∨ x.1 = .player (.memsetUri 256) := by
      rcases List.mem_cons.mp hseg with rfl | hseg
      · exact hfollows.started.writes x hx
      · exact (hfollows.zapped seg hseg).writes x hx
    exact hwrites.resolve_left (by omega)
  · rw [List.forall_mem_cons]
    constructor
    · rintro ⟨-, htunes⟩ seg hseg
      exact Urls.forall_covers_iff.mp ((hfollows.zapped seg hseg).tunes.mp (htunes seg hseg))
    · intro hcovers
      refine ⟨hfollows.started.tunes, fun seg hseg => ?_⟩
      exact (hfollows.zapped seg hseg).tunes.mpr (Urls.forall_covers_iff.mpr (hcovers seg hseg))

end Tuner

section TwoChannels

theorem longUrl_fits : "abc".toList.length < 255 ∧ '\x00' ∉ "abc".toList := by decide

theorem shortUrl_fits : "x".toList.length < 255 ∧ '\x00' ∉ "x".toList := by decide

/-- A channel and one with a shorter URL, of which the tail of the longer one shows. -/
def twoChannels : Urls :=
  ⟨"abc".toList, "x".toList, longUrl_fits.1, shortUrl_fits.1, longUrl_fits.2, shortUrl_fits.2⟩

/-- Run a routine of a thread in a world, for the witnesses: its calls, and the state behind them.
-/
def World.play (w : World) (t : Thread) {α : Type} (p : Routine α) (s : Shared) :
    Option (Trace Call Call.Resp × α × Shared) :=
  p.runWith w.reply (fun s c r => s.perform t c r) s

/-- The player started, and a command of two rounds: what the witness of the result is taken from.
-/
def twoRounds : Option ((Trace Call Call.Resp × Shared) × Trace Call Call.Resp × Shared) := do
  let (tr₀, started, s₀) ← kindWorld.play .main (startUp twoChannels subtitleBuild) .initial
  let (tr, _, s) ← kindWorld.play .keyboard (zappingRoundsOf twoChannels subtitleBuild 0 2) s₀
  if started = true then some ((tr₀, s₀), tr, s) else none

/-- What the two rounds hand over, read as strings.  The first is a URL that is neither of the two:
behind `x` stands what is left of `abc`. -/
theorem twoRounds_hands :
    twoRounds.any (fun r => (handed r.2.1).map (CString.string '\x00') ==
      ["xbc".toList, "abc".toList]) = true := by
  decide +kernel

/-- A run with this one command, of two rounds, and the strings that are handed over in it. -/
theorem twoRounds_run :
    ∃ s₀ s seg, (tuner twoChannels subtitleBuild).init s₀ ∧
      (tuner twoChannels subtitleBuild).Run s₀ [2] s ∧ s.commands = [seg] ∧
      seg.selected = twoChannels.uriToPlay ∧
      seg.uris.map (CString.string '\x00') = ["xbc".toList, "abc".toList] := by
  obtain ⟨⟨⟨tr₀, s₀⟩, tr, s⟩, hrounds, hhands⟩ := (Option.any_eq_true _ _).mp twoRounds_hands
  simp only [twoRounds, Option.bind_eq_bind, Option.bind_eq_some_iff, Prod.exists,
    Option.ite_none_right_eq_some] at hrounds
  obtain ⟨tr₀', _, s₀', h₀, tr', _, s', h, rfl, heq⟩ := hrounds
  cases heq
  have hinit : (tuner twoChannels subtitleBuild).init
      ⟨s₀, true, ⟨fun _ => twoChannels.chan1, tr₀⟩, []⟩ := ⟨rfl, tr₀, exec_runWith h₀, rfl⟩
  have hstep : (tuner twoChannels subtitleBuild).step
      ⟨s₀, true, ⟨fun _ => twoChannels.chan1, tr₀⟩, []⟩ 2
      ⟨s, true, ⟨fun _ => twoChannels.chan1, tr₀⟩, [⟨twoChannels.uriToPlay, tr⟩]⟩ :=
    .zapping (exec_runWith h)
  exact ⟨_, _, _, hinit, LTS.Run.nil.snoc hstep, rfl, rfl, eq_of_beq hhands⟩

/-- What is left of the longer URL is handed over behind the shorter one, so the player does not
always tune to what it has selected. -/
theorem shorter_url_keeps_tail :
    ¬ ∀ u b s₀ s loops, (tuner u b).init s₀ → (tuner u b).Run s₀ loops s →
      (∀ seg ∈ s.start :: s.commands, seg.TunesToSelected) ∧
        ∀ seg ∈ s.start :: s.commands, seg.WritesInside := by
  intro h
  obtain ⟨s₀, s, seg, h₀, hrun, hcommands, hselected, huris⟩ := twoRounds_run
  obtain ⟨htunes, -⟩ := h _ _ _ _ _ h₀ hrun
  have hseg : seg ∈ s.start :: s.commands := by simp [hcommands]
  obtain ⟨uri, hfirst, hstring⟩ : ∃ uri, seg.uris[0]? = some uri ∧
      CString.string '\x00' uri = "xbc".toList := by
    obtain ⟨uri, rest, heq, hstring, -⟩ := List.map_eq_cons_iff.mp huris
    exact ⟨uri, by rw [heq]; rfl, hstring⟩
  have htuned := (htunes seg hseg 0 uri hfirst).2
  rw [hstring, hselected] at htuned
  revert htuned
  decide

/-- The result at that run: it is not so that each URL is the selected one and no write is longer
than the buffer. -/
theorem shorter_url_never_inside :
    ∃ s₀ s, (tuner twoChannels subtitleBuild).init s₀ ∧
      (tuner twoChannels subtitleBuild).Run s₀ [2] s ∧
      ¬ ((∀ seg ∈ s.start :: s.commands, seg.TunesToSelected) ∧
        ∀ seg ∈ s.start :: s.commands, seg.WritesInside) := by
  obtain ⟨s₀, s, -, h₀, hrun, -⟩ := twoRounds_run
  exact ⟨s₀, s, h₀, hrun, (selected_url_never_inside twoChannels subtitleBuild h₀ hrun).1⟩

end TwoChannels

end LeipoCode.Player
