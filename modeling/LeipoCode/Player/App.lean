import LeipoCode.Player.Pipeline

/-!
# `gstrdk_app.c`

`main`, the function of the keyboard task, and the system the two threads form.

A step of the system is one call of one thread, so a run is any interleaving of the
two with any responses.  What the `GstTask` does around its function are steps of
their own: its thread takes the task's lock, runs the function again and again, and
gives the lock back once the task is stopped.  The process does not end with the
last step of `main` here: the keyboard task may take more.

### Running it

Concrete runs are followed by `State.follow`: a schedule says whose turn it is, and a `World` what
GStreamer and the keyboard answer.  Any schedule that can be followed is a run (`reachable_follow`),
so a state that takes some hundred calls to get to is reached by evaluating its schedule.  The
condition `p` on the calls is there for results about runs whose steps meet one: it is checked at
each call on the way.

### Disciplines along a run

What a thread still has to do is the rest of its program, so an invariant of runs is of two parts:
one about the state the threads share, and one that says of the rest of each program that it keeps a
discipline from where the thread stands (`State.Keeps`).  The lemmas at the end of this module are
what every such invariant needs, whatever the discipline: a call of the thread itself is one that it
allows and leaves it in its next state (`Step.keeps_self`), and a call of the other thread, or what
the task does around its function, leaves the rest of the program alone (`Step.keeps_other`,
`Step.keeps_task`).  What remains for a result is to show of each call that it does to the shared
state what the discipline expects.

`Serves` is a discipline as the keyboard task sees it: it may zap, any number of rounds, and stands
where it stood when it has done so.  So the loop of `handle_channel_zapping` is gone through once
and not for each discipline again.
-/

namespace LeipoCode.Player

/-! ### The application -/

/-- `ZAPPING_INTERVAL_IN_SEC`: how long a channel is shown between two rounds of zapping. -/
def ZAPPING_INTERVAL_IN_SEC : ℕ := 14

/-- `CHAN1_URL`, the channel `main` starts with: a file, or an address for one of the two elements.
-/
def Build.chan1Url (b : Build) : String :=
  if b.fileSupport then "dvbt_sub_ttx.ts"
  else if b.httpsrcSupport then
    "http://10.80.114.134:8080/vldms/tuner?ocap_locator=ocap://0x9D"
  else "http://10.80.114.232/dvbt_sub_ttx.ts"

/-- `CHAN2_URL`, the channel of the even rounds.  In two of the three cases it is the first one
again. -/
def Build.chan2Url (b : Build) : String :=
  if b.fileSupport then "dvbt_sub_ttx.ts"
  else if b.httpsrcSupport then
    "http://10.80.114.134:8080/vldms/tuner?ocap_locator=ocap://0x9E"
  else "http://10.80.114.232/dvbt_sub_ttx.ts"

/-- `player_init`, on the one player there is: the fields one by one, with the mutex and the address
as bytes in between.  The flag of the video pad is set twice, and the fields of the subtitles not at
all. -/
def playerInit : Action Unit := do
  store .mPipeline NULL
  store .mSource NULL
  store .mTee NULL
  store .mQueue NULL
  store .mSink NULL
  store .bus NULL
  call (.storeBusEventSourceId 0)
  store .demux NULL
  store .videoDecoder NULL
  store .videoSink NULL
  store .audioDecoder NULL
  store .audioSink NULL
  store .videoQueue NULL
  store .audioQueue NULL
  storePadLinked .audio false
  storePadLinked .video false
  storePadLinked .video false
  call .memsetMutex
  call (.memsetUri 256)
  store .mainLoop NULL
  store .inputTaskMutex NULL
  store .inputTask NULL

/-- The loop of `handle_channel_zapping`, with the rounds still to go.  A round takes the pipeline
down and builds it again for the other channel; the first operation that fails ends the loop. -/
def zappingRounds (b : Build) (zappingCnt : ℕ) : ℕ → Routine Bool
  | 0 => return true
  | rounds + 1 => do
      let stopped ← setPipelineState .null
      if stopped = false then
        return false
      let destroyed ← destroyPipeline b
      if destroyed = false then
        return false
      let uriToPlay := if zappingCnt % 2 = 0 then b.chan2Url else b.chan1Url
      call (.memcpyUri uriToPlay.toList)
      let created ← createPipeline b
      if created = false then
        return false
      let playing ← setPipelineState .playing
      if playing = false then
        return false
      call (.sleep ZAPPING_INTERVAL_IN_SEC)
      zappingRounds b (zappingCnt + 1) rounds

/-- `handle_channel_zapping`: so many rounds, counted from 0, unless one of them fails. -/
def handleChannelZapping (b : Build) (loop : ℕ) : Routine Bool :=
  zappingRounds b 0 loop

/-- The `switch` of `process_input_key_from_keyboard`: one key ends the application, and three zap,
the number of rounds being all that is different.  What a zapping returns is only printed. -/
def handleKey (b : Build) (mainLoop : Ptr) (c : Option Char) : Routine Unit :=
  if c = some 'q' then
    control (.mainLoopQuit mainLoop)
  else if c = some 'z' then do
    let _ ← handleChannelZapping b 100
    return ()
  else if c = some 'o' then do
    let _ ← handleChannelZapping b 999999
    return ()
  else if c = some 'k' then do
    let _ ← handleChannelZapping b 1
    return ()
  else
    return ()

/-- `process_input_key_from_keyboard`, the function of the keyboard task: while the main loop runs
it waits for a key and does what the key says. -/
def processInputKeyFromKeyboard (b : Build) : Routine Unit := do
  let mainLoop ← load .mainLoop
  let isRunning : Bool ← control (.mainLoopIsRunning mainLoop)
  if isRunning then
    let c : Option Char ← call .getchar
    handleKey b mainLoop c

/-- The part of `main` that creates the keyboard task.  It is started only if there is memory for it
and its mutex. -/
def createKeyboardTask : Action Unit := do
  let mutex : Ptr ← call .recMutexNew
  store .inputTaskMutex mutex
  let task : Ptr ← call .taskCreate
  store .inputTask task
  let _ ← untested (.objectSetName task "gst-rdk-keyb")
  if mutex ≠ NULL ∧ task ≠ NULL then
    recMutex .init .inputTaskMutex
    untested (.taskSetLock task mutex)
    call (.taskStart task)

/-- The part of `main` that waits for the keyboard task to be over, whether or not there is one. -/
def joinKeyboardTask : Action Unit := do
  let task ← load .inputTask
  call (.taskStop task)
  recMutex .lock .inputTaskMutex
  recMutex .unlock .inputTaskMutex
  call (.taskJoin task)
  objectUnref task
  recMutex .free .inputTaskMutex

/-- `main`, with the status it returns: it starts the player and the keyboard task, runs the main
loop until a key ends it, and takes everything down.  After an operation that has failed it returns
at once. -/
def main (b : Build) : Routine ℕ := do
  let _ ← untested .initCheck
  playerInit
  call (.memcpyUri b.chan1Url.toList)
  let loop : Ptr ← control .mainLoopNew
  store .mainLoop loop
  createKeyboardTask
  let created ← createPipeline b
  if created = false then
    return 1
  let playing ← setPipelineState .playing
  if playing = false then
    return 1
  let mainLoop ← load .mainLoop
  control (.mainLoopRun mainLoop)
  control .mainLoopRunReturns
  let stopped ← setPipelineState .null
  if stopped = false then
    return 1
  joinKeyboardTask
  let destroyed ← destroyPipeline b
  if destroyed = false then
    return 1
  return 0

/-! ### The system of the two threads -/

/-- What the threads share, and what each still has to do: a thread between two calls is the rest of
its program. -/
structure State where
  shared : Shared
  main : Routine ℕ
  keyboard : Routine Unit

/-- The process has just started: `main` is at its beginning, and the keyboard task has nothing to
do yet. -/
def start (b : Build) : State where
  shared := .initial
  main := main b
  keyboard := return ()

/-- What the thread of the keyboard task does around the task's function: it takes the lock, runs
the function once more, or gives the lock back for good. -/
inductive TaskEvent
  | begins
  | iterates
  | ends
deriving DecidableEq, Repr

/-- What a step shows of itself: the call a thread makes and what it returns, or what
the task does around its function. -/
inductive Label
  | act (t : Thread) (c : Call) (r : c.Resp)
  | task (e : TaskEvent)

/-- The steps of the application: the next call of a thread, with a response that the shared state
allows; or what the task does around its function.  A thread whose call blocks has no step until
another one has made room for it. -/
inductive Step (b : Build) : State → Label → State → Prop
  | main {s : State} {c : Call} {k : c.Resp → Routine ℕ} {r : c.Resp} {sh : Shared} :
      s.main = .call c k → s.shared.perform .main c r = some sh →
      Step b s (.act .main c r) { s with shared := sh, main := k r }
  | keyboard {s : State} {c : Call} {k : c.Resp → Routine Unit} {r : c.Resp} {sh : Shared} :
      s.keyboard = .call c k → s.shared.perform .keyboard c r = some sh →
      Step b s (.act .keyboard c r) { s with shared := sh, keyboard := k r }
  | begins {s : State} {m : RecMutex} :
      s.shared.task = .starting → s.shared.inputTaskMutex.perform .keyboard .lock = some m →
      Step b s (.task .begins)
        { s with shared := { s.shared with task := .running, inputTaskMutex := m } }
  | iterates {s : State} :
      s.shared.task = .running → s.shared.stopped = false → s.keyboard = .pure () →
      Step b s (.task .iterates) { s with keyboard := processInputKeyFromKeyboard b }
  | ends {s : State} {m : RecMutex} :
      s.shared.task = .running → s.shared.stopped = true → s.keyboard = .pure () →
      s.shared.inputTaskMutex.perform .keyboard .unlock = some m →
      Step b s (.task .ends)
        { s with shared := { s.shared with task := .ended, inputTaskMutex := m } }

/-- The application: the two threads from the start of the process on, in any interleaving and with
any responses. -/
def player (b : Build) : LTS State Label where
  init s := s = start b
  step := Step b

/-! ### Running the application -/

/-- A result of a GStreamer call that succeeded, or of one that did not.  Any object will do for a
pointer. -/
def Kind.value (ok : Bool) : (k : Kind) → k.Val
  | .void => ()
  | .pointer => if ok then .obj 3 else NULL
  | .gboolean => ok
  | .guint => 1
  | .stateChange => if ok then .success else .failure

/-- A world to run the application in: the GStreamer calls that do not succeed, and the key that is
pressed.  Its answers are among those that `perform` allows. -/
structure World where
  fails : GstCall → Bool
  key : Option Char

/-- What a call returns in such a world: what was stored, where the call reads, and else what the
world says. -/
def World.reply (w : World) (s : Shared) : (c : Call) → c.Resp
  | .player (.load f) => s.player.ptr f
  | .player .loadBusEventSourceId => s.player.mBusEventSourceId
  | .player .loadUri => s.player.uri
  | .player .recMutexNew => .obj 1
  | .player .taskCreate => .obj 2
  | .player .getchar => w.key
  | .player (.gst g _) => g.kind.value !(w.fails g)
  | .player (.store _ _) | .player (.storeBusEventSourceId _) | .player (.storePadLinked _ _)
  | .player (.memsetUri _) | .player (.memcpyUri _) | .player .memsetMutex
  | .player (.recMutex _ _) | .player (.taskStart _) | .player (.taskStop _)
  | .player (.taskJoin _) | .player (.sleep _) => ()
  | .control .mainLoopNew => .obj 0
  | .control (.mainLoopIsRunning loop) => s.mainLoop.isRunning && loop == s.mainLoop.object
  | .control (.enter _) | .control (.leave _ _) | .control (.mainLoopRun _)
  | .control .mainLoopRunReturns | .control (.mainLoopQuit _) => ()

/-- The call a thread is at, if it has not come to its end.  It may have to wait for it. -/
def State.call (s : State) : Thread → Option Call
  | .main => s.main.next
  | .keyboard => s.keyboard.next

/-- What can be seen of a thread: the call it is at, the operation it is inside of, how often
it holds the mutex and how often it did on entry. -/
def State.observe (s : State) (t : Thread) : Option Call × Option Op × ℕ × ℕ :=
  (s.call t, s.shared.inside t, s.shared.hold t, s.shared.entryHold t)

/-- Whose turn it is: a thread makes its next call, or the task does something around its
function. -/
inductive Turn
  | call (t : Thread)
  | task (e : TaskEvent)
deriving DecidableEq, Repr

/-- One turn, in which a thread only makes a call that satisfies `p`.  It fails if the call blocks,
or the turn is not to be had in that state. -/
def State.turn (b : Build) (w : World) (p : Shared → Call → Bool) (s : State) :
    Turn → Option State
  | .call .main =>
      match s.main with
      | .pure _ => none
      | .call c k =>
          let r := w.reply s.shared c
          if p s.shared c then
            (s.shared.perform .main c r).map fun sh => { s with shared := sh, main := k r }
          else none
  | .call .keyboard =>
      match s.keyboard with
      | .pure _ => none
      | .call c k =>
          let r := w.reply s.shared c
          if p s.shared c then
            (s.shared.perform .keyboard c r).map fun sh => { s with shared := sh, keyboard := k r }
          else none
  | .task .begins =>
      if s.shared.task = .starting then
        (s.shared.inputTaskMutex.perform .keyboard .lock).map fun m =>
          { s with shared := { s.shared with task := .running, inputTaskMutex := m } }
      else none
  | .task .iterates =>
      if s.shared.task = .running ∧ s.shared.stopped = false ∧ s.keyboard.next.isNone then
        some { s with keyboard := processInputKeyFromKeyboard b }
      else none
  | .task .ends =>
      if s.shared.task = .running ∧ s.shared.stopped = true ∧ s.keyboard.next.isNone then
        (s.shared.inputTaskMutex.perform .keyboard .unlock).map fun m =>
          { s with shared := { s.shared with task := .ended, inputTaskMutex := m } }
      else none

/-- The turns of a schedule, one after the other.  If none fails, this is a run
(`reachable_follow`). -/
def State.follow (b : Build) (w : World) (p : Shared → Call → Bool) :
    List Turn → State → Option State
  | [], s => some s
  | turn :: turns, s => (s.turn b w p turn).bind (State.follow b w p turns)

/-- The next `n` calls of a thread, as a schedule: the witnesses are put together from such ones. -/
def calls (t : Thread) (n : ℕ) : List Turn := List.replicate n (.call t)

section Follow

variable {b : Build} {w : World} {p : Shared → Call → Bool} {s s' : State}

/-- A thread takes the step of the call it is at, if the shared state allows the call to return `r`,
and what is shared afterwards is what the call has made of it. -/
theorem State.step_of_call {t : Thread} {c : Call} {r : c.Resp} {sh : Shared}
    (h : s.call t = some c) (hperf : s.shared.perform t c r = some sh) :
    ∃ s', Step b s (.act t c r) s' ∧ s'.shared = sh := by
  cases t with
  | main =>
      obtain ⟨k, hprog⟩ := Prog.eq_call_of_next h
      exact ⟨_, .main hprog hperf, rfl⟩
  | keyboard =>
      obtain ⟨k, hprog⟩ := Prog.eq_call_of_next h
      exact ⟨_, .keyboard hprog hperf, rfl⟩

/-- A turn is a step of the application: a call that satisfies `p`, with the response of this
world, or something the task does around its function. -/
theorem Step.of_turn {turn : Turn} (h : s.turn b w p turn = some s') :
    (∃ t c, p s.shared c = true ∧ Step b s (.act t c (w.reply s.shared c)) s') ∨
      ∃ e, Step b s (.task e) s' := by
  cases turn with
  | call t =>
      left
      cases t with
      | main =>
          cases hprog : s.main with
          | pure a => simp [State.turn, hprog] at h
          | call c k =>
              simp only [State.turn, hprog, Option.ite_none_right_eq_some] at h
              obtain ⟨hp, h⟩ := h
              obtain ⟨sh, hperf, rfl⟩ := Option.map_eq_some_iff.mp h
              exact ⟨.main, c, hp, .main hprog hperf⟩
      | keyboard =>
          cases hprog : s.keyboard with
          | pure a => simp [State.turn, hprog] at h
          | call c k =>
              simp only [State.turn, hprog, Option.ite_none_right_eq_some] at h
              obtain ⟨hp, h⟩ := h
              obtain ⟨sh, hperf, rfl⟩ := Option.map_eq_some_iff.mp h
              exact ⟨.keyboard, c, hp, .keyboard hprog hperf⟩
  | task e =>
      refine .inr ⟨e, ?_⟩
      cases e with
      | begins =>
          simp only [State.turn, Option.ite_none_right_eq_some] at h
          obtain ⟨htask, h⟩ := h
          obtain ⟨m, hlock, rfl⟩ := Option.map_eq_some_iff.mp h
          exact .begins htask hlock
      | iterates =>
          simp only [State.turn, Option.ite_none_right_eq_some] at h
          obtain ⟨⟨htask, hstopped, hdone⟩, h⟩ := h
          cases h
          obtain ⟨_, hprog⟩ := Prog.eq_pure_of_next hdone
          exact .iterates htask hstopped hprog
      | ends =>
          simp only [State.turn, Option.ite_none_right_eq_some] at h
          obtain ⟨⟨htask, hstopped, hdone⟩, h⟩ := h
          obtain ⟨m, hunlock, rfl⟩ := Option.map_eq_some_iff.mp h
          obtain ⟨_, hprog⟩ := Prog.eq_pure_of_next hdone
          exact .ends htask hstopped hprog hunlock

/-- A schedule is a run: the state it leads to is reachable by steps that satisfy `P`, where `p`,
which is checked at each call of the schedule, is enough for `P`. -/
theorem reachable_follow {P : State → Label → Prop}
    (hcall : ∀ s t c, p s.shared c = true → P s (.act t c (w.reply s.shared c)))
    (htask : ∀ s e, P s (.task e)) {turns : List Turn}
    (hs : ((player b).restrict P).Reachable s) (h : s.follow b w p turns = some s') :
    ((player b).restrict P).Reachable s' := by
  induction turns generalizing s with
  | nil =>
      cases h
      exact hs
  | cons turn turns ih =>
      obtain ⟨u, hu, h⟩ := Option.bind_eq_some_iff.mp h
      refine ih ?_ h
      obtain ⟨t, c, hp, hstep⟩ | ⟨e, hstep⟩ := Step.of_turn hu
      · exact hs.step ⟨hcall s t c hp, hstep⟩
      · exact hs.step ⟨htask s e, hstep⟩

end Follow

/-! ### The keyboard task under a discipline -/

open Discipline

/-- In `q` a thread may call the three operations and what `handle_channel_zapping` calls between
them, and is in `q` again when they have returned.  A rule that serves is kept by the keyboard task
if its loop test and its key are. -/
structure Serves {Q : Type} (D : Discipline Call Call.Resp Q) (b : Build) (q : Q) : Prop where
  createPipeline : D.Returns q (createPipeline b)
  destroyPipeline : D.Returns q (destroyPipeline b)
  setPipelineState : ∀ state, D.Returns q (setPipelineState state)
  memcpyUri : ∀ bytes, D.Returns q (liftM (call (.memcpyUri bytes)) : Routine Unit)
  sleep : ∀ seconds, D.Returns q (liftM (call (.sleep seconds)) : Routine Unit)

section Serves

variable {Q : Type} {D : Discipline Call Call.Resp Q} {b : Build} {q : Q}

/-- **The zapping loop** ends where it started, after any number of rounds and whichever
of its steps fails. -/
theorem Serves.zappingRounds (h : Serves D b q) (cnt rounds : ℕ) :
    D.Returns q (zappingRounds b cnt rounds) := by
  induction rounds generalizing cnt with
  | zero => exact Gives.pure trivial
  | succ rounds ih =>
      unfold LeipoCode.Player.zappingRounds
      refine (h.setPipelineState .null).seq fun stopped _ => ?_
      refine wp_ite (fun _ => ⟨trivial, rfl⟩) fun _ => ?_
      refine h.destroyPipeline.seq fun destroyed _ => ?_
      refine wp_ite (fun _ => ⟨trivial, rfl⟩) fun _ => ?_
      refine (h.memcpyUri _).seq fun _ _ => ?_
      refine h.createPipeline.seq fun created _ => ?_
      refine wp_ite (fun _ => ⟨trivial, rfl⟩) fun _ => ?_
      refine (h.setPipelineState .playing).seq fun playing _ => ?_
      refine wp_ite (fun _ => ⟨trivial, rfl⟩) fun _ => ?_
      -- the state is the one of the round before, so the induction is on the rounds alone
      exact (h.sleep _).seq fun _ _ => ih (cnt + 1)

/-- Every key but `q` leaves the thread where it was, after as many rounds of zapping as it asks
for; `q` is the one call that is left to be looked at. -/
theorem Serves.handleKey (h : Serves D b q) {post : Unit → Q → Prop} {mainLoop : Ptr}
    (hquit : D.wp post (control (.mainLoopQuit mainLoop)) q) (hpost : post () q)
    (c : Option Char) : D.wp post (handleKey b mainLoop c) q := by
  have hzap (n : ℕ) : D.wp post (do let _ ← handleChannelZapping b n; return ()) q :=
    (h.zappingRounds 0 n).seq fun _ _ => hpost
  unfold LeipoCode.Player.handleKey
  refine wp_ite (fun _ => hquit) fun _ => wp_ite (fun _ => hzap 100) fun _ => ?_
  exact wp_ite (fun _ => hzap 999999) fun _ => wp_ite (fun _ => hzap 1) fun _ => hpost

end Serves

/-! ### Disciplines along a run -/

/-- What the thread still has to do obeys `D`, and ends in a state that is `idle`. -/
def State.Keeps {Q : Type} (s : State) (D : Discipline Call Call.Resp Q) (idle : Q → Prop) :
    Thread → Q → Prop
  | .main, q => D.wp (fun _ q' => idle q') s.main q
  | .keyboard, q => D.wp (fun _ q' => idle q') s.keyboard q

section Keeps

variable {Q : Type} {D : Discipline Call Call.Resp Q} {idle : Q → Prop} {b : Build}
  {s s' : State} {t : Thread} {c : Call} {r : c.Resp} {q : Q}

theorem Step.perform (h : Step b s (.act t c r) s') :
    s.shared.perform t c r = some s'.shared := by
  cases h with
  | main _ hs => exact hs
  | keyboard _ hs => exact hs

/-- A call of the thread itself is one its discipline allows, and leaves it in the next
state of the discipline. -/
theorem Step.keeps_self (h : Step b s (.act t c r) s') (hk : s.Keeps D idle t q) :
    D.allowed q c ∧ (D.granted q c r → s'.Keeps D idle t (D.next q c r)) := by
  cases h with
  | main hprog _ =>
      simp only [State.Keeps, hprog] at hk
      exact ⟨hk.1, hk.2 r⟩
  | keyboard hprog _ =>
      simp only [State.Keeps, hprog] at hk
      exact ⟨hk.1, hk.2 r⟩

/-- A call of the other thread leaves alone what this one still has to do, so this one keeps its
discipline from the same state. -/
theorem Step.keeps_other (h : Step b s (.act t c r) s') (hk : s.Keeps D idle t.other q) :
    s'.Keeps D idle t.other q := by
  cases h with
  | main _ _ => exact hk
  | keyboard _ _ => exact hk

/-- Around its function the task moves neither thread nor the main loop, and touches
nothing of the player. -/
theorem Step.task_frame {e : TaskEvent} (h : Step b s (.task e) s') :
    s'.shared.player = s.shared.player ∧ s'.shared.mainLoop = s.shared.mainLoop ∧
      s'.shared.phase = s.shared.phase ∧ s'.shared.inside = s.shared.inside ∧
      s'.shared.entryHold = s.shared.entryHold := by
  cases h <;> exact ⟨rfl, rfl, rfl, rfl, rfl⟩

/-- What the task does around its function keeps a discipline that allows the function
to be run again. -/
theorem Step.keeps_task {e : TaskEvent} (h : Step b s (.task e) s')
    (hagain : t = .keyboard → idle q →
      D.wp (fun _ q' => idle q') (processInputKeyFromKeyboard b) q)
    (hk : s.Keeps D idle t q) : s'.Keeps D idle t q := by
  cases t with
  | main => cases h <;> exact hk
  | keyboard =>
      cases h with
      | begins _ _ => exact hk
      | iterates _ _ hdone =>
          simp only [State.Keeps, hdone] at hk
          exact hagain rfl hk
      | ends _ _ _ _ => exact hk

end Keeps

end LeipoCode.Player
