import LeipoCode.Lib.LTS
import LeipoCode.Lib.Prog
import Mathlib.Data.Int.Notation

/-!
# The player of `gst-stmfrdk`: its two threads and what they share

The application has a main thread and a keyboard task.  Both are sequential
programs (`LeipoCode.Lib.Prog`) over the calls below: reads and writes of the one
`STGstPlayer`, the calls into GLib that the other thread can notice, and the calls
into GStreamer.

* **GStreamer is outside.**  A GStreamer call may return anything of its type; each
  occurrence carries a flag that says whether the program tests the result.
* **GLib is modelled as documented.**  A `GStaticRecMutex` is recursive and blocks
  every other thread; `g_main_loop_is_running` is true from the entry of
  `g_main_loop_run` to `g_main_loop_quit`; `g_main_loop_run` returns only when it is
  false; a `GstTask` calls its function again and again under its lock until it is
  stopped, and `gst_task_join` waits for it.
* `enter` and `leave` are not calls of the program: they mark where
  `create_pipeline`, `destroy_pipeline` and `set_pipeline_state` are entered and
  left, with the value returned.

Messages printed are left out, and so is `handleBusMessage`, which only prints.  The other
callback is in `LeipoCode.Player.PadAdded`: what it sets no function here reads.

### What is load-bearing

What a GStreamer call returns is left open, and so is what it does to the fields it is not given: no
result below rests on GStreamer behaving well, unless it says so in a hypothesis on the responses.
What GLib does is not left open.  That a recursive mutex blocks the other thread, that the running
flag is set by `g_main_loop_run` and taken away by `g_main_loop_quit` alone, and that
`gst_task_join` waits, is what the threads are kept apart by, and it is all in `performPlayer` and
`performControl`.

The state has a few things that the program does not have: which operation a thread is inside of
(`inside`), how often it held the mutex when it entered (`entryHold`), and whether the main thread
is before, in or behind the main loop (`phase`).  No call reads the first two, and the last one only
tells where `main` is; they are there to state results with.
-/

namespace LeipoCode.Player

/-! ### Values -/

/-- A pointer: null, or the address of an object.  That two objects have different addresses is all
that is known of an address. -/
inductive Ptr
  | null
  | obj (id : ℕ)
deriving DecidableEq, Repr

/-- `NULL`, as GLib writes it, and what a function that makes an object returns when it cannot. -/
abbrev NULL : Ptr := .null

/-- The two threads: the one that runs `main`, and the one of the `GstTask`.  GStreamer has threads
of its own, which do not touch the player but for the callback of `PadAdded`. -/
inductive Thread
  | main
  | keyboard
deriving DecidableEq, Repr

/-- The other one of the two, from which a mutex keeps a thread apart; there is no third. -/
def Thread.other : Thread → Thread
  | .main => .keyboard
  | .keyboard => .main

theorem Thread.eq_or_eq_other (t t' : Thread) : t' = t ∨ t' = t.other := by
  cases t <;> cases t' <;> decide

/-- The three functions that work on the pipeline.  Each of them is called by both threads. -/
inductive Op
  | createPipeline
  | destroyPipeline
  | setPipelineState
deriving DecidableEq, Repr

/-- `GstState`, as far as it is asked for: a pipeline is set to these two, and to no other. -/
inductive GstState
  | null
  | playing
deriving DecidableEq, Repr

/-- `GstStateChangeReturn`; `unknown` is what falls to the default of a `switch`. -/
inductive GstStateChangeReturn
  | failure
  | success
  | async
  | noPreroll
  | unknown
deriving DecidableEq, Repr

/-- `GstPadDirection`: a ghost pad of a bin is an entry or an exit of it. -/
inductive GstPadDirection
  | src
  | sink
deriving DecidableEq, Repr

/-- The value of a property given to `g_object_set`, whose type is that of the property. -/
inductive Value
  | int (n : ℕ)
  | bool (b : Bool)
  | str (s : List Char)
deriving DecidableEq, Repr

/-! ### Recursive mutexes -/

/-- A `GStaticRecMutex`: free, or locked `extra + 1` times by one thread.  That a free mutex is
locked no times and a locked one at least once is so by construction. -/
inductive RecMutex
  | free
  | locked (owner : Thread) (extra : ℕ)
deriving DecidableEq, Repr

/-- The `g_static_rec_mutex_...` functions that the application calls.  Only `lock` may block. -/
inductive MutexOp
  | init
  | lock
  | unlock
  | free
deriving DecidableEq, Repr

namespace RecMutex

/-- How many times does the thread hold the mutex?  It is this number that the two sides of a
balance compare, for the mutex may be taken by a thread that has it already. -/
def holds (m : RecMutex) (t : Thread) : ℕ :=
  match m with
  | .free => 0
  | .locked owner extra => if owner = t then extra + 1 else 0

/-- A call on the mutex by a thread; nothing if it blocks, as
`g_static_rec_mutex_lock` does while another thread is the owner. -/
def perform (m : RecMutex) (t : Thread) : MutexOp → Option RecMutex
  | .init => some .free
  | .lock =>
      match m with
      | .free => some (.locked t 0)
      | .locked owner extra => if owner = t then some (.locked t (extra + 1)) else none
  | .unlock =>
      match m with
      | .locked owner (extra + 1) => some (.locked owner extra)
      | _ => some .free
  -- releases what the mutex allocated, which says nothing about its owner
  | .free => some m

variable {m m' : RecMutex} {t : Thread}

@[simp] theorem holds_free (t : Thread) : RecMutex.free.holds t = 0 := rfl

/-- A lock counts once more for the thread that took it, and is not counted for the other. -/
theorem holds_of_lock (h : m.perform t .lock = some m') :
    m'.holds t = m.holds t + 1 ∧ m'.holds t.other = m.holds t.other := by
  cases m with
  | free =>
      cases h
      cases t <;> decide
  | locked owner extra =>
      simp only [perform, Option.ite_none_right_eq_some, Option.some.injEq] at h
      obtain ⟨rfl, rfl⟩ := h
      cases owner <;> simp [holds, Thread.other]

/-- An unlock by a thread that holds the mutex takes one of its locks back, and none of the other
thread. -/
theorem holds_of_unlock (hpos : 0 < m.holds t) (h : m.perform t .unlock = some m') :
    m'.holds t = m.holds t - 1 ∧ m'.holds t.other = m.holds t.other := by
  cases m with
  | free => exact absurd hpos (Nat.lt_irrefl 0)
  | locked owner extra =>
      have howner : owner = t := by
        by_contra hne
        simp [holds, hne] at hpos
      subst howner
      cases extra <;> cases h <;> cases owner <;> simp [holds, Thread.other]

end RecMutex

/-! ### The player structure -/

/-- The pointer fields of `STGstPlayer`, those of `SUBTITLE_TELTEXT_SUPPORT` included.  A build
without it leaves these null. -/
inductive PtrField
  | mPipeline
  | mSource
  | mTee
  | mQueue
  | mSink
  | bus
  | demux
  | videoDecoder
  | videoSink
  | audioDecoder
  | audioSink
  | videoQueue
  | audioQueue
  | subtDecoder
  | ffmpegcsp
  | vidDmxQueue
  | audDmxQueue
  | subtDmxQueue
  | mainLoop
  | inputTask
  | inputTaskMutex
deriving DecidableEq, Repr

/-- The `..._pad_linked` fields, which say whether a pad of that medium has been linked since the
pipeline was created. -/
inductive LinkedField
  | ttx
  | audio
  | video
deriving DecidableEq, Repr

/-- `STGstPlayer`, of which there is one, a global variable: nothing is in it that was not set, but
zeros.  The `uri` is kept with the byte of padding behind it, which `player_init` clears as well. -/
structure STGstPlayer where
  ptr : PtrField → Ptr
  mMutex : RecMutex
  mBusEventSourceId : ℕ
  padLinked : LinkedField → Bool
  uri : List Char

/-! ### Calls -/

/-- The type of a result of a GStreamer call, as far as the application tells results apart. -/
inductive Kind
  | void
  | pointer
  | gboolean
  | guint
  | stateChange
deriving DecidableEq, Repr

/-- The values of a result type: this is all that GStreamer can return to the application. -/
abbrev Kind.Val : Kind → Type
  | .void => Unit
  | .pointer => Ptr
  | .gboolean => Bool
  | .guint => ℕ
  | .stateChange => GstStateChangeReturn

/-- How a pointer and a boolean report that a call did not succeed.  The other types have no such
value, or it is tested by a `switch`. -/
def Kind.Fails : (k : Kind) → k.Val → Prop
  | .pointer, p => p = NULL
  | .gboolean, b => b = false
  | _, _ => False

/-- The calls into GStreamer and the GObject calls on its objects, with the arguments that the
application gives. -/
inductive GstCall
  | initCheck
  | pipelineNew (name : String)
  | binNew (name : String)
  | elementFactoryMake (factory : String) (name : Option String)
  | ghostPadNewNoTarget (name : String) (dir : GstPadDirection)
  | elementAddPad (element pad : Ptr)
  | binAdd (bin element : Ptr)
  | binAddMany (bin : Ptr) (elements : List Ptr)
  | binRemove (bin element : Ptr)
  | objectSet (object : Ptr) (property : String) (value : Value)
  | objectSetName (object : Ptr) (name : String)
  | objectUnref (object : Ptr)
  | signalConnect (object : Ptr) (signal : String)
  | elementGetStaticPad (element : Ptr) (name : String)
  | ghostPadSetTarget (ghostPad target : Ptr)
  | padGetPeer (pad : Ptr)
  | padUnlink (src sink : Ptr)
  | elementReleaseRequestPad (element pad : Ptr)
  | elementLink (src dest : Ptr)
  | elementLinkMany (elements : List Ptr)
  | elementUnlink (src dest : Ptr)
  | elementSyncStateWithParent (element : Ptr)
  | elementSetState (element : Ptr) (state : GstState)
  | elementGetState (element : Ptr)
  | pipelineGetBus (pipeline : Ptr)
  | busAddWatch (bus : Ptr)
  | sourceRemove (id : ℕ)
  | taskSetLock (task mutex : Ptr)
deriving DecidableEq, Repr

/-- What each of them returns, as GStreamer documents it: this decides what a test of the result can
be. -/
abbrev GstCall.kind : GstCall → Kind
  | .initCheck => .gboolean
  | .pipelineNew _ | .binNew _ | .elementFactoryMake _ _ | .ghostPadNewNoTarget _ _ => .pointer
  | .elementAddPad _ _ | .binAdd _ _ | .binRemove _ _ => .gboolean
  | .binAddMany _ _ | .objectSet _ _ _ | .objectUnref _ => .void
  | .objectSetName _ _ => .gboolean
  | .signalConnect _ _ => .guint
  | .elementGetStaticPad _ _ | .padGetPeer _ | .pipelineGetBus _ => .pointer
  | .ghostPadSetTarget _ _ | .padUnlink _ _ => .gboolean
  | .elementReleaseRequestPad _ _ | .elementUnlink _ _ => .void
  | .elementLink _ _ | .elementLinkMany _ | .elementSyncStateWithParent _ => .gboolean
  | .elementSetState _ _ | .elementGetState _ => .stateChange
  | .busAddWatch _ => .guint
  | .sourceRemove _ => .gboolean
  | .taskSetLock _ _ => .void

/-- The two mutexes of the application: the one of the player, and the one a `GstTask` is given to
run its function under. -/
inductive MutexName
  | mMutex
  | inputTaskMutex
deriving DecidableEq, Repr

/-- What a thread does inside the functions that work on the player and around them,
apart from the calls of `ControlCall`. -/
inductive PlayerCall
  | load (f : PtrField)
  | store (f : PtrField) (p : Ptr)
  | loadBusEventSourceId
  | storeBusEventSourceId (id : ℕ)
  | storePadLinked (f : LinkedField) (b : Bool)
  | loadUri
  /-- `memset (player->uri, '\0', n)`. -/
  | memsetUri (n : ℕ)
  /-- `memcpy (player->uri, bytes, strlen (bytes))`. -/
  | memcpyUri (bytes : List Char)
  /-- `memset (&(player->m_mutex), '\0', sizeof (GStaticRecMutex))`. -/
  | memsetMutex
  /-- `g_new (GStaticRecMutex, 1)`. -/
  | recMutexNew
  | recMutex (o : MutexOp) (m : MutexName)
  | taskCreate
  | taskStart (task : Ptr)
  | taskStop (task : Ptr)
  | taskJoin (task : Ptr)
  | getchar
  | sleep (seconds : ℕ)
  | gst (g : GstCall) (tested : Bool)
deriving DecidableEq, Repr

/-- What such a call returns; for `getchar` that is a character or `EOF`.  A load returns what was
stored, which is not left open but said by `performPlayer`. -/
abbrev PlayerCall.Resp : PlayerCall → Type
  | .load _ => Ptr
  | .loadBusEventSourceId => ℕ
  | .loadUri => List Char
  | .recMutexNew => Ptr
  | .taskCreate => Ptr
  | .getchar => Option Char
  | .gst g _ => g.kind.Val
  | _ => Unit

/-- The calls that move a thread in or out of an operation, and those on the main loop: what the
exclusion of the two threads is stated with. -/
inductive ControlCall
  | enter (op : Op)
  | leave (op : Op) (result : Bool)
  | mainLoopNew
  /-- The entry of `g_main_loop_run`. -/
  | mainLoopRun (loop : Ptr)
  /-- The return of `g_main_loop_run`. -/
  | mainLoopRunReturns
  | mainLoopQuit (loop : Ptr)
  | mainLoopIsRunning (loop : Ptr)
deriving DecidableEq, Repr

/-- What they return; only the main loop is asked for something, a pointer to it and whether it
runs. -/
abbrev ControlCall.Resp : ControlCall → Type
  | .mainLoopNew => Ptr
  | .mainLoopIsRunning _ => Bool
  | _ => Unit

/-- The calls of a thread.  They are of two kinds so that what is said of a function in between need
not speak of the main loop. -/
inductive Call
  | player (c : PlayerCall)
  | control (c : ControlCall)
deriving DecidableEq, Repr

/-- What a call returns, of whichever kind: the type of the response depends on the call. -/
abbrev Call.Resp : Call → Type
  | .player c => c.Resp
  | .control c => c.Resp

/-- A program between the control calls: the body of a function that works on the player. -/
abbrev Action (α : Type) : Type := Prog PlayerCall PlayerCall.Resp α

/-- A program of a thread, with control calls and others; what lies between two control calls is an
`Action`. -/
abbrev Routine (α : Type) : Type := Prog Call Call.Resp α

instance : MonadLift (Prog PlayerCall PlayerCall.Resp) (Prog Call Call.Resp) where
  monadLift p := p.mapCall .player

/-! ### The world the threads share -/

/-- Where the main thread is relative to `g_main_loop_run`, as far as the run has gone. -/
inductive Phase
  | before
  | during
  | after
deriving DecidableEq, Repr

/-- The state of the keyboard task's thread.  Between `gst_task_start` and its first call of the
function it is `starting`; when it has ended `gst_task_join` returns. -/
inductive TaskState
  | notStarted
  | starting
  | running
  | ended
deriving DecidableEq, Repr

/-- The `GMainLoop` of the application: the object, and what `g_main_loop_is_running` says of it. -/
structure GMainLoop where
  object : Ptr
  isRunning : Bool
deriving DecidableEq, Repr

/-- Everything the threads share: the player, the mutex of the task, the main loop and the task.
The last three fields record where the threads are; no call looks at them. -/
structure Shared where
  player : STGstPlayer
  inputTaskMutex : RecMutex
  mainLoop : GMainLoop
  task : TaskState
  stopped : Bool
  phase : Phase
  /-- The pipeline operation the thread is inside of. -/
  inside : Thread → Option Op
  /-- How many times the thread held `m_mutex` when it entered that operation. -/
  entryHold : Thread → ℕ

namespace Shared

/-- How many times does the thread hold `player->m_mutex`?  The mutex is recursive, so it may be
more than once. -/
def hold (s : Shared) (t : Thread) : ℕ := s.player.mMutex.holds t

/-- The mutex of that name, of which one is in the player and one belongs to the task. -/
def mutex (s : Shared) : MutexName → RecMutex
  | .mMutex => s.player.mMutex
  | .inputTaskMutex => s.inputTaskMutex

/-- The same mutex changed, and nothing else: what a call on a mutex does to the state. -/
def setMutex (s : Shared) (m : RecMutex) : MutexName → Shared
  | .mMutex => { s with player := { s.player with mMutex := m } }
  | .inputTaskMutex => { s with inputTaskMutex := m }

section Lemmas

variable (s : Shared) (m : RecMutex) (name : MutexName)

@[simp] theorem setMutex_mainLoop : (s.setMutex m name).mainLoop = s.mainLoop := by
  cases name <;> rfl

@[simp] theorem setMutex_phase : (s.setMutex m name).phase = s.phase := by
  cases name <;> rfl

@[simp] theorem setMutex_inside : (s.setMutex m name).inside = s.inside := by
  cases name <;> rfl

@[simp] theorem setMutex_entryHold :
    (s.setMutex m name).entryHold = s.entryHold := by
  cases name <;> rfl

end Lemmas

/-- A pointer of the player is set; its other fields, and all else, stay. -/
def setPtr (s : Shared) (f : PtrField) (p : Ptr) : Shared :=
  { s with player := { s.player with ptr := Function.update s.player.ptr f p } }

/-- The address of the stream is set, with what stands behind it in the buffer. -/
def setUri (s : Shared) (uri : List Char) : Shared :=
  { s with player := { s.player with uri := uri } }

/-- `s.performPlayer t c r`: the state after the call `c` of thread `t` has returned `r`;
nothing if it blocks or cannot return that. -/
def performPlayer (s : Shared) (t : Thread) : (c : PlayerCall) → c.Resp → Option Shared
  | .load f, p => if p = s.player.ptr f then some s else none
  | .store f p, _ => some (s.setPtr f p)
  | .loadBusEventSourceId, id => if id = s.player.mBusEventSourceId then some s else none
  | .storeBusEventSourceId id, _ =>
      some { s with player := { s.player with mBusEventSourceId := id } }
  | .storePadLinked f b, _ =>
      some { s with
        player := { s.player with padLinked := Function.update s.player.padLinked f b } }
  | .loadUri, uri => if uri = s.player.uri then some s else none
  | .memsetUri n, _ => some (s.setUri (List.replicate n '\x00' ++ s.player.uri.drop n))
  | .memcpyUri bytes, _ => some (s.setUri (bytes ++ s.player.uri.drop bytes.length))
  | .memsetMutex, _ => some (s.setMutex .free .mMutex)
  | .recMutexNew, p => if p = NULL then none else some s
  | .recMutex o m, _ => ((s.mutex m).perform t o).map fun m' => s.setMutex m' m
  | .taskCreate, _ => some s
  | .taskStart _, _ => some { s with task := .starting }
  | .taskStop _, _ => some { s with stopped := true }
  | .taskJoin _, _ =>
      if s.task = .notStarted ∨ s.task = .ended then some { s with stopped := true } else none
  | .getchar, _ => some s
  | .sleep _, _ => some s
  | .gst _ _, _ => some s

/-- The same for the control calls: the marks of the operations always go through, and the main loop
does as GLib documents it. -/
def performControl (s : Shared) (t : Thread) : (c : ControlCall) → c.Resp → Option Shared
  | .enter op, _ =>
      some { s with
        inside := Function.update s.inside t (some op)
        entryHold := Function.update s.entryHold t (s.hold t) }
  | .leave _ _, _ => some { s with inside := Function.update s.inside t none }
  | .mainLoopNew, p => if p = NULL then none else some { s with mainLoop := ⟨p, false⟩ }
  | .mainLoopRun loop, _ =>
      some { s with
        mainLoop :=
          { s.mainLoop with isRunning := s.mainLoop.isRunning || loop == s.mainLoop.object }
        phase := .during }
  | .mainLoopRunReturns, _ =>
      if s.mainLoop.isRunning then none else some { s with phase := .after }
  | .mainLoopQuit loop, _ =>
      some { s with
        mainLoop :=
          { s.mainLoop with isRunning := s.mainLoop.isRunning && loop != s.mainLoop.object } }
  | .mainLoopIsRunning loop, b =>
      if b = (s.mainLoop.isRunning && loop == s.mainLoop.object) then some s else none

/-- The same for any call.  This is the meaning of a program of a thread in the world of both. -/
def perform (s : Shared) (t : Thread) : (c : Call) → c.Resp → Option Shared
  | .player c, r => s.performPlayer t c r
  | .control c, r => s.performControl t c r

/-- Before `main`: `rdk_player` is static, so all of it is zeros, no mutex is locked, and neither
the task nor the main loop has been started. -/
def initial : Shared where
  player :=
    { ptr := fun _ => NULL
      mMutex := .free
      mBusEventSourceId := 0
      padLinked := fun _ => false
      uri := List.replicate 256 '\x00' }
  inputTaskMutex := .free
  mainLoop := ⟨NULL, false⟩
  task := .notStarted
  stopped := false
  phase := .before
  inside := fun _ => none
  entryHold := fun _ => 0

end Shared

end LeipoCode.Player
