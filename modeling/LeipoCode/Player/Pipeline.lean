import LeipoCode.Player.Model

/-!
# `gstrdk_pipeline.c`

The functions that build, change and take down the pipeline, statement by statement.
A call into GStreamer whose result the source tests goes through `tested`, any other
through `untested`; a `return` in the middle of a function is one here.  The regions
under `SUBTITLE_TELTEXT_SUPPORT` are functions of their own.

Each function is an `Action`, a program over the calls of `PlayerCall`; only the three operations
are `Routine`s, which mark where they are entered and left.  Local variables are bound variables, so
what is read from a field is read when the source reads it: `create_sink_element_2` looks up fields
that it has set itself, and with the other thread at work they could be others.  The messages at
each `return` are left out, and the `return` is not.

### How to read a function

The order of the statements is that of the source, and so is the order in which arguments are read.
A chain of calls that all have to succeed is written as the source has it, with a `return` after
each; where the source tests three results together, further down, the three calls are made first.
What the source does only under a preprocessor symbol is an `ifdef` with the symbol as its
condition, so the two variants of a function are one definition, and a result about it is about
both.

Lists of assignments at the end of a function are written out, one statement each: between any two
of them the other thread may do something, so they are not one step, and their order is part of the
model.
-/

namespace LeipoCode.Player

/-- The preprocessor symbols of the build, in the names of the source.  No symbol excludes another
one, so all sixteen builds are meant where nothing is said. -/
structure Build where
  fileSupport : Bool
  httpsrcSupport : Bool
  subtitleTeltextSupport : Bool
  useMpegtsdemux : Bool
deriving DecidableEq, Repr

/-! ### Statements -/

/-- One call, as a program: it returns what the call does, and is what all others are made of. -/
def call (c : PlayerCall) : Action c.Resp := .lift c

/-- Read a pointer field of the player: a statement of its own, for the other thread may set it. -/
def load (f : PtrField) : Action Ptr := call (.load f)

/-- Assign a pointer field of the player. -/
def store (f : PtrField) (p : Ptr) : Action Unit := call (.store f p)

/-- Assign one of the `..._pad_linked` fields. -/
def storePadLinked (f : LinkedField) (b : Bool) : Action Unit := call (.storePadLinked f b)

/-- A GStreamer call whose result is tested.  That it is tested is part of the call, so a run says
by itself which results the program has looked at. -/
def tested (g : GstCall) : Action g.kind.Val := call (.gst g true)

/-- A GStreamer call whose result is not tested: it may fail, and the program goes on. -/
def untested (g : GstCall) : Action g.kind.Val := call (.gst g false)

/-- One of the `g_static_rec_mutex_...` functions. -/
def recMutex (o : MutexOp) (m : MutexName) : Action Unit := call (.recMutex o m)

/-- `gst_element_factory_make`, whose result is tested wherever it is called.  The name is the one
the element goes by in the pipeline. -/
def elementFactoryMake (factory name : String) : Action Ptr :=
  tested (.elementFactoryMake factory (some name))

/-- `gst_object_unref`: a reference is given back.  What becomes of the object is not modelled. -/
def objectUnref (object : Ptr) : Action Unit := untested (.objectUnref object)

/-- A region under a preprocessor symbol; false where it makes its function return. -/
def ifdef (symbol : Bool) (region : Action Bool) : Action Bool :=
  if symbol then region else return true

/-- One control call. -/
def control (c : ControlCall) : Routine c.Resp := .lift (Call.control c)

/-- A function that works on the pipeline, with its entry and its exit marked.  An early `return` in
the body leads to the exit like any other. -/
def operation (op : Op) (body : Action Bool) : Routine Bool := do
  control (.enter op)
  let result ← body
  control (.leave op result)
  return result

/-! ### The source bin -/

/-- `create_source_element_1`: the bin of the source, with an exit that leads nowhere yet.  It is
null if the bin cannot be made. -/
def createSourceElement1 : Action Ptr := do
  let bin : Ptr ← tested (.binNew "hn_source_bin")
  if bin = NULL then
    return NULL
  let pad : Ptr ← untested (.ghostPadNewNoTarget "src" .src)
  let _ ← untested (.elementAddPad bin pad)
  return bin

/-- The element that reads the stream, with its name: from a file, or over the net by one of two
elements. -/
def Build.sourceElement (b : Build) : String × String :=
  if b.fileSupport then ("filesrc", "soup")
  else if b.httpsrcSupport then ("httpsrc", "curl")
  else ("souphttpsrc", "soup")

/-- `create_source_element_2`: the element that reads the stream is made, put into the bin and told
the address, and the exit of the bin is that of the element. -/
def createSourceElement2 (b : Build) : Action Bool := do
  let bin ← load .mSource
  let blocksize := 188 * 192 * 4
  let source ← elementFactoryMake b.sourceElement.1 b.sourceElement.2
  if source = NULL then
    return false
  let _ ← untested (.binAdd bin source)
  let _ ← untested (.objectSet source "blocksize" (.int blocksize))
  let _ ← untested (.objectSet source "is-live" (.bool true))
  let pad : Ptr ← untested (.elementGetStaticPad source "src")
  let ghostPad : Ptr ← untested (.elementGetStaticPad bin "src")
  let targetSet : Bool ← tested (.ghostPadSetTarget ghostPad pad)
  if targetSet = false then
    return false
  objectUnref ghostPad
  objectUnref pad
  let uri : List Char ← call .loadUri
  let _ ← untested (.objectSet source "location" (.str uri))
  return true

/-! ### The sink bin -/

/-- `create_sink_element_1`: the bin of what shows the stream, with an entry that leads nowhere yet.
-/
def createSinkElement1 : Action Ptr := do
  -- not tested, here or by the caller
  let bin : Ptr ← untested (.binNew "player_bin")
  let pad : Ptr ← untested (.ghostPadNewNoTarget "sink" .sink)
  let _ ← untested (.elementAddPad bin pad)
  return bin

/-- The subtitle elements of `create_sink_element_2`: three queues behind the demultiplexer, the
decoder, and a converter before the screen. -/
def createSubtitleElements : Action Bool := do
  -- unlike the others, these are stored before they are tested
  let vidDmxQueue ← elementFactoryMake "queue" "dmx_vsink"
  store .vidDmxQueue vidDmxQueue
  if vidDmxQueue = NULL then
    return false
  let audDmxQueue ← elementFactoryMake "queue" "dmx_asink"
  store .audDmxQueue audDmxQueue
  if audDmxQueue = NULL then
    return false
  let subtDmxQueue ← elementFactoryMake "queue" "dmx_tsink"
  store .subtDmxQueue subtDmxQueue
  if subtDmxQueue = NULL then
    return false
  let subtDecoder ← elementFactoryMake "sttextoverlay" "player_subdec"
  store .subtDecoder subtDecoder
  if subtDecoder = NULL then
    return false
  let ffmpegcsp ← elementFactoryMake "ffmpegcolorspace" "player_csp"
  store .ffmpegcsp ffmpegcsp
  if ffmpegcsp = NULL then
    return false
  return true

/-- The elements of the sink bin that every build has.  They are local variables of
`create_sink_element_2`, besides being fields. -/
structure SinkElements where
  demux : Ptr
  videoDecoder : Ptr
  videoSink : Ptr
  videoQueue : Ptr
  audioDecoder : Ptr
  audioSink : Ptr
  audioQueue : Ptr

/-- Read the fields, in order, as the arguments of a call.  Each is read on its own. -/
def loads : List PtrField → Action (List Ptr)
  | [] => return []
  | f :: fs => do
      let p ← load f
      let ps ← loads fs
      return p :: ps

/-- `gst_bin_add_many` of `create_sink_element_2`: with subtitles the elements are read back from
the fields, without they are local variables. -/
def addSinkElements (b : Build) (bin : Ptr) (e : SinkElements) : Action Unit :=
  if b.subtitleTeltextSupport then do
    let fields ← loads [.vidDmxQueue, .videoDecoder, .subtDmxQueue, .subtDecoder, .ffmpegcsp,
      .videoQueue, .videoSink, .audDmxQueue, .audioDecoder, .audioQueue, .audioSink]
    untested (.binAddMany bin (e.demux :: fields))
  else
    untested (.binAddMany bin [e.demux, e.videoDecoder, e.videoQueue, e.videoSink,
      e.audioDecoder, e.audioQueue, e.audioSink])

/-- `gst_element_link_many` for the video part: from the decoder to the screen, with the subtitles
laid over it if there are any. -/
def linkVideo (b : Build) (e : SinkElements) : Action Bool :=
  if b.subtitleTeltextSupport then do
    let fields ← loads [.vidDmxQueue, .videoDecoder, .subtDecoder, .ffmpegcsp, .videoQueue,
      .videoSink]
    tested (.elementLinkMany fields)
  else
    tested (.elementLinkMany [e.videoDecoder, e.videoQueue, e.videoSink])

/-- `gst_element_link_many` for the audio part: from the decoder to the loudspeaker. -/
def linkAudio (b : Build) (e : SinkElements) : Action Bool :=
  if b.subtitleTeltextSupport then do
    let fields ← loads [.audDmxQueue, .audioDecoder, .audioQueue, .audioSink]
    tested (.elementLinkMany fields)
  else
    tested (.elementLinkMany [e.audioDecoder, e.audioQueue, e.audioSink])

/-- The subtitle part of the linking in `create_sink_element_2`.  The decoder shows nothing at
first. -/
def linkSubtitle : Action Bool := do
  let fields ← loads [.subtDmxQueue, .subtDecoder]
  let linked : Bool ← tested (.elementLinkMany fields)
  if linked = false then
    return false
  let subtDecoder ← load .subtDecoder
  let _ ← untested (.objectSet subtDecoder "silent" (.bool true))
  return true

/-- The element factory for the demultiplexer, of which there are two. -/
def Build.demuxElement (b : Build) : String :=
  if b.useMpegtsdemux then "mpegtsdemux" else "stts_demux"

/-- `create_sink_element_2`: all elements of the sink bin are made, one after the other, kept in the
fields, put into the bin and linked.  The demultiplexer stays unlinked until it has pads, which the
callback is told of. -/
def createSinkElement2 (b : Build) : Action Bool := do
  let bin ← load .mSink
  let demux ← elementFactoryMake b.demuxElement "player_demux"
  if demux = NULL then
    return false
  store .demux demux
  let _ ← untested (.signalConnect demux "pad-added")
  let videoDecoder ← elementFactoryMake "stvideo" "player_vdec"
  if videoDecoder = NULL then
    return false
  store .videoDecoder videoDecoder
  let videoSink ← elementFactoryMake "stdisplaysink" "player_vsink"
  if videoSink = NULL then
    return false
  store .videoSink videoSink
  let videoSinkField ← load .videoSink
  let _ ← untested (.objectSet videoSinkField "async" (.bool false))
  let subtitles ← ifdef b.subtitleTeltextSupport createSubtitleElements
  if subtitles = false then
    return false
  let videoQueue ← elementFactoryMake "queue2" "player_vqueue"
  if videoQueue = NULL then
    return false
  store .videoQueue videoQueue
  let audioDecoder ← elementFactoryMake "staudio" "player_adec"
  if audioDecoder = NULL then
    return false
  store .audioDecoder audioDecoder
  let audioSink ← elementFactoryMake "staudiosink" "player_asink"
  if audioSink = NULL then
    return false
  store .audioSink audioSink
  let audioSinkField ← load .audioSink
  let _ ← untested (.objectSet audioSinkField "async" (.bool false))
  let audioQueue ← elementFactoryMake "queue2" "player_aqueue"
  if audioQueue = NULL then
    return false
  store .audioQueue audioQueue
  let e : SinkElements :=
    ⟨demux, videoDecoder, videoSink, videoQueue, audioDecoder, audioSink, audioQueue⟩
  addSinkElements b bin e
  let videoLinked ← linkVideo b e
  if videoLinked = false then
    return false
  let audioLinked ← linkAudio b e
  if audioLinked = false then
    return false
  let subtitleLinked ← ifdef b.subtitleTeltextSupport linkSubtitle
  if subtitleLinked = false then
    return false
  let pad : Ptr ← untested (.elementGetStaticPad demux "sink")
  let ghostPad : Ptr ← untested (.elementGetStaticPad bin "sink")
  let targetSet : Bool ← tested (.ghostPadSetTarget ghostPad pad)
  if targetSet = false then
    return false
  objectUnref ghostPad
  objectUnref pad
  return true

/-- `addsink`: the sink bin is put behind the tee, with a queue between them.  Only the making of
the queue is tested. -/
def addsink : Action Bool := do
  let mPipeline ← load .mPipeline
  let mSink ← load .mSink
  let mTee ← load .mTee
  let mQueue : Ptr ← tested (.elementFactoryMake "queue" none)
  if mQueue = NULL then
    return false
  store .mQueue mQueue
  let _ ← untested (.binAdd mPipeline mQueue)
  let _ ← untested (.elementSyncStateWithParent mQueue)
  let _ ← untested (.binAdd mPipeline mSink)
  let _ ← untested (.elementLink mQueue mSink)
  let _ ← untested (.elementSyncStateWithParent mSink)
  let _ ← untested (.elementLink mTee mQueue)
  return true

/-! ### The three operations -/

/-- The body of `create_pipeline`.  It takes the mutex, makes the bins and the elements, and gives
the mutex back at its end; none of its early returns does. -/
def createPipelineBody (b : Build) : Action Bool := do
  recMutex .init .mMutex
  recMutex .lock .mMutex
  -- the three results are tested together, further down
  let mPipeline : Ptr ← tested (.pipelineNew "pipeline")
  store .mPipeline mPipeline
  let mSource ← createSourceElement1
  store .mSource mSource
  let mTee ← elementFactoryMake "tee" "source_tee"
  store .mTee mTee
  if mPipeline = NULL ∨ mSource = NULL ∨ mTee = NULL then
    return false
  let _ ← untested (.binAddMany mPipeline [mSource, mTee])
  let linked : Bool ← tested (.elementLink mSource mTee)
  if linked = false then
    return false
  let bus : Ptr ← untested (.pipelineGetBus mPipeline)
  let id : ℕ ← untested (.busAddWatch bus)
  call (.storeBusEventSourceId id)
  objectUnref bus
  let sourceCreated ← createSourceElement2 b
  if sourceCreated = false then
    return false
  let mSink ← createSinkElement1
  store .mSink mSink
  let sinkCreated ← createSinkElement2 b
  if sinkCreated = false then
    return false
  let sinkAdded ← addsink
  if sinkAdded = false then
    return false
  recMutex .unlock .mMutex
  return true

/-- The body of `set_pipeline_state`.  It takes no mutex, and a state that is not reached yet counts
as a failure. -/
def setPipelineStateBody (state : GstState) : Action Bool := do
  let mPipeline ← load .mPipeline
  let ret : GstStateChangeReturn ← tested (.elementSetState mPipeline state)
  if ret = .failure ∨ ret = .unknown then
    return false
  let ret : GstStateChangeReturn ← tested (.elementGetState mPipeline)
  if ret = .failure then
    return false
  if ret = .async then
    return false
  return true

/-- The assignments at the end of `dropsink`: the fields of the sink are as they were before there
was one. -/
def resetSinkFields (b : Build) : Action Unit := do
  store .mQueue NULL
  store .mSink NULL
  store .demux NULL
  store .videoDecoder NULL
  store .videoSink NULL
  store .audioDecoder NULL
  store .audioSink NULL
  store .videoQueue NULL
  store .audioQueue NULL
  storePadLinked .audio false
  storePadLinked .video false
  if b.subtitleTeltextSupport then
    store .subtDecoder NULL
    store .ffmpegcsp NULL
    store .vidDmxQueue NULL
    store .audDmxQueue NULL
    store .subtDmxQueue NULL
    storePadLinked .ttx false

/-- `dropsink`: the sink bin is unlinked from its queue and stopped, the queue is unlinked from the
tee, and both are removed from the pipeline.  Behind each of the tests it may end early, and leave
the fields as they are. -/
def dropsink (b : Build) : Action Bool := do
  let mPipeline ← load .mPipeline
  let mSink ← load .mSink
  let mQueue ← load .mQueue
  let mTee ← load .mTee
  if mPipeline = NULL then
    return false
  if mSink = NULL then
    return false
  if mQueue = NULL then
    return false
  let _ ← untested (.elementUnlink mQueue mSink)
  let _ ← untested (.elementSetState mSink .null)
  let queueSinkPad : Ptr ← tested (.elementGetStaticPad mQueue "sink")
  -- called before `queue_sink_pad` is tested
  let teeSrcPad : Ptr ← tested (.padGetPeer queueSinkPad)
  if queueSinkPad = NULL then
    return false
  if teeSrcPad = NULL then
    return false
  let unlinked : Bool ← tested (.padUnlink teeSrcPad queueSinkPad)
  if unlinked = false then
    return false
  let _ ← untested (.elementReleaseRequestPad mTee teeSrcPad)
  objectUnref teeSrcPad
  objectUnref queueSinkPad
  let queueRemoved : Bool ← tested (.binRemove mPipeline mQueue)
  if queueRemoved = false then
    return false
  let sinkRemoved : Bool ← tested (.binRemove mPipeline mSink)
  if sinkRemoved = false then
    return false
  resetSinkFields b
  return true

/-- The body of `destroy_pipeline`.  It takes the mutex, and its early return, when `dropsink` has
failed, does not give it back. -/
def destroyPipelineBody (b : Build) : Action Bool := do
  let mPipeline ← load .mPipeline
  recMutex .lock .mMutex
  let dropped ← dropsink b
  if dropped = false then
    return false
  let id : ℕ ← call .loadBusEventSourceId
  let _ ← untested (.sourceRemove id)
  call (.storeBusEventSourceId 0)
  objectUnref mPipeline
  store .mPipeline NULL
  store .bus NULL
  recMutex .unlock .mMutex
  -- a `buscall` still pending is waited for
  recMutex .lock .mMutex
  recMutex .unlock .mMutex
  recMutex .free .mMutex
  store .mSource NULL
  store .mTee NULL
  return true

/-- `create_pipeline`: what both threads call to start a stream, with its entry and its end marked.
-/
def createPipeline (b : Build) : Routine Bool :=
  operation .createPipeline (createPipelineBody b)

/-- `set_pipeline_state`, with the state that is asked for, marked likewise. -/
def setPipelineState (state : GstState) : Routine Bool :=
  operation .setPipelineState (setPipelineStateBody state)

/-- `destroy_pipeline`, marked likewise: what both threads call to end a stream. -/
def destroyPipeline (b : Build) : Routine Bool :=
  operation .destroyPipeline (destroyPipelineBody b)

end LeipoCode.Player
