import LeipoCode.Lib.Exec
import LeipoCode.Player.Pipeline

/-!
# `onDemuxSrcPadAdded`

The callback of the demultiplexer, statement by statement.  It makes calls of its own
beside those of `PlayerCall`: it reads the `..._pad_linked` fields, asks the new pad for
its caps, and links it.

Its three branches are one function, `linkMedium`, applied to the element and the flag of
the medium.

It runs on a streaming thread of GStreamer, which is neither of the two of the application, and it
may run at any time after the pipeline was set to play.  It reads the fields that
`create_sink_element_2` has set and tests and sets the flags; no lock is taken.  That two callbacks
do not overlap is up to the demultiplexer, which announces its pads one after the other.
-/

namespace LeipoCode.Player

/-- The calls of the callback: those of the main program, and six that only the callback makes. -/
inductive PadCall
  | player (c : PlayerCall)
  | loadPadLinked (f : LinkedField)
  | padGetCaps (pad : Ptr)
  | capsGetStructure (caps : Ptr) (index : ℕ)
  | structureGetName (capsStructure : Ptr)
  | capsUnref (caps : Ptr)
  /-- `GST_PAD_LINK_SUCCESSFUL (gst_pad_link (src, sink))`. -/
  | padLink (src sink : Ptr)
deriving DecidableEq, Repr

/-- What they return.  The name of the caps is a text, which the callback searches. -/
abbrev PadCall.Resp : PadCall → Type
  | .player c => c.Resp
  | .loadPadLinked _ => Bool
  | .padGetCaps _ => Ptr
  | .capsGetStructure _ _ => Ptr
  | .structureGetName _ => List Char
  | .capsUnref _ => Unit
  | .padLink _ _ => Bool

/-- A program of the callback, over its own calls; a program of the player is one too. -/
abbrev PadAction (α : Type) : Type := Prog PadCall PadCall.Resp α

instance : MonadLift (Prog PlayerCall PlayerCall.Resp) (Prog PadCall PadCall.Resp) where
  monadLift p := p.mapCall .player

/-- One call of the callback, as a program that returns what the call does. -/
def padCall (c : PadCall) : PadAction c.Resp := .lift c

/-- `strstr (haystack, needle) != NULL`: the needle is somewhere in the text, and not only at its
start. -/
def strstr (haystack : List Char) (needle : String) : Bool :=
  haystack.tails.any needle.toList.isPrefixOf

/-- Link the new pad to the sink pad of an element, once for each medium: if the medium is linked
already, the branch returns before the reference is given back. -/
def linkMedium (f : PtrField) (linked : LinkedField) (demuxSrcPad : Ptr) : PadAction Unit := do
  let element ← load f
  let sinkPad : Ptr ← untested (.elementGetStaticPad element "sink")
  let alreadyLinked : Bool ← padCall (.loadPadLinked linked)
  if alreadyLinked = true then
    return ()
  let successful : Bool ← padCall (.padLink demuxSrcPad sinkPad)
  if successful = true then
    storePadLinked linked true
  objectUnref sinkPad

/-- The element the video pad is linked to: a queue in front of the decoder if the build has
subtitles, else the decoder. -/
def Build.videoElement (b : Build) : PtrField :=
  if b.subtitleTeltextSupport then .vidDmxQueue else .videoDecoder

/-- The element the audio pad is linked to: a queue in front of the decoder if the build has
subtitles, else the decoder. -/
def Build.audioElement (b : Build) : PtrField :=
  if b.subtitleTeltextSupport then .audDmxQueue else .audioDecoder

/-- `onDemuxSrcPadAdded`, for a new pad of the demultiplexer: the name of its caps decides on the
medium, and a pad of none is left alone. -/
def onDemuxSrcPadAdded (b : Build) (demuxSrcPad : Ptr) : PadAction Unit := do
  let caps : Ptr ← padCall (.padGetCaps demuxSrcPad)
  let capsStructure : Ptr ← padCall (.capsGetStructure caps 0)
  let name : List Char ← padCall (.structureGetName capsStructure)
  padCall (.capsUnref caps)
  if strstr name "video/" = true then
    linkMedium b.videoElement .video demuxSrcPad
  else if strstr name "audio/" = true then
    linkMedium b.audioElement .audio demuxSrcPad
  else if b.subtitleTeltextSupport = true ∧
      (strstr name "subpicture/" = true ∨ strstr name "teletext" = true) then
    linkMedium .subtDmxQueue .ttx demuxSrcPad

/-- The state after a call of the callback has returned.  Only calls of the player change it, a flag
that is read is what it is, and all else returns anything. -/
def Shared.performPad (s : Shared) (t : Thread) : (c : PadCall) → c.Resp → Option Shared
  | .player c, r => s.performPlayer t c r
  | .loadPadLinked f, linked => if linked = s.player.padLinked f then some s else none
  | .padGetCaps _, _ => some s
  | .capsGetStructure _ _, _ => some s
  | .structureGetName _, _ => some s
  | .capsUnref _, _ => some s
  | .padLink _ _, _ => some s

end LeipoCode.Player
