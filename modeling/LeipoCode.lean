import LeipoCode.Lib.Fallible
import LeipoCode.Lib.LTS
import LeipoCode.Lib.Prog
import LeipoCode.Lib.Exec
import LeipoCode.Lib.Account
import LeipoCode.Lib.Interpret
import LeipoCode.Lib.DList
import LeipoCode.Lib.ByteFile
import LeipoCode.Lib.Words
import LeipoCode.Lib.Walk
import LeipoCode.Lib.Printf
import LeipoCode.Lib.CString
import LeipoCode.Lib.ShellInt
import LeipoCode.Lib.WhileLoop
import LeipoCode.Lib.Threads
import LeipoCode.Lib.WaitQueue
import LeipoCode.Lib.OpenFiles
import LeipoCode.Lib.RingBuffer
import LeipoCode.Lib.SparseFile
import LeipoCode.Lib.Blocks
import LeipoCode.Lib.Tokens
import LeipoCode.LinkedList.Model
import LeipoCode.LinkedList.Spec
import LeipoCode.LinkedList.Runs
import LeipoCode.LinkedList.Refinement
import LeipoCode.LinkedList.NullRule
import LeipoCode.LinkedList.Outcomes
import LeipoCode.LinkedList.Iteration
import LeipoCode.LinkedList.Deletion
import LeipoCode.RecordRead.Model
import LeipoCode.RecordRead.Sections
import LeipoCode.RecordRead.Invariant
import LeipoCode.RecordRead.Accounting
import LeipoCode.S64.Model
import LeipoCode.S64.Arith
import LeipoCode.S64.Division
import LeipoCode.S64.Literals
import LeipoCode.Time.Elapsed
import LeipoCode.Time.BuildDate
import LeipoCode.Fd2fp.Model
import LeipoCode.Fd2fp.OwnTable
import LeipoCode.Mpeg2.Model
import LeipoCode.Mpeg2.Parser
import LeipoCode.Mpeg2.Driver
import LeipoCode.Mpeg2.Reads
import LeipoCode.Player.Model
import LeipoCode.Player.Pipeline
import LeipoCode.Player.App
import LeipoCode.Player.Exclusion
import LeipoCode.Player.LockBalance
import LeipoCode.Player.PadAdded
import LeipoCode.Player.Rounds
import LeipoCode.Player.PadLinks
import LeipoCode.Player.PadRefs
import LeipoCode.Player.Tuning
import LeipoCode.Player.Ledger
import LeipoCode.Player.Leftovers
import LeipoCode.ParseIndex.Model
import LeipoCode.ParseIndex.InfoDump
import LeipoCode.ParseIndex.IndexDump
import LeipoCode.ParseIndex.Listing
import LeipoCode.ParseIndex.LineBuffer
import LeipoCode.Script.CalcDiff
import LeipoCode.Script.RemoveLog
import LeipoCode.Pipe.Model
import LeipoCode.Pipe.Files
import LeipoCode.Pipe.Buffer
import LeipoCode.Pipe.Sleepers
import LeipoCode.Access.Single
import LeipoCode.Access.Owned
import LeipoCode.Access.Private
import LeipoCode.Scull.Model
import LeipoCode.Scull.Storage
import LeipoCode.Scull.Calls
import LeipoCode.Sbull.Model
import LeipoCode.Sbull.Media
import LeipoCode.Sbull.Requests
import LeipoCode.Sbull.Timer
import LeipoCode.Snull.Model
import LeipoCode.Snull.Packets
import LeipoCode.Snull.Queue
import LeipoCode.Short.Buffer
import LeipoCode.Short.Recorder
import LeipoCode.Short.Model
import LeipoCode.Short.Times
import LeipoCode.Short.Halves
import LeipoCode.Shortprint.Model
import LeipoCode.Shortprint.Output
import LeipoCode.Shortprint.Progress
import LeipoCode.Shortprint.Times
import LeipoCode.Sleepy.Model
import LeipoCode.Sleepy.Wakeups
