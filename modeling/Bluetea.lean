import Bluetea.DoublyLinked.Basic
import Bluetea.CString.Basic
import Bluetea.CString.Buffer
import Bluetea.CString.Atoi
import Bluetea.Encoding.Bounded
import Bluetea.Encoding.Unique
import Bluetea.Machine.Memory
import Bluetea.Machine.Bump
import Bluetea.Machine.Run
import Bluetea.Machine.Bounded
import Bluetea.Machine.Budget
import Bluetea.Queue.Basic
import Bluetea.Queue.Program
import Bluetea.Queue.Equiv.Mem
import Bluetea.Queue.Equiv.Node
import Bluetea.Queue.Equiv.Take
import Bluetea.Queue.Equiv.Detach
import Bluetea.Queue.Equiv.Enqueue
import Bluetea.Queue.Equiv.Destroy
import Bluetea.Queue.Equiv.Step
import Bluetea.Queue.Equiv.Refine
import Bluetea.Queue.Equiv.Ends
import Bluetea.Queue.Equiv.Conserve
import Bluetea.Queue.Equiv.Validate
import Bluetea.Queue.Pool
import Bluetea.Queue.Equiv.Referenced
import Bluetea.Queue.Bytes
import Bluetea.Queue.Equiv.Block
import Bluetea.Getopt.Basic
import Bluetea.Getopt.Kind
import Bluetea.Getopt.CommandLine
import Bluetea.Getopt.Tables
import Bluetea.Getopt.Equiv.Call
import Bluetea.Getopt.Equiv.Bounds
import Bluetea.Getopt.Equiv.Consume
import Bluetea.Getopt.Equiv.RoundTrip
import Bluetea.Getopt.Equiv.Accepts
import Bluetea.Getopt.Equiv.Unambiguous
import Bluetea.Getopt.Equiv.Order
import Bluetea.Getopt.Equiv.Stale
import Bluetea.Getopt.Equiv.Attached
import Bluetea.Arena.Basic
import Bluetea.Arena.Program
import Bluetea.Arena.Copies
import Bluetea.Arena.Equiv.Safety
import Bluetea.Arena.Equiv.Exact
import Bluetea.Arena.Equiv.Budget
import Bluetea.Arena.Equiv.Copies
import Bluetea.Html.Basic
import Bluetea.Html.Equiv.Escape
import Bluetea.Html.Equiv.Decode
import Bluetea.Html.Equiv.Agree
import Bluetea.Html.Equiv.Terminator
import Bluetea.Stack.Basic
import Bluetea.Stack.Equiv.Refine
import Bluetea.Trimming.Basic
import Bluetea.Strtrim.Basic
import Bluetea.Strtrim.Equiv.Scan
import Bluetea.Strtrim.Equiv.Call
import Bluetea.Strtrim.Equiv.Length
import Bluetea.Strtrim.Equiv.Exact
import Bluetea.BlueTest.Basic
import Bluetea.BlueTest.Process
import Bluetea.BlueTest.Equiv.Verdict
import Bluetea.BlueTest.System
import Bluetea.BlueTest.Equiv.System
import Bluetea.BlueTest.Equiv.Runs
import Bluetea.BlueTest.Equiv.LastReport
import Bluetea.BlueTest.Equiv.Crash
import Bluetea.BlueTest.Equiv.Ends
import Bluetea.BlueTest.Equiv.Returns
import Bluetea.BlueTest.Spawn
import Bluetea.BlueTest.Equiv.Spawn
import Bluetea.BlueTest.Equiv.Program
import Bluetea.Mutex.Basic
import Bluetea.Mutex.Equiv.Lifecycle
import Bluetea.ShellWords.Basic
import Bluetea.OldString.Basic
import Bluetea.OldString.Equiv.Shell
import Bluetea.OldString.Equiv.CommandLine
import Bluetea.Encoding.Percent
import Bluetea.Encoding.Hex
import Bluetea.Encoding.Decimal
import Bluetea.OldString.Equiv.Url
import Bluetea.OldString.Trim
import Bluetea.OldString.Equiv.Trim
import Bluetea.OldString.Equiv.Html
import Bluetea.OldString.Equiv.HtmlAgree
import Bluetea.OldString.Equiv.TrimAgree
import Bluetea.OldString.Copy
import Bluetea.OldString.Equiv.Copy
import Bluetea.Que.Basic
import Bluetea.Monitor.Basic
import Bluetea.Locks.Basic
import Bluetea.Mutex.BasicMutex
import Bluetea.Mutex.Equiv.CountMoves
import Bluetea.Mutex.Equiv.CountInv
import Bluetea.Mutex.Equiv.BasicMutex
import Bluetea.Mutex.BasicCond
import Bluetea.Mutex.Equiv.CondMoves
import Bluetea.Mutex.Equiv.CondInv
import Bluetea.Mutex.Equiv.BasicCond
import Bluetea.Print.Basic
import Bluetea.Print.Equiv.Ends
import Bluetea.Print.Equiv.Lines
import Bluetea.Print.Equiv.Handler
import Bluetea.Que.Program
import Bluetea.Que.Equiv.Step
import Bluetea.Que.Equiv.Refine
import Bluetea.Que.Equiv.Agree
import Bluetea.TeaTest.Basic
import Bluetea.TeaTest.System
import Bluetea.TeaTest.Equiv.System
import Bluetea.TeaTest.Equiv.Verdict
import Bluetea.TeaTest.Equiv.Deadlock
import Bluetea.TeaTest.Equiv.Successor
import Bluetea.TeaTest.Spawn
import Bluetea.TeaTest.Equiv.Spawn
import Bluetea.VtHexdump.Basic
import Bluetea.VtHexdump.Equiv.ReadBack
