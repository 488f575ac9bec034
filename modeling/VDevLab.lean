import VDevLab.Lib.Lts
import VDevLab.Lib.Linear
import VDevLab.Lib.Critical
import VDevLab.Lib.Glance
import VDevLab.Lib.Unwind
import VDevLab.Lib.Timed
import VDevLab.Lib.Check
import VDevLab.Lib.Pool
import VDevLab.Lib.PyStr
import VDevLab.Lib.PyPath
import VDevLab.Lib.CInteger
import VDevLab.Lib.Traced
import VDevLab.Lib.Words
import VDevLab.Lib.Binary64
import VDevLab.Lib.Rounding
import VDevLab.Lib.PyValue
import VDevLab.Lib.PyEq
import VDevLab.Lib.Json
import VDevLab.Lib.JsonText
import VDevLab.Lib.JsonGrammar
import VDevLab.Lib.JsonPrefix
import VDevLab.Lib.JsonCut
import VDevLab.Lib.JsonDump
import VDevLab.Lib.FloatRepr
import VDevLab.Lib.JsonWrite
import VDevLab.Lib.JsonWritten
import VDevLab.Lib.Xml
import VDevLab.Lib.XmlText
import VDevLab.Lib.Overlap
import VDevLab.Lib.Merge
import VDevLab.Scenario.Parse
import VDevLab.Scenario.Schema
import VDevLab.Scenario.Accept
import VDevLab.Scenario.Reject
import VDevLab.Scenario.Load
import VDevLab.Scenario.Render
import VDevLab.Kernel.Fault
import VDevLab.Kernel.Machine
import VDevLab.Kernel.Moves
import VDevLab.Kernel.Calls
import VDevLab.Kernel.EioLedger
import VDevLab.Kernel.Stream
import VDevLab.Kernel.Wakeup
import VDevLab.Kernel.Linearizable
import VDevLab.Kernel.Solo
import VDevLab.Kernel.FaultState
import VDevLab.Kernel.Barrier
import VDevLab.Kernel.Progress
import VDevLab.Kernel.Locks
import VDevLab.Kernel.Locked
import VDevLab.Kernel.Statements
import VDevLab.Kernel.Lifecycle
import VDevLab.Kernel.Observed
import VDevLab.Kernel.PollPredicts
import VDevLab.Tools.Ctl
import VDevLab.Tools.Session
import VDevLab.Runner.Dispatch
import VDevLab.Runner.Backend
import VDevLab.Runner.Run
import VDevLab.Runner.Cleanup
import VDevLab.Runner.Isolation
import VDevLab.Runner.KernelLog
import VDevLab.Runner.Process
import VDevLab.Runner.Termination
import VDevLab.Runner.Result
import VDevLab.Runner.Scheduler
import VDevLab.Runner.Clock
import VDevLab.Runner.Script
import VDevLab.Runner.Inject
import VDevLab.Analysis.Log
import VDevLab.Analysis.Evaluate
import VDevLab.Analysis.Segments
import VDevLab.Analysis.Windows
import VDevLab.Analysis.RoundTrip
import VDevLab.Analysis.Truncated
import VDevLab.Report.Build
import VDevLab.Report.Verdict
import VDevLab.Report.Junit
import VDevLab.Report.Cli
import VDevLab.Report.Timeout
import VDevLab.Report.Total
import VDevLab.Report.Timeline
import VDevLab.Report.Origin
import VDevLab.Report.Json
import VDevLab.Report.JsonDocument
import VDevLab.Report.JunitDocument
import VDevLab.Report.Invalid
import VDevLab.Monitor.Client
import VDevLab.Monitor.LogText
import VDevLab.Monitor.Options
import VDevLab.Monitor.Loop
import VDevLab.Monitor.Exit
import VDevLab.Monitor.World
import VDevLab.Monitor.Injection
import VDevLab.Monitor.Retries
import VDevLab.Monitor.EndToEnd
import VDevLab.Monitor.Measured
import VDevLab.Monitor.Buffer
import VDevLab.Monitor.Chunks
import VDevLab.Monitor.Framing
