import Qkmetisc.Foundations.InputMachine
import Qkmetisc.Foundations.Prog
import Qkmetisc.Bstream.Defs
import Qkmetisc.Bstream.Queue
import Qkmetisc.Bstream.Length
import Qkmetisc.Bstream.Read
import Qkmetisc.Server.TaskOrder
import Qkmetisc.Server.Timers
import Qkmetisc.Server.Descriptor
import Qkmetisc.Server.HangUp
import Qkmetisc.Server.Race
import Qkmetisc.EqGen.Generate
import Qkmetisc.EqGen.Task
import Qkmetisc.Plots.Linear
import Qkmetisc.CommandLine.ShortNames
import Qkmetisc.Server.Ownership
import Qkmetisc.Bstream.Segments
import Qkmetisc.Server.Borrowed
import Qkmetisc.Server.Delivery
import Qkmetisc.Foundations.BufferedFile
import Qkmetisc.PythonShellcode.Task
import Qkmetisc.Checks.Task
import Qkmetisc.Checks.Segments
import Qkmetisc.Checks.Pipelined
import Qkmetisc.CommandLine.Match
import Qkmetisc.CommandLine.Words
import Qkmetisc.CommandLine.Held
import Qkmetisc.CommandLine.Bounds
import Qkmetisc.CommandLine.Permutation
import Qkmetisc.CommandLine.Convert
import Qkmetisc.Foundations.LinkedRing
import Qkmetisc.CommandLine.HashRing
import Qkmetisc.CommandLine.Visits
import Qkmetisc.CommandLine.Arguments
import Qkmetisc.CommandLine.Rollback
import Qkmetisc.CommandLine.Recovery
import Qkmetisc.Server.PlotSockets
import Qkmetisc.Server.PlotSocketLives
import Qkmetisc.Foundations.RefCount
import Qkmetisc.Gens.Texts
import Qkmetisc.Foundations.LockedSections
import Qkmetisc.Server.Clients
import Qkmetisc.Server.Sections
import Qkmetisc.Server.ClientLives
import Qkmetisc.Plots.Lifetime
import Qkmetisc.EqGen.InPlace
import Qkmetisc.EqGen.Malformed
import Qkmetisc.EqGen.Length
import Qkmetisc.EqGen.PrintBytes
import Qkmetisc.PythonShellcode.Chunks
import Qkmetisc.Plots.Timeout
import Qkmetisc.Server.RemovePlot
import Qkmetisc.Server.WorkerPool
import Qkmetisc.Foundations.LeastLoaded
import Qkmetisc.Server.Pool
import Qkmetisc.Bstream.Asked
import Qkmetisc.CommandLine.Help
import Qkmetisc.CommandLine.NullSafety
import Qkmetisc.Gens.Failures
import Qkmetisc.Foundations.LinkedList
import Qkmetisc.Lists.List
import Qkmetisc.Lists.Listc
import Qkmetisc.Bstream.Regions
import Qkmetisc.Lists.ForeachSafe
