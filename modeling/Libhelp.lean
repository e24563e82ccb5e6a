import Libhelp.Lib.Program
import Libhelp.Lib.Transition
import Libhelp.Lib.LexOrder
import Libhelp.Lib.OrdMap
import Libhelp.Lib.PrefixCopy
import Libhelp.Lib.CString
import Libhelp.Lib.Strtol
import Libhelp.Lib.Decimal
import Libhelp.Lib.Record
import Libhelp.Lib.Search
import Libhelp.Lib.LinkedList
import Libhelp.Lib.Word
import Libhelp.Lib.Region
import Libhelp.Lib.Arena
import Libhelp.Lib.ByteMemory
import Libhelp.Config.Loader
import Libhelp.Config.Scan
import Libhelp.Config.Simulation
import Libhelp.Config.Meaning
import Libhelp.Config.Memory
import Libhelp.Config.FileLoad
import Libhelp.Config.Grammar
import Libhelp.Config.Loading
import Libhelp.Config.ErrorLine
import Libhelp.Config.Semicolon
import Libhelp.Config.CopyStatement
import Libhelp.Config.Quoted
import Libhelp.Config.KeyBound
import Libhelp.Config.KeyRoom
import Libhelp.Config.Check
import Libhelp.Config.Positions
import Libhelp.Config.Number
import Libhelp.Config.Hex
import Libhelp.Config.Heap
import Libhelp.Config.HeapRefinement
import Libhelp.Config.HeapLoad
import Libhelp.Config.HeapNew
import Libhelp.Config.HeapRuns
import Libhelp.Timer.Timer
import Libhelp.Timer.Pass
import Libhelp.Timer.Expirations
import Libhelp.Timer.Reads
import Libhelp.Timer.Ufds
import Libhelp.Timer.Heap
import Libhelp.Timer.Live
import Libhelp.Semaphore.Wakeup
import Libhelp.Semaphore.Accounting
import Libhelp.Semaphore.Create
import Libhelp.Semaphore.Tokens
import Libhelp.Logger.Logger
import Libhelp.Logger.Stream
import Libhelp.Logger.Offsets
import Libhelp.Message.Message
import Libhelp.Message.Queue
import Libhelp.Message.Udp
import Libhelp.Message.Dispatch
import Libhelp.Message.Leftover
import Libhelp.Message.Order
import Libhelp.Message.Terminator
import Libhelp.Proc.Proc
import Libhelp.Proc.Title
import Libhelp.Proc.Area
import Libhelp.Logger.ProcTitle
import Libhelp.Pool.Pool
import Libhelp.Pool.Walk
import Libhelp.Pool.Alloc
import Libhelp.Pool.Invariant
import Libhelp.Pool.Regions
import Libhelp.Pool.Account
import Libhelp.Pool.Delete
import Libhelp.Pool.Chain
import Libhelp.Pool.Returns
import Libhelp.Pool.Room
import Libhelp.Pool.Abandoned
import Libhelp.Pool.GiveBack
import Libhelp.Pool.Contents
import Libhelp.File.Copy
import Libhelp.Lockrun.Options
import Libhelp.Lockrun.Lock
import Libhelp.Lockrun.Exclusion
