import ServerBase.Lib.Machine
import ServerBase.Lib.History
import ServerBase.Lib.Scanner
import ServerBase.Lib.Decimal
import ServerBase.Lib.Http
import ServerBase.Lib.IdPool
import ServerBase.Lib.Ledger
import ServerBase.Lib.Calendar
import ServerBase.Lib.TextBuffer
import ServerBase.Lib.Json.Tokens
import ServerBase.Lib.Json.Spelling
import ServerBase.Lib.Json.Utf8
import ServerBase.Lib.Json.Strings
import ServerBase.Lib.Pointers
import ServerBase.Prereqs
import ServerBase.Printf
import ServerBase.Picohttp
import ServerBase.Network
import ServerBase.RequestLine
import ServerBase.Undecided
import ServerBase.Dispatch
import ServerBase.ReceivedBytes
import ServerBase.Segments
import ServerBase.Disposition
import ServerBase.Response
import ServerBase.Thread
import ServerBase.SampleHttp
import ServerBase.Security
import ServerBase.Yyjson.Strings
import ServerBase.Yyjson.StringsProof
import ServerBase.Yyjson.Numbers
import ServerBase.Yyjson.NumbersProof
import ServerBase.Yyjson.Reader
import ServerBase.Yyjson.ReaderProof
import ServerBase.Yyjson.Access
import ServerBase.Yyjson.Document
import ServerBase.Yyjson.Scalars
import ServerBase.Yyjson.Integers
import ServerBase.Yyjson.StringWriter
import ServerBase.Yyjson.Writer
import ServerBase.Yyjson.WriterBuffer
import ServerBase.Yyjson.WriterProof
import ServerBase.Yyjson.RoundTrip
import ServerBase.Yyjson.Mutable
import ServerBase.Yyjson.TextLength
import ServerBase.Yyjson.Building
import ServerBase.Yyjson.Replies
import ServerBase.SampleReply
import ServerBase.Auth.Callbacks
import ServerBase.Auth.Server
import ServerBase.Auth.Coroutines
import ServerBase.Auth.Resume
import ServerBase.Auth.Loop
import ServerBase.Auth.Moves
import ServerBase.Auth.Pool
import ServerBase.Auth.Ownership
import ServerBase.Auth.Waiting
import ServerBase.Auth.Idle
import ServerBase.Auth.Streams
import ServerBase.Auth.Said
import ServerBase.Auth.RealWait
import ServerBase.Auth.Capacity
import ServerBase.Auth.Requests
import ServerBase.Auth.OneAnswer
import ServerBase.Auth.Accounting
import ServerBase.Auth.Identity
import ServerBase.Auth.Expiry
import ServerBase.Auth.Delivery
import ServerBase.Slotmap.Handle
import ServerBase.Slotmap.SlotMapTracker
import ServerBase.Slotmap.SlotMap
import ServerBase.Slotmap.SSlotMap
import ServerBase.Slotmap.LiveEntries
import ServerBase.Slotmap.Representation
import ServerBase.Slotmap.Versions
import ServerBase.Slotmap.HighWater
import ServerBase.Coroutines.Manager
import ServerBase.Coroutines.Accounts
import ServerBase.Coroutines.Reaping
import ServerBase.Coroutines.Process
import ServerBase.Coroutines.Release
import ServerBase.Coroutines.Places
import ServerBase.Coroutines.Tick
import ServerBase.Coroutines.Handles
import ServerBase.Logger.Logger
import ServerBase.Logger.Sync
import ServerBase.Logger.Thread
import ServerBase.Logger.Lossless
import ServerBase.Logger.Dates
import ServerBase.Logger.Retention
import ServerBase.Logger.Days
import ServerBase.OsUtils
import ServerBase.KeepAlive.Processes
import ServerBase.KeepAlive.OneServer
import ServerBase.KeepAlive.Restarts
import ServerBase.Stats.PerfRecord
import ServerBase.Stats.Rendering
import ServerBase.Stats.Page
import ServerBase.Stats.Metrics
import ServerBase.Stats.Histogram
import ServerBase.Stats.Responses
import ServerBase.Lib.Exposition
import ServerBase.Stats.Exposition
