import LuaNode.Library.Runs
import LuaNode.Library.ChunkedCoding
import LuaNode.Http.Calls
import LuaNode.Http.ServerConnection
import LuaNode.Http.MessageBytes
import LuaNode.Http.AgentQueue
import LuaNode.Http.KeepAlive
import LuaNode.Http.ParserCallbacks
import LuaNode.Http.BodyDelivery
import LuaNode.Http.Trailers
import LuaNode.Events.Once
import LuaNode.Events.UnhandledError
import LuaNode.Loop.NextTick
import LuaNode.Net.Socket
import LuaNode.Http.ClientErrors
import LuaNode.Http.ParserPool
import LuaNode.Net.Connection
import LuaNode.Net.HandleTable
import LuaNode.Net.Moves
import LuaNode.Net.Keeps
import LuaNode.Net.Phases
import LuaNode.Net.WriteOrder
import LuaNode.Net.CloseOnce
import LuaNode.Net.Closing
import LuaNode.Net.EarlyFinish
import LuaNode.Net.Late
import LuaNode.Net.Reconnect
import LuaNode.Net.Reading
import LuaNode.Net.Pausing
import LuaNode.Http.Bookkeeping
import LuaNode.Http.Drain
import LuaNode.Net.Server
import LuaNode.Net.AcceptLoop
import LuaNode.Net.Counting
import LuaNode.Net.NativeSocket
import LuaNode.Net.DeferredClose
import LuaNode.Net.HalfClose
import LuaNode.Loop.Interval
import LuaNode.Loop.ClearTimer
import LuaNode.Events.Pipe
import LuaNode.Events.PipeCleanup
import LuaNode.Events.BackPressure
import LuaNode.Library.LinkedRing
import LuaNode.Loop.IdleTimers
import LuaNode.Loop.OneShot
import LuaNode.Loop.IdleLists
import LuaNode.Loop.IdleTimeouts
import LuaNode.Http.Flush
import LuaNode.Http.MergedHeaders
import LuaNode.Library.Separators
import LuaNode.Http.ParseBack
import LuaNode.Library.Substring
import LuaNode.Net.Datagram
import LuaNode.Net.InputReads
import LuaNode.Readline.Interface
import LuaNode.Readline.Cursor
import LuaNode.Readline.Input
import LuaNode.Http.DeferToConnect
import LuaNode.Http.RequestTimeout
import LuaNode.Library.LexPrefix
import LuaNode.Readline.Completion
import LuaNode.Readline.Deletions
import LuaNode.Readline.KeyErrors
import LuaNode.Readline.History
import LuaNode.Library.Lines
import LuaNode.Readline.NormalWrite
import LuaNode.Library.Double
import LuaNode.Readline.EmitKey
import LuaNode.Readline.FunctionKeys
import LuaNode.Http.Url
import LuaNode.Http.RequestTarget
import LuaNode.Loop.IdleClock
import LuaNode.Loop.IdleStarts
import LuaNode.Library.Components
import LuaNode.Path.Normalize
import LuaNode.Path.Split
import LuaNode.Library.PercentCoding
import LuaNode.Http.QueryString
import LuaNode.Console.BuildMessage
import LuaNode.Library.LuaObjects
import LuaNode.Repl.Complete
import LuaNode.HttpParser.Struct
import LuaNode.HttpParser.Switch
import LuaNode.HttpParser.Execute
import LuaNode.HttpParser.Legal
import LuaNode.HttpParser.Cases
import LuaNode.HttpParser.Safety
import LuaNode.HttpParser.Segments
import LuaNode.HttpParser.Reading
import LuaNode.HttpParser.FirstLine
import LuaNode.HttpParser.Fields
import LuaNode.HttpParser.HeaderLines
import LuaNode.HttpParser.Bodies
import LuaNode.HttpParser.Messages
import LuaNode.HttpParser.Endings
import LuaNode.HttpParser.Halting
import LuaNode.Http.ReadBack
import LuaNode.Http.ParsedMessage
