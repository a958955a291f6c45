import Webserv.Client.Answering
import Webserv.Client.Body
import Webserv.Client.Buffering
import Webserv.Client.CgiDocument
import Webserv.Client.ChunkFeed
import Webserv.Client.ChunkGrammar
import Webserv.Client.ChunkLoop
import Webserv.Client.ChunkSizes
import Webserv.Client.Feed
import Webserv.Client.Fragmentation
import Webserv.Client.Framing
import Webserv.Client.FramingHeaders
import Webserv.Client.Head
import Webserv.Client.Header
import Webserv.Client.HeaderFields
import Webserv.Client.HeaderOrder
import Webserv.Client.HeaderUse
import Webserv.Client.LengthFeed
import Webserv.Client.Parsing
import Webserv.Client.PostHead
import Webserv.Client.RequestHead
import Webserv.Client.RequestLine
import Webserv.Client.Response
import Webserv.Client.ResponseFraming
import Webserv.Client.ResponseHead
import Webserv.Client.State
import Webserv.Client.StatusLine
import Webserv.Client.ToldLength
import Webserv.Config
import Webserv.Config.Acceptance
import Webserv.Config.Addresses
import Webserv.Config.Conflicts
import Webserv.Config.Json
import Webserv.Config.JsonCorrect
import Webserv.Config.JsonGrammar
import Webserv.Config.JsonPositions
import Webserv.Config.Node
import Webserv.Config.Parse
import Webserv.Config.Printing
import Webserv.Config.Schema
import Webserv.Config.Tokenizer
import Webserv.Config.Writing
import Webserv.Fault
import Webserv.FileSystem
import Webserv.Foundations.Chunked
import Webserv.Foundations.Environ
import Webserv.Foundations.Exec
import Webserv.Foundations.IndexedVector
import Webserv.Foundations.LexicalPath
import Webserv.Foundations.Lines
import Webserv.Foundations.Map
import Webserv.Foundations.Pieces
import Webserv.Foundations.Search
import Webserv.Numeral
import Webserv.Server.Action
import Webserv.Server.Aside
import Webserv.Server.CgiEnvironment
import Webserv.Server.CgiRoots
import Webserv.Server.CgiSplit
import Webserv.Server.Coherent
import Webserv.Server.Coupling
import Webserv.Server.Descriptors
import Webserv.Server.Dispatch
import Webserv.Server.Escapes
import Webserv.Server.Exceptions
import Webserv.Server.FdTypes
import Webserv.Server.Finalising
import Webserv.Server.Forward
import Webserv.Server.Frames
import Webserv.Server.Growth
import Webserv.Server.Handlers
import Webserv.Server.History
import Webserv.Server.Inside
import Webserv.Server.Inversion
import Webserv.Server.Isolation
import Webserv.Server.Lifecycle
import Webserv.Server.Location
import Webserv.Server.LongestMatch
import Webserv.Server.Mirror
import Webserv.Server.Orderly
import Webserv.Server.Ownership
import Webserv.Server.Pass
import Webserv.Server.Permissions
import Webserv.Server.Questions
import Webserv.Server.ReadTrace
import Webserv.Server.Reaping
import Webserv.Server.Records
import Webserv.Server.Roots
import Webserv.Server.Run
import Webserv.Server.RunTrace
import Webserv.Server.Sending
import Webserv.Server.ShutDown
import Webserv.Server.Starting
import Webserv.Server.State
import Webserv.Server.Statuses
import Webserv.Server.Sweep
import Webserv.Server.Tables
import Webserv.Server.Timing
import Webserv.Server.ToldLength
import Webserv.Server.Trace
import Webserv.Server.Transmission
import Webserv.Server.Upkeep
import Webserv.Server.VirtualServers
import Webserv.Utils
