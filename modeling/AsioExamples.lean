import AsioExamples.Theory.Decimal
import AsioExamples.Theory.Path
import AsioExamples.Theory.Lines
import AsioExamples.Theory.Recogniser
import AsioExamples.Theory.Grammar
import AsioExamples.Theory.ReadLoop
import AsioExamples.Theory.Cutting
import AsioExamples.Theory.Packets
import AsioExamples.Theory.Unrolled
import AsioExamples.Theory.Rotation
import AsioExamples.Theory.Descriptors
import AsioExamples.Theory.Keyed
import AsioExamples.Theory.Machine
import AsioExamples.Theory.Exchange
import AsioExamples.Theory.Outbox
import AsioExamples.Theory.Pipe
import AsioExamples.Theory.Shared
import AsioExamples.Theory.Strand
import AsioExamples.Http.ParserAgreement
import AsioExamples.Http.VersionFields
import AsioExamples.Http.UrlDecoding
import AsioExamples.Http.DocumentRoot
import AsioExamples.Http.FileServing
import AsioExamples.Http.ContentTypes
import AsioExamples.Http.IndexPages
import AsioExamples.Http.ReplyFraming
import AsioExamples.Http.RequestAgreement
import AsioExamples.Http.ReplyAgreement
import AsioExamples.Http.Server.RequestLanguage
import AsioExamples.Http.Server.ParserInvariant
import AsioExamples.Http.Server.Lifecycle
import AsioExamples.Http.Server.PeerSteps
import AsioExamples.Http.Server.Shutdown
import AsioExamples.Http.Server2.Server
import AsioExamples.Http.Server2.Connection
import AsioExamples.Http.Server2.Threads
import AsioExamples.Http.Server2.Connections
import AsioExamples.Http.Server4.RequestFraming
import AsioExamples.Http.Server4.ContentLengths
import AsioExamples.Http.Server4.Isolation
import AsioExamples.Http.Server4.Accepting
import AsioExamples.Http.Splitting
import AsioExamples.Http.ClientProcess
import AsioExamples.Http.Network
import AsioExamples.Http.Answering
import AsioExamples.Http.Delivered
import AsioExamples.Chat.Framing
import AsioExamples.Chat.HeaderForms
import AsioExamples.Chat.Delivery
import AsioExamples.Chat.Speaking
import AsioExamples.Chat.ClientClose
import AsioExamples.Chat.TypedLines
import AsioExamples.Chat.BufferSafety
import AsioExamples.Chat.InputCutting
import AsioExamples.Chat.FrameReading
import AsioExamples.Chat.Network
import AsioExamples.Chat.Upstream
import AsioExamples.Chat.Spoken
import AsioExamples.Chat.Conversation
import AsioExamples.Chat.Arrival
import AsioExamples.Chat.Server
import AsioExamples.Chat.SameOutput
import AsioExamples.Allocation.HandlerMemory
import AsioExamples.Allocation.Session
import AsioExamples.Allocation.Server
import AsioExamples.Daytime.Tcp
import AsioExamples.Daytime.Lifetime
import AsioExamples.Daytime.Udp
import AsioExamples.Daytime.Datagrams
import AsioExamples.Daemon.Process
import AsioExamples.Daemon.Detached
import AsioExamples.Timer.Printer
import AsioExamples.Timer.Counting
import AsioExamples.Duff.Copy
import AsioExamples.Duff.Contents
