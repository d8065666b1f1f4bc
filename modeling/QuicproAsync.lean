import QuicproAsync.OrderedMap
import QuicproAsync.Fallible
import QuicproAsync.ScanLoop
import QuicproAsync.WordBytes
import QuicproAsync.PhpValue
import QuicproAsync.PhpKeys
import QuicproAsync.IibinInternal
import QuicproAsync.IibinSchema
import QuicproAsync.IibinEncoding
import QuicproAsync.IibinDecoding
import QuicproAsync.IibinWire
import QuicproAsync.IibinWireRefinement
import QuicproAsync.IibinRegistry
import QuicproAsync.IibinPrimitives
import QuicproAsync.IibinVarints
import QuicproAsync.IibinKeys
import QuicproAsync.IibinDefinitions
import QuicproAsync.IibinProgress
import QuicproAsync.IibinDelivery
import QuicproAsync.IibinDefaults
import QuicproAsync.IibinTransfer
import QuicproAsync.IibinArrival
import QuicproAsync.IibinRoundTrip
import QuicproAsync.IibinFidelity
import QuicproAsync.IibinLayout
import QuicproAsync.IibinCompatibility
import QuicproAsync.IibinMerge
import QuicproAsync.IibinAcceptance
import QuicproAsync.IibinMismatch
import QuicproAsync.IibinLifetimes
import QuicproAsync.IibinMixedLists
import QuicproAsync.IibinNesting
import QuicproAsync.IibinReturn
import QuicproAsync.IibinReencoding
import QuicproAsync.IibinCanonical
import QuicproAsync.IibinJs
import QuicproAsync.IibinJsReading
import QuicproAsync.IibinJsAgreement
import QuicproAsync.IibinJsArrival
import QuicproAsync.IibinJsStack
import QuicproAsync.IibinJsStrictness
import QuicproAsync.IibinModes
import QuicproAsync.Cluster
import QuicproAsync.IibinReporting
import QuicproAsync.ClusterSafety
import QuicproAsync.ClusterReload
import QuicproAsync.ClusterRestart
import QuicproAsync.ClusterRuns
import QuicproAsync.ClusterCalls
import QuicproAsync.ClusterGiveUp
import QuicproAsync.Pipeline
import QuicproAsync.PipelineRuns
import QuicproAsync.Cors
import QuicproAsync.HttpClientHeaders
import QuicproAsync.HttpHeaderBlocks
import QuicproAsync.QuicSessions
import QuicproAsync.Http2Server
import QuicproAsync.Http1Server
import QuicproAsync.Decimal
import QuicproAsync.Http1Framing
import QuicproAsync.Http1Closing
import QuicproAsync.Http2Connection
import QuicproAsync.Http2Streaming
import QuicproAsync.SendStream
import QuicproAsync.WebSocket
import QuicproAsync.WebSocketFrames
import QuicproAsync.Mcp
import QuicproAsync.McpTimeouts
import QuicproAsync.ClientSession
import QuicproAsync.SessionTickets
import QuicproAsync.BusyPoll
import QuicproAsync.XdpDrain
import QuicproAsync.ClientConnect
import QuicproAsync.Descriptors
import QuicproAsync.Connect
import QuicproAsync.DialledPort
import QuicproAsync.ConfigValidators
import QuicproAsync.ValidatedSettings
import QuicproAsync.Configuration
import QuicproAsync.ConfigUpdates
import QuicproAsync.ConfigSuccess
import QuicproAsync.ConfigRanges
import QuicproAsync.AllowLists
import QuicproAsync.AffinityMap
import QuicproAsync.ToolRegistry
import QuicproAsync.CancelHandlers
import QuicproAsync.CancelReentry
import QuicproAsync.ClusterShutdown
