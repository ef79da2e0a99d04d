import MWebServer.Lib.Scan
import MWebServer.Lib.Run
import MWebServer.Lib.Buckets
import MWebServer.Lib.StableQueue
import MWebServer.Lib.Walk
import MWebServer.Lib.Words
import MWebServer.Lib.LastChoice
import MWebServer.Lib.Ledger
import MWebServer.Lib.ThreeWay
import MWebServer.Lib.RoundRobin
import MWebServer.Lib.Framing
import MWebServer.Base
import MWebServer.Mevent.RingBuffer
import MWebServer.Mevent.Timer
import MWebServer.Mevent.TimerTail
import MWebServer.Mevent.ServerManager
import MWebServer.Mevent.TimeEvent
import MWebServer.Mevent.Sleep
import MWebServer.Mevent.Agenda
import MWebServer.Mevent.Startup
import MWebServer.Mevent.Barrier
import MWebServer.Mevent.Listener
import MWebServer.Mevent.Kernel
import MWebServer.Mevent.Connection
import MWebServer.Mevent.Reading
import MWebServer.Mevent.Sending
import MWebServer.Mevent.Deferred
import MWebServer.Mevent.EventIo
import MWebServer.Mevent.Growth
import MWebServer.Web.Str
import MWebServer.Web.Dict
import MWebServer.Web.HttpParser
import MWebServer.Web.Resume
import MWebServer.Web.Url
import MWebServer.Web.UrlParts
import MWebServer.Web.Locality
import MWebServer.Web.RequestLine
import MWebServer.Web.HeaderLine
import MWebServer.Web.HeaderLive
import MWebServer.Web.SlicesInside
import MWebServer.Web.HttpResponse
import MWebServer.Web.HttpRequest
import MWebServer.Web.RequestLineHandler
import MWebServer.Web.VersionCheck
import MWebServer.Web.Handled
import MWebServer.Web.HeaderSection
import MWebServer.Web.RootConfinement
import MWebServer.Web.OpenedPath
import MWebServer.Web.Response
import MWebServer.Web.Lifecycle
import MWebServer.Web.Delivery
import MWebServer.Web.Segmentation
import MWebServer.Web.BodyCount
import MWebServer.Web.ContentLength
import MWebServer.Web.HeaderErrors
import MWebServer.Web.KeepAlive
import MWebServer.Web.Unfinished
import MWebServer.Web.OpenedResource
import MWebServer.Web.LoopEnds
import MWebServer.Web.ErrorPage
import MWebServer.Web.Descriptors
import MWebServer.Web.HeadRoundTrip
import MWebServer.Web.FileSize
import MWebServer.Web.Announced
import MWebServer.Web.TurnCases
import MWebServer.Web.Closing
import MWebServer.Web.RealStatus
import MWebServer.Web.Pipeline
import MWebServer.Web.Alike
import MWebServer.Web.Interference
import MWebServer.Web.ReadRoom
import MWebServer.Web.ContentType
import MWebServer.Web.Answer
import MWebServer.Web.Conversation
import MWebServer.Web.Client
import MWebServer.Web.Wire
import MWebServer.Web.Drained
