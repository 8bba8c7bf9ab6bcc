import RustyCastle.Foundation.Text
import RustyCastle.Foundation.Utf8Lossy
import RustyCastle.Foundation.Terminated
import RustyCastle.Foundation.Splitting
import RustyCastle.Foundation.Decimal
import RustyCastle.Foundation.Calendar
import RustyCastle.Foundation.Hexadecimal
import RustyCastle.Foundation.Entities
import RustyCastle.Foundation.HtmlMarkup
import RustyCastle.Foundation.JsonText
import RustyCastle.Foundation.JsonGrammar
import RustyCastle.Foundation.Cursor
import RustyCastle.Foundation.HeaderBlock
import RustyCastle.Foundation.Bounded
import RustyCastle.Foundation.Runs
import RustyCastle.Foundation.Inflow
import RustyCastle.Foundation.Network
import RustyCastle.Foundation.Beacon
import RustyCastle.Foundation.Ledger
import RustyCastle.Foundation.DepthFirst
import RustyCastle.Foundation.Slots
import RustyCastle.Foundation.Pieces
import RustyCastle.Foundation.FiniteMap
import RustyCastle.Foundation.PackedStack
import RustyCastle.Foundation.ParentLinks
import RustyCastle.Foundation.XmlText
import RustyCastle.Foundation.XmlTokens
import RustyCastle.Foundation.XmlWritten
import RustyCastle.Foundation.XmlTree
import RustyCastle.Foundation.XmlFragment
import RustyCastle.Foundation.XmlQuery
import RustyCastle.Ssdp.Basic
import RustyCastle.Ssdp.Target
import RustyCastle.Ssdp.HeaderValues
import RustyCastle.Ssdp.Usn
import RustyCastle.Ssdp.ValueGrammar
import RustyCastle.Ssdp.Message
import RustyCastle.Ssdp.Parse
import RustyCastle.Ssdp.ParseSound
import RustyCastle.Ssdp.Encode
import RustyCastle.Ssdp.RoundTrip
import RustyCastle.Ssdp.HeaderRules
import RustyCastle.Ssdp.DatagramGrammar
import RustyCastle.Ssdp.HeaderOrder
import RustyCastle.Ssdp.UnknownHeaders
import RustyCastle.Ssdp.Timer
import RustyCastle.Ssdp.TimerMap
import RustyCastle.Ssdp.Cache
import RustyCastle.Ssdp.ControlPoint
import RustyCastle.Ssdp.ControlPointSteps
import RustyCastle.Ssdp.SearchSent
import RustyCastle.Ssdp.SearchQueue
import RustyCastle.Ssdp.CutDatagrams
import RustyCastle.Ssdp.CacheKey
import RustyCastle.Ssdp.CacheFill
import RustyCastle.Ssdp.CacheWakeup
import RustyCastle.Ssdp.CacheEvents
import RustyCastle.Ssdp.Device
import RustyCastle.Ssdp.DeviceSizes
import RustyCastle.Ssdp.DeviceQueue
import RustyCastle.Ssdp.DeviceSteps
import RustyCastle.Ssdp.DeviceLedger
import RustyCastle.Ssdp.DeviceCapacity
import RustyCastle.Ssdp.DeviceSchedule
import RustyCastle.Ssdp.Progress
import RustyCastle.Ssdp.DeviceBurst
import RustyCastle.Ssdp.DeviceSilence
import RustyCastle.Ssdp.DeviceTruth
import RustyCastle.Ssdp.DeviceTargets
import RustyCastle.Ssdp.TargetPrinters
import RustyCastle.Ssdp.DeviceAnswers
import RustyCastle.Ssdp.DeviceServing
import RustyCastle.Ssdp.Network
import RustyCastle.Ssdp.NetworkBeliefs
import RustyCastle.Ssdp.Announcements
import RustyCastle.Ssdp.NetworkSafety
import RustyCastle.Ssdp.Convergence
import RustyCastle.Upnp.Xml
import RustyCastle.Upnp.Ids
import RustyCastle.Upnp.Soap
import RustyCastle.Upnp.SoapMessage
import RustyCastle.Upnp.SoapNamespace
import RustyCastle.Upnp.SoapFrame
import RustyCastle.Upnp.SoapReading
import RustyCastle.Upnp.RequestReading
import RustyCastle.Upnp.SoapElements
import RustyCastle.Upnp.ClosedText
import RustyCastle.Upnp.SoapComments
import RustyCastle.Upnp.ResponseReading
import RustyCastle.Upnp.Device
import RustyCastle.Upnp.DeviceReading
import RustyCastle.Upnp.FaultReading
import RustyCastle.Upnp.Scpd
import RustyCastle.Upnp.ScpdReading
import RustyCastle.Dlna.ProtocolInfo
import RustyCastle.Dlna.ProtocolInfoReading
import RustyCastle.UpnpAv.Didl
import RustyCastle.UpnpAv.DidlReading
import RustyCastle.UpnpAv.ContentDirectory
import RustyCastle.UpnpAv.BrowseReading
import RustyCastle.UpnpAv.ConnectionManager
import RustyCastle.MediaHttp.Range
import RustyCastle.MediaHttp.Response
import RustyCastle.MediaHttp.PlanArithmetic
import RustyCastle.MediaHttp.RangeSemantics
import RustyCastle.Server.Catalog
import RustyCastle.Server.UpdateId
import RustyCastle.Server.Control
import RustyCastle.Server.Browse
import RustyCastle.Server.Addressing
import RustyCastle.Server.Files
import RustyCastle.Server.Mp4
import RustyCastle.Server.DurationText
import RustyCastle.Server.Mp4Reading
import RustyCastle.Server.Mp4Boxes
import RustyCastle.Server.Scan
import RustyCastle.Server.FileTree
import RustyCastle.Server.TreeWalk
import RustyCastle.Server.ScanTree
import RustyCastle.Server.Description
import RustyCastle.Server.Ui
import RustyCastle.Server.Runtime
import RustyCastle.Server.Timestamp
import RustyCastle.Server.Scenario
import RustyCastle.Server.Rescan
import RustyCastle.Server.ScanGraph
import RustyCastle.Server.Exploration
import RustyCastle.Server.Framing
import RustyCastle.Server.Library
import RustyCastle.Server.ScanOrder
import RustyCastle.Server.MediaServing
import RustyCastle.Server.MediaSize
import RustyCastle.Server.MediaIds
import RustyCastle.Server.Listings
import RustyCastle.Server.Escaping
import RustyCastle.Server.EmptyElements
import RustyCastle.Server.BrowseAgreement
import RustyCastle.Server.BrowseNames
import RustyCastle.Server.Discovery
import RustyCastle.Server.SsdpLoop
import RustyCastle.Server.Requests
import RustyCastle.Server.Responses
import RustyCastle.Server.Connections
import RustyCastle.Server.Downloads
import RustyCastle.Server.DownloadRuns
import RustyCastle.Server.SourceProtocols
import RustyCastle.Server.ServiceContract
