import GplugMini.Library.ByteText
import GplugMini.Library.DecimalText
import GplugMini.Library.FlatObject
import GplugMini.Library.FirstOccurrence
import GplugMini.Library.CallTree
import GplugMini.Library.EmittingRun
import GplugMini.Library.GapSegmenter
import GplugMini.Library.FormCoding
import GplugMini.Library.Utf8Text
import GplugMini.Library.JsonText
import GplugMini.Library.DnsMessage
import GplugMini.Library.FlatJson
import GplugMini.Library.HexText
import GplugMini.ObisMap
import GplugMini.Aggregator
import GplugMini.Decode
import GplugMini.Framing
import GplugMini.Receive
import GplugMini.HaDiscovery
import GplugMini.Net
import GplugMini.PublishCycle
import GplugMini.MeterSerial
import GplugMini.MainLoop
import GplugMini.Config
import GplugMini.ConfigStore
import GplugMini.Provisioning
import GplugMini.Indicator
import GplugMini.Ota
import GplugMini.Segmentation
import GplugMini.PublicationTrace
import GplugMini.PublishedTotals
import GplugMini.MeterIdentity
import GplugMini.BrokerSession
import GplugMini.DiscoverySession
import GplugMini.OtaDownloads
import GplugMini.ConfigAtomicity
import GplugMini.Submission
import GplugMini.Device
import GplugMini.OtaCommands
import GplugMini.OtaValidation
import GplugMini.Supervisor
import GplugMini.BootDecision
import GplugMini.ConfigReading
import GplugMini.AcceptedSubmission
import GplugMini.DiscoveryRounds
import GplugMini.DiscoveryRetry
import GplugMini.PromotedEntities
import GplugMini.CycleLabels
import GplugMini.CycleMessage
import GplugMini.SubmittedValues
import GplugMini.InPlaceDecode
import GplugMini.SetBounds
import GplugMini.UsableConfig
import GplugMini.DiscoveryNames
import GplugMini.DiscoveryTexts
import GplugMini.NetworkList
import GplugMini.CaptiveDns
import GplugMini.ParseSpans
import GplugMini.LeastTrim
import GplugMini.LineProbe
import GplugMini.ResultLines
import GplugMini.RecordResults
import GplugMini.RecordedResults
import GplugMini.HomeReadings
import GplugMini.SimSource
import GplugMini.BurstDump
import GplugMini.LineSettings
import GplugMini.PublishPulses
import GplugMini.PortalSession
import GplugMini.BenchRun
import GplugMini.ReleaseGates
import GplugMini.Watchdog
import GplugMini.UpdateLives
import GplugMini.ConfigLives
