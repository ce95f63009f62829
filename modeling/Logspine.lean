import Logspine.FlushReturns
import Logspine.MpscQueueSafety
import Logspine.FlushBarrier
import Logspine.Shutdown
import Logspine.SyncAgreement
import Logspine.Json
import Logspine.JsonParser
import Logspine.JsonText
import Logspine.JsonEncoding
import Logspine.FileSystem
import Logspine.ZlibHelper
import Logspine.RotationFailures
import Logspine.LineFraming
import Logspine.Logger
import Logspine.OtlpHttpSink
import Logspine.GelfReassembly
import Logspine.Registry
import Logspine.TcpJsonLinesSink
import Logspine.GelfChunks
import Logspine.GelfRetries
import Logspine.NetworkAccounts
import Logspine.DropOldest
import Logspine.QueueCapacity
import Logspine.MdcOrder
import Logspine.MpscQueueFifo
import Logspine.Sockets
import Logspine.StringFields
import Logspine.Timestamps
import Logspine.FlushWaits
import Logspine.ShutdownReturns
import Logspine.MpscQueueProgress
import Logspine.LogFiles
import Logspine.Overflow
import Logspine.SyncDispatcher
import Logspine.ConsoleSink
import Logspine.GelfWriters
import Logspine.OtlpRequests
import Logspine.Overtaking
import Logspine.CompressedRotation
import Logspine.LoggerNames
import Logspine.BulkWriters
