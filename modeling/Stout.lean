import Stout.Library.Runs
import Stout.Library.Threads
import Stout.Library.Program
import Stout.Library.RangeOrder
import Stout.Library.Lease
import Stout.Library.Buckets
import Stout.Library.Files
import Stout.Library.FileTree
import Stout.Library.FileViews
import Stout.Library.Paths
import Stout.Library.MsgpackReaderSpec
import Stout.Library.MsgpackAppend
import Stout.Library.MsgpackUnique
import Stout.Library.JsonText
import Stout.Library.JsonScanner
import Stout.Library.JsonCompact
import Stout.Library.JsonTight
import Stout.Isolate.ResponseStream
import Stout.Isolate.MtnRuns
import Stout.Isolate.MtnUtf8
import Stout.Isolate.MtnFailures
import Stout.Isolate.MtnRefill
import Stout.Isolate.MtnPoolInit
import Stout.Isolate.MtnBackup
import Stout.Isolate.Requests
import Stout.Isolate.FrameSync
import Stout.Isolate.ReplyFraming
import Stout.Isolate.OutputCollector
import Stout.Isolate.SpawnKill
import Stout.Isolate.Channels
import Stout.Isolate.ConnectionStream
import Stout.Isolate.SkipPieces
import Stout.Isolate.ConnectionProgress
import Stout.Porto.SpawnQueue
import Stout.Porto.Cleanup
import Stout.Porto.StartupGcRuns
import Stout.Porto.GcPhase
import Stout.Porto.SpawnIntact
import Stout.Porto.ExtraVolumes
import Stout.Porto.Layers
import Stout.Library.BufferedReader
import Stout.Library.ForwardReader
import Stout.Library.Following
import Stout.Library.Shrinking
import Stout.Library.MsgpackStream
import Stout.Library.MsgpackStreamSpec
import Stout.Library.MsgpackStreamBuffer
import Stout.Library.MsgpackStreamProgress
import Stout.Library.Admission
import Stout.Docker.CollectOutput
import Stout.Docker.Spawn
import Stout.Process.Spawn
import Stout.Isolate.SpawnAdmission
import Stout.Porto.ProtectedOptions
import Stout.Porto.PropertyMerge
import Stout.Porto.Inspect
import Stout.Porto.Tracking
import Stout.Porto.WaitLoop
import Stout.Library.SingleFlight
import Stout.Library.SingleFlightServed
import Stout.Library.SingleFlightResults
import Stout.Porto.BlobRepo
import Stout.Library.ChildTable
import Stout.Docker.Removal
import Stout.Docker.WatchEvents
import Stout.Docker.ImagePull
import Stout.Process.Box
import Stout.Process.Reaping
import Stout.Process.Kill
import Stout.Process.Helpers
import Stout.Process.ArchiveStays
import Stout.Process.ArchiveContents
import Stout.Library.SortedSearch
import Stout.Library.Registry
import Stout.Library.Compression
import Stout.Porto.Journal
import Stout.Porto.JournalSync
import Stout.Docker.Spool
import Stout.Docker.Workers
import Stout.Porto.Workers
import Stout.Process.Workers
import Stout.Isolate.Inspection
import Stout.Daemon.Construction
import Stout.Process.ArchiveFormat
import Stout.Docker.ProfileCodec
import Stout.Docker.ResourceLimits
import Stout.Porto.ProfileCodec
