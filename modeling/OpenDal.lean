import OpenDal.Automaton
import OpenDal.Splitting
import OpenDal.Segments
import OpenDal.Types.Error
import OpenDal.Types.Buffer
import OpenDal.Types.BufferSequence
import OpenDal.Types.BufferDrain
import OpenDal.Raw.QueueBuf
import OpenDal.Types.WriteGenerator
import OpenDal.Raw.ConcurrentTasks
import OpenDal.Raw.TaskOrder
import OpenDal.Raw.TaskClient
import OpenDal.Raw.MultipartWriter
import OpenDal.Raw.MultipartUpload
import OpenDal.Raw.MultipartCommit
import OpenDal.Raw.Read
import OpenDal.Types.ReadGenerator
import OpenDal.Types.BufferStream
import OpenDal.Types.ChunkedRead
import OpenDal.Types.ReaderRead
import OpenDal.Types.ReadTermination
import OpenDal.Types.ContentRead
import OpenDal.Types.RetriedRead
import OpenDal.Layers.CompleteReader
import OpenDal.Raw.Path
import OpenDal.Types.Entry
import OpenDal.Raw.Delete
import OpenDal.Types.Deleter
import OpenDal.Types.DeleterClose
import OpenDal.Types.DeletedEntries
import OpenDal.Types.RemoveAll
import OpenDal.Types.DeleteSink
import OpenDal.Types.RetriedWrite
import OpenDal.Raw.FlexBuf
import OpenDal.Types.StdWriter
import OpenDal.Types.BufferSink
import OpenDal.Types.FuturesAsyncWriter
import OpenDal.Raw.WriteTasks
import OpenDal.Raw.BlockWriter
import OpenDal.Raw.BlockUpload
import OpenDal.Raw.PositionWriter
import OpenDal.Raw.PositionUpload
import OpenDal.Layers.Retry
import OpenDal.Layers.ResumedRead
import OpenDal.Forest
import OpenDal.Raw.DirTree
import OpenDal.Raw.FlatLister
import OpenDal.Raw.FlatWalk
import OpenDal.Raw.FlatEnumeration
import OpenDal.Raw.RetriedList
import OpenDal.Layers.CompleteLister
import OpenDal.Layers.EmulatedList
import OpenDal.Types.BufferCopy
import OpenDal.Types.SeekingReader
import OpenDal.Types.ReaderCursor
import OpenDal.Types.RefusedOpen
import OpenDal.Raw.TaskFailure
import OpenDal.Layers.CompleteWriter
import OpenDal.Raw.MultipartSession
import OpenDal.Raw.BlockSession
import OpenDal.Raw.PositionSession
import OpenDal.Raw.SafeCommits
import OpenDal.Raw.LateFailures
import OpenDal.Raw.Root
import OpenDal.Services.ObjectDelete
import OpenDal.Services.ExactDelete
import OpenDal.Raw.MixedPart
import OpenDal.Services.MixedDelete
import OpenDal.PercentEncoding
import OpenDal.Services.GcsRequests
import OpenDal.Raw.HierarchyLister
import OpenDal.Raw.KvBackend
import OpenDal.Raw.RootedMap
import OpenDal.Program
import OpenDal.Raw.PathNames
import OpenDal.Raw.PathCache
import OpenDal.Raw.CachedPaths
import OpenDal.Services.Drive
import OpenDal.Services.DriveChanges
import OpenDal.Services.Gdrive
import OpenDal.Services.GdriveCache
import OpenDal.Types.DeleterCount
import OpenDal.Types.DeleterRetries
import OpenDal.ByteStream
import OpenDal.Services.MemcachedSession
import OpenDal.Intervals
import OpenDal.Types.Fetch
import OpenDal.Types.RangeParsing
import OpenDal.Types.BlockingRead
import OpenDal.Types.UnboundedRead
import OpenDal.Layers.VersionedRead
import OpenDal.Services.ObjectVersions
import OpenDal.Services.FailedPages
import OpenDal.Types.SeekArithmetic
import OpenDal.Layers.RangeReads
import OpenDal.Raw.HierarchyLevels
import OpenDal.QuotedText
import OpenDal.Services.QueryLiterals
import OpenDal.Types.DeletePaths
import OpenDal.TextSlice
import OpenDal.Raw.RootedPath
import OpenDal.Services.WebdavLister
import OpenDal.Layers.EmptyRequests
import OpenDal.Raw.BlockAbort
import OpenDal.Services.WebhdfsWriter
import OpenDal.Services.AbortedBlocks
import OpenDal.Services.AtomicWrites
import OpenDal.Services.HdfsWriter
import OpenDal.PrefixTree
import OpenDal.Services.MissingParents
import OpenDal.Services.WebhdfsLister
import OpenDal.Raw.LookupRuns
import OpenDal.Services.GdriveRename
import OpenDal.Services.FailedRename
import OpenDal.Types.EmptyWrites
import OpenDal.Types.BufferedBytes
import OpenDal.Types.WriteContext
import OpenDal.Services.FsWriter
import OpenDal.Raw.PathWalk
import OpenDal.Services.FsLister
import OpenDal.Raw.KvReads
import OpenDal.Raw.CachedValue
import OpenDal.Types.BufferSlices
import OpenDal.Types.BufferCounters
import OpenDal.Raw.ConcurrentFutures
import OpenDal.Raw.FuturesQueue
import OpenDal.Raw.FuturesRuns
import OpenDal.Raw.SharedPaths
import OpenDal.Raw.SharedPathRuns
import OpenDal.Layers.ImmutableIndex
import OpenDal.Services.MemcachedFrames
import OpenDal.LikePattern
import OpenDal.Services.SqliteScan
import OpenDal.MessageFraming
import OpenDal.Raw.FormData
import OpenDal.Raw.RequestPart
import OpenDal.Raw.MixedReplies
import OpenDal.OrderedMap
import OpenDal.Services.Memory
import OpenDal.Raw.NormalizedPath
import OpenDal.DecimalText
import OpenDal.Raw.RangeHeaders
import OpenDal.Raw.ContentRange
import OpenDal.Types.ReadTiling
import OpenDal.Raw.QueueRuns
import OpenDal.Raw.FlexRuns
import OpenDal.Raw.PathParents
import OpenDal.Raw.RequestWriter
import OpenDal.Raw.AppendWriter
import OpenDal.Raw.OneShotWriter
import OpenDal.Services.OnedriveWriter
import OpenDal.Layers.ErrorContext
import OpenDal.Layers.ReadStack
import OpenDal.Semaphore
import OpenDal.Layers.ConcurrentLimit
import OpenDal.Layers.LimitedCalls
import OpenDal.Layers.LimitedRead
import OpenDal.Layers.ReadPermits
import OpenDal.Layers.RetriedWriter
import OpenDal.Layers.RetriedUploads
import OpenDal.Loop
import OpenDal.Types.StdReads
import OpenDal.Types.SkippedReads
import OpenDal.Bindings.PythonFile
import OpenDal.Bindings.JavaRegistry
import OpenDal.Types.ListerStream
import OpenDal.Services.RetriedPages
import OpenDal.Mailbox
import OpenDal.Services.MonoiofsWriter
import OpenDal.Services.MonoiofsReader
