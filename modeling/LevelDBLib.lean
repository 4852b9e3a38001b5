import LevelDBLib.Library.Buffers
import LevelDBLib.Library.Tapes
import LevelDBLib.Library.Runs
import LevelDBLib.Library.Logs
import LevelDBLib.Library.Ranges
import LevelDBLib.Library.Recency
import LevelDBLib.Library.BranchTrees
import LevelDBLib.Library.Varints
import LevelDBLib.Library.Roundings
import LevelDBLib.Library.Agreements
import LevelDBLib.Library.Numerals
import LevelDBLib.KvDB.Value
import LevelDBLib.KvDB.Stream
import LevelDBLib.KvDB.Page
import LevelDBLib.KvDB.PageManagement
import LevelDBLib.KvDB.PageInfo
import LevelDBLib.KvDB.PageDisk
import LevelDBLib.KvDB.Segments
import LevelDBLib.KvDB.Pages
import LevelDBLib.KvDB.Chain
import LevelDBLib.KvDB.Append
import LevelDBLib.KvDB.ReadBack
import LevelDBLib.KvDB.Clear
import LevelDBLib.KvDB.Allocation
import LevelDBLib.KvDB.Overwrite
import LevelDBLib.KvDB.PageTable
import LevelDBLib.KvDB.Ownership
import LevelDBLib.KvDB.OwnershipRuns
import LevelDBLib.KvDB.Records
import LevelDBLib.KvDB.AppendBounds
import LevelDBLib.KvDB.MyStream
import LevelDBLib.KvDB.Offsets
import LevelDBLib.KvDB.RecordRuns
import LevelDBLib.KvDB.ReadAfterWrite
import LevelDBLib.KvDB.Rewrite
import LevelDBLib.KvDB.Reload
import LevelDBLib.KvDB.DamagedTable
import LevelDBLib.KvDB.Reopen
import LevelDBLib.KvDB.Stdio
import LevelDBLib.KvDB.DevCache
import LevelDBLib.KvDB.TableFile
import LevelDBLib.KvDB.CachedPages
import LevelDBLib.KvDB.Devices
import LevelDBLib.KvDB.Steady
import LevelDBLib.KvDB.Registration
import LevelDBLib.KvDB.Failures
import LevelDBLib.KvDB.FailureRuns
import LevelDBLib.KvDB.PageAddresses
import LevelDBLib.KvDB.Coherence
import LevelDBLib.KvDB.GeometryQuery
import LevelDBLib.KvDB.Index
import LevelDBLib.KvDB.IndexNodes
import LevelDBLib.KvDB.IndexSplit
import LevelDBLib.KvDB.IndexInsert
import LevelDBLib.KvDB.IndexFind
import LevelDBLib.KvDB.IndexRuns
import LevelDBLib.KvDB.IndexShape
import LevelDBLib.KvDB.PageStore
import LevelDBLib.KvDB.IndexFile
import LevelDBLib.KvDB.IndexSave
import LevelDBLib.KvDB.IndexPasses
import LevelDBLib.KvDB.IndexSearch
import LevelDBLib.KvDB.IndexRanges
import LevelDBLib.KvDB.PageWrites
import LevelDBLib.KvDB.IndexSegment
import LevelDBLib.KvDB.IndexOwnership
import LevelDBLib.KvDB.Field
import LevelDBLib.KvDB.FileStream
import LevelDBLib.KvDB.Record
import LevelDBLib.KvDB.VarInt
import LevelDBLib.KvDB.RecordCodec
import LevelDBLib.KvDB.CacheRuns
import LevelDBLib.KvDB.CacheOrder
import LevelDBLib.KvDB.StreamBounds
import LevelDBLib.KvDB.TypedStream
import LevelDBLib.KvDB.Truncation
import LevelDBLib.KvDB.RecordStream
import LevelDBLib.KvDB.VarIntHead
import LevelDBLib.KvDB.RecordGroups
import LevelDBLib.KvDB.Schema
import LevelDBLib.KvDB.SchemaCodec
import LevelDBLib.KvDB.SchemaTables
import LevelDBLib.KvDB.DataFeature
import LevelDBLib.KvDB.DataSegment
import LevelDBLib.KvDB.Lines
import LevelDBLib.KvDB.Walk
import LevelDBLib.KvDB.FullScan
import LevelDBLib.KvDB.MetaSegment
import LevelDBLib.Navi.Record
import LevelDBLib.Navi.RecordParse
import LevelDBLib.Navi.Status
import LevelDBLib.Navi.PathParser
import LevelDBLib.Navi.LevelDB
import LevelDBLib.Navi.Keys
import LevelDBLib.Library.Traces
import LevelDBLib.Navi.Batches
import LevelDBLib.Navi.Factory
import LevelDBLib.Navi.VirtualMemFile
import LevelDBLib.Navi.PathLoops
import LevelDBLib.Navi.AllocatedFile
import LevelDBLib.Library.Decimals
import LevelDBLib.Navi.Logging
import LevelDBLib.Navi.Filename
import LevelDBLib.Navi.Paths
import LevelDBLib.Navi.Destroy
import LevelDBLib.Library.Replays
import LevelDBLib.Navi.Recovery
import LevelDBLib.Navi.LogOrder
import LevelDBLib.Navi.VirtualMemFileSystem
import LevelDBLib.Navi.FileSystem
import LevelDBLib.Navi.PosixEnv
import LevelDBLib.Navi.Handles
import LevelDBLib.Navi.Coding
import LevelDBLib.Library.ShiftRegisters
import LevelDBLib.Navi.Crc32c
import LevelDBLib.Navi.LogFormat
import LevelDBLib.Navi.LogWriter
import LevelDBLib.Navi.LogReader
import LevelDBLib.Library.Comparisons
import LevelDBLib.Library.Simulations
import LevelDBLib.Navi.InternalKeys
import LevelDBLib.Navi.MemTable
import LevelDBLib.Navi.WriteBatch
import LevelDBLib.Navi.MemTableInserter
import LevelDBLib.Navi.LogRecovery
import LevelDBLib.Navi.WriteQueueRuns
