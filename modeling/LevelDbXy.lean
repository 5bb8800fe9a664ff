import LevelDbXy.DataStructure.Slice
import LevelDbXy.Util.Status
import LevelDbXy.DbFormat.InternalKey
import LevelDbXy.DataStructure.SkipList
import LevelDbXy.DataStructure.SkipListSearch
import LevelDbXy.DataStructure.SkipListInsert
import LevelDbXy.DataStructure.SkipListIterator
import LevelDbXy.DataStructure.MemTable
import LevelDbXy.DataStructure.MemTableRead
import LevelDbXy.WriteBatch.Batch
import LevelDbXy.Library.RecordStream
import LevelDbXy.WriteBatch.Parser
import LevelDbXy.WriteBatch.Codec
import LevelDbXy.WriteBatch.Apply
import LevelDbXy.Log.Format
import LevelDbXy.Log.Layout
import LevelDbXy.Log.Writer
import LevelDbXy.Log.Reader
import LevelDbXy.Log.Assembly
import LevelDbXy.Log.Records
import LevelDbXy.Log.RoundTrip
import LevelDbXy.Log.Offset
import LevelDbXy.Log.Damage
import LevelDbXy.DataStructure.SkipListSet
import LevelDbXy.DataStructure.MemTableIterator
import LevelDbXy.DbFormat.InternalKeyOrder
import LevelDbXy.DbFormat.InternalKeyCodec
import LevelDbXy.Env.FileLock
import LevelDbXy.DataStructure.SkipListConcurrent
import LevelDbXy.Cache.LRUCache
import LevelDbXy.Library.LinkRing
import LevelDbXy.Cache.HandleTable
import LevelDbXy.Cache.Lists
import LevelDbXy.Cache.HandleTableInsert
import LevelDbXy.Cache.Memory
import LevelDbXy.Cache.Contents
import LevelDbXy.Cache.Holds
import LevelDbXy.Cache.Client
import LevelDbXy.Cache.Representation
import LevelDbXy.Cache.Lifetime
import LevelDbXy.Cache.Reference
import LevelDbXy.Cache.Refinement
import LevelDbXy.DbFormat.ShortKeys
import LevelDbXy.FilterPolicy.Bloom
import LevelDbXy.Library.ShiftRegister
import LevelDbXy.Util.Crc32cTables
import LevelDbXy.Env.Scheduler
import LevelDbXy.Log.Safety
import LevelDbXy.Util.Crc32c
import LevelDbXy.Env.SchedulerInvariant
import LevelDbXy.Env.SchedulerTasks
import LevelDbXy.Env.RandomAccessFile
import LevelDbXy.Env.MappedRegions
import LevelDbXy.Env.PosixFiles
import LevelDbXy.Env.LimiterThreads
import LevelDbXy.Memory.Arena
import LevelDbXy.Cache.HandleTableMap
import LevelDbXy.Util.LengthPrefixed
import LevelDbXy.Cache.Pinned
import LevelDbXy.Cache.Sharded
import LevelDbXy.Cache.ShardedLookup
import LevelDbXy.Env.SequentialFile
import LevelDbXy.Env.WritableFile
import LevelDbXy.Env.WritableSession
import LevelDbXy.Env.ManifestSync
import LevelDbXy.Env.WholeFile
import LevelDbXy.Algorithm.Random
import LevelDbXy.DataStructure.SkipListHeight
import LevelDbXy.Log.PosixLog
import LevelDbXy.Log.Durability
import LevelDbXy.WriteBatch.Recovery
import LevelDbXy.Log.ReadFaults
import LevelDbXy.DataStructure.SkipListConcurrentIterator
import LevelDbXy.DataStructure.MemTableConcurrent
import LevelDbXy.Cache.ShardedReference
import LevelDbXy.Env.SchedulerProgress
import LevelDbXy.Library.Buffer
import LevelDbXy.Library.Ownership
import LevelDbXy.Memory.ArenaUsage
import LevelDbXy.Util.StatusMemory
import LevelDbXy.DataStructure.MemTableStored
import LevelDbXy.WriteBatch.Snapshots
