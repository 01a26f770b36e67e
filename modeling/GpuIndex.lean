import GpuIndex.Lib.Calendar
import GpuIndex.Lib.Datetime
import GpuIndex.Lib.Digits
import GpuIndex.Lib.IsoFormat
import GpuIndex.Lib.JsonNumber
import GpuIndex.Lib.JsonString
import GpuIndex.Lib.Json
import GpuIndex.Lib.Base64
import GpuIndex.Lib.Prog
import GpuIndex.Lib.OrderBy
import GpuIndex.Lib.Selection
import GpuIndex.Lib.IndexScan
import GpuIndex.Lib.Trace
import GpuIndex.Lib.Pool
import GpuIndex.Lib.PoolFront
import GpuIndex.Lib.RelyGuarantee
import GpuIndex.Lib.Permits
import GpuIndex.Lib.TimedPermits
import GpuIndex.Lib.UniqueLocks
import GpuIndex.Lib.FirstWins
import GpuIndex.Lib.Forgetful
import GpuIndex.Lib.FixedWindow
import GpuIndex.Lib.ExpiringStore
import GpuIndex.Lib.Keyset
import GpuIndex.Lib.Joined
import GpuIndex.Db.Columns
import GpuIndex.Db.Models
import GpuIndex.Db.Queries
import GpuIndex.Db.Indexes
import GpuIndex.Db.Migrations
import GpuIndex.Core.Config
import GpuIndex.Core.World
import GpuIndex.Fixture
import GpuIndex.Core.Svc
import GpuIndex.Core.Amid
import GpuIndex.Core.Cache
import GpuIndex.Core.Security
import GpuIndex.Core.Effects
import GpuIndex.Core.Comply
import GpuIndex.Core.ReadThrough
import GpuIndex.Core.CacheCounters
import GpuIndex.Core.Invalidation
import GpuIndex.Core.RemovedEntries
import GpuIndex.Core.FreshEntries
import GpuIndex.Core.FreshReads
import GpuIndex.Core.Limiter
import GpuIndex.Core.SharedLimiter
import GpuIndex.Core.CounterLife
import GpuIndex.Core.KeyIsolation
import GpuIndex.Schemas.Models
import GpuIndex.Services.Cursor
import GpuIndex.Services.Pricing
import GpuIndex.Services.LatestPrices
import GpuIndex.Services.HistoryWalk
import GpuIndex.Services.OffsetPaging
import GpuIndex.Services.Indexing
import GpuIndex.Services.Ranking
import GpuIndex.Services.IndexScans
import GpuIndex.Services.ComparedAnswers
import GpuIndex.Services.Ingestion
import GpuIndex.Services.FanOut
import GpuIndex.Services.FanOutTime
import GpuIndex.Services.IngestRuns
import GpuIndex.Api.Routes
import GpuIndex.Api.Responses
import GpuIndex.Api.CacheKeys
import GpuIndex.Api.StoredPrices
import GpuIndex.Api.IngestBatch
import GpuIndex.Api.StoredBatches
import GpuIndex.Api.GrowingTables
import GpuIndex.Api.ConcurrentIngests
import GpuIndex.Api.HistoryCursors
import GpuIndex.Api.RouteSpecs
import GpuIndex.Api.PriceSummary
import GpuIndex.Api.ReportedMedian
import GpuIndex.Api.CacheContents
import GpuIndex.Api.ConcurrentRequests
import GpuIndex.Api.Answers
import GpuIndex.Api.Exceptions
import GpuIndex.Api.RedisFailures
import GpuIndex.Api.IntegerRange
import GpuIndex.Api.CacheTransparency
import GpuIndex.Api.IngestAtomicity
import GpuIndex.Api.Listings
import GpuIndex.Api.HandlerCalls
import GpuIndex.Api.GatedCalls
import GpuIndex.Api.LimitedRequests
import GpuIndex.Api.SharedCache
import GpuIndex.Api.SnapshotAnswers
import GpuIndex.Api.SerialIngests
import GpuIndex.Api.SplitBatches
import GpuIndex.Api.ReadYourWrites
import GpuIndex.Deploy.Workflow
import GpuIndex.Scripts.BenchIngest
import GpuIndex.Scripts.Tune
import GpuIndex.Scripts.Seed
import GpuIndex.Scripts.SeedRuns
import GpuIndex.Scripts.SeedTarget
