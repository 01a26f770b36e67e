/-
  The `/v1` routes.

  A `Route` is a request whose parameters passed validation: each bound that validation checks is a
  field.  `handle` is the handler of a route, `serveRequest` runs its dependencies first, and
  `respond` turns what it raises into a response.
-/
import GpuIndex.Core.Cache
import GpuIndex.Core.Security
import GpuIndex.Services.Indexing
import GpuIndex.Services.Ingestion

namespace GpuIndex

open Calendar
open JsonText (FloatFormat FloatVal Value lookup)

/-! ## Requests -/

/-- The parameters of `GET /v1/gpus`. -/
structure ListGpusQuery where
  vendor : Option String
  minVramGb : Option Nat
  limit : Nat
  limit_range : 1 ≤ limit ∧ limit ≤ 500

/-- The parameters of `GET /v1/gpus/{gpu_id}/prices`. -/
structure PricesQuery where
  gpuId : Int
  availability : Option String
  windowDays : Int
  windowDays_range : 1 ≤ windowDays ∧ windowDays ≤ 365

/-- The parameters of `GET /v1/gpus/{gpu_id}/prices/history`. -/
structure HistoryQuery where
  gpuId : Int
  cursor : Option String
  limit : Nat
  limit_range : 1 ≤ limit ∧ limit ≤ 500

/-- The parameters of `GET /v1/gpus/{gpu_id}/benchmarks`. -/
structure BenchmarksQuery where
  gpuId : Int
  workload : Option String
  precision : Option String
  limit : Nat
  limit_range : 1 ≤ limit ∧ limit ≤ 500

/-- The parameters of `GET /v1/index/{workload}`. -/
structure IndexQuery where
  workload : String
  precision : Option String
  limit : Nat
  limit_range : 1 ≤ limit ∧ limit ≤ 200

/-- A request to one of the routes. -/
inductive Route where
  | listGpus (q : ListGpusQuery)
  | gpuPrices (q : PricesQuery)
  | gpuPriceHistory (q : HistoryQuery)
  | gpuBenchmarks (q : BenchmarksQuery)
  | workloadIndex (q : IndexQuery)
  | ingest (payload : List PricePointIn)

/-- A request with its `X-API-Key` header. -/
structure Request where
  apiKey : Option String
  route : Route

/-! ## Catalogue routes -/

/-- `GpuModelOut.model_validate` -/
def GpuModelOut.ofModel (g : GpuModel) : GpuModelOut :=
  ⟨g.id.val, g.vendor.val, g.modelName.val, g.vramGb.val, g.arch.val, g.tdpW.val⟩

/-- `BenchmarkOut.model_validate` -/
def BenchmarkOut.ofRun (fmt : FloatFormat) (b : BenchmarkRun) : BenchmarkOut :=
  ⟨b.workload.val, b.precision.val, fmt.round b.throughput.value, fmt.round b.latencyP95Ms.value,
    utc b.runAt⟩

/-- `list_gpus` -/
def listGpus (q : ListGpusQuery) : Svc (Page GpuModelOut) := do
  let rows ← query (.listGpus (truthy q.vendor) (q.minVramGb.map Int.ofNat) q.limit)
  return { items := rows.map GpuModelOut.ofModel, count := rows.length }

/-- `_load_gpu` -/
def loadGpu (gpuId : Int) : Svc GpuModel := do
  match ← query (.getGpuModel gpuId) with
  | some gpu => return gpu
  | none => throw (.http 404 ("No GPU model " ++ toString gpuId ++ ".") [])

/-- `gpu_benchmarks` -/
def gpuBenchmarks (env : Env) (q : BenchmarksQuery) : Svc (Page BenchmarkOut) := do
  let _ ← loadGpu q.gpuId
  let rows ← query (.benchmarks q.gpuId (truthy q.workload) (truthy q.precision) q.limit)
  return { items := rows.map (BenchmarkOut.ofRun env.fmt), count := rows.length }

/-! ## Prices -/

/-- The cache key of `gpu_prices`. -/
def pricesKey (q : PricesQuery) : String :=
  "prices:" ++ toString q.gpuId ++ ":" ++ (truthy q.availability).getD "all" ++ ":"
    ++ toString q.windowDays

/-- The producer of `gpu_prices`. -/
def producePrices (q : PricesQuery) : Svc Json := do
  let rows ← latestPrices q.gpuId q.windowDays q.availability 200
  return latestJson rows

/-- Whether a JSON value counts as true. -/
def isTruthy : Json → Bool
  | .null => false
  | .bool b => b
  | .int n => n ≠ 0
  | .float x => x ≠ .finite 0
  | .str s => s ≠ ""
  | .surrogates _ => true
  | .arr xs => !xs.isEmpty
  | .obj members => !members.isEmpty
  | .ext _ => true

/-- `a < b` on doubles. -/
def floatLt : FloatVal → FloatVal → Bool
  | .finite a, .finite b => a < b
  | .finite _, .infinity neg => !neg
  | .infinity neg, .finite _ => neg
  | .infinity true, .infinity false => true
  | _, _ => false

/-- `min` of a sequence that is not empty. -/
def minFloat (x : FloatVal) (xs : List FloatVal) : FloatVal :=
  xs.foldl (fun m y => if floatLt y m then y else m) x

/-- The answer when there are no rows. -/
def emptySummary (gpuModel : String) : PriceSummaryOut :=
  ⟨gpuModel, 0, 0, .finite 0, none, []⟩

/-- The answer of `gpu_prices` for the rows in hand. -/
def priceSummary (env : Env) (gpuModel : String) (rows : Json) : Except Exn PriceSummaryOut := do
  if !isTruthy rows then return emptySummary gpuModel
  let rows ← elements rows
  let regions ← rows.mapM fun r => do strField (← subscript "region" r)
  let providers ← rows.mapM fun r => do strField (← subscript "provider" r)
  let rates ← rows.mapM fun r => do floatField env (← subscript "usd_per_hour" r)
  let median ← match rows with
    | [] => .error Exn.typeError
    | .obj members :: _ => optionalFloatField env ((lookup "median_30d" members).getD .null)
    | _ :: _ => .error Exn.typeError
  let points ← rows.mapM (PricePointOut.ofRow env)
  match rates with
  | [] => .error .valueError
  | rate :: rates =>
    return ⟨gpuModel, regions.dedup.length, providers.dedup.length, minFloat rate rates, median,
      points⟩

/-- `gpu_prices` -/
def gpuPrices (env : Env) (q : PricesQuery) : Svc PriceSummaryOut := do
  let gpu ← loadGpu q.gpuId
  let (rows, _hit) ← readThrough env (pricesKey q) (producePrices q) none
  ofExcept (priceSummary env gpu.modelName.val rows)

/-! ## Price history -/

/-- A page row as it is sent. -/
def PricePointOut.ofPageRow (r : PageRow) : PricePointOut :=
  ⟨r.provider.val, r.region.val, r.instanceType.val, r.usdPerHour, r.availability.val,
    utc r.observedAt⟩

/-- `gpu_price_history` -/
def gpuPriceHistory (env : Env) (q : HistoryQuery) : Svc (Page PricePointOut) := do
  let _ ← loadGpu q.gpuId
  let (rows, next) ← pricePage env q.gpuId q.limit q.cursor
  return { items := rows.map PricePointOut.ofPageRow, count := rows.length, nextCursor := next }

/-! ## Index -/

/-- The cache key of `workload_index`. -/
def indexKey (q : IndexQuery) : String :=
  "index:" ++ q.workload ++ ":" ++ (truthy q.precision).getD "any" ++ ":" ++ toString q.limit

/-- The producer of `workload_index`. -/
def produceIndex (q : IndexQuery) : Svc Json := do
  let rows ← computeIndex q.workload q.precision 30 q.limit
  return indexJson rows

/-- The answer of `workload_index` for the rows in hand. -/
def indexPage (env : Env) (rows : Json) : Except Exn (Page IndexEntryOut) := do
  let rows ← elements rows
  let items ← rows.mapM (IndexEntryOut.ofRow env)
  return { items := items, count := rows.length }

/-- `workload_index` -/
def workloadIndex (env : Env) (q : IndexQuery) : Svc (Page IndexEntryOut) := do
  let (rows, _hit) ← readThrough env (indexKey q) (produceIndex q) none
  ofExcept (indexPage env rows)

/-! ## Ingest -/

/-- `ingest` -/
def ingest (payload : List PricePointIn) : Svc IngestResult := do
  if 5000 < payload.length then throw (.http 413 "Batch limit is 5000 observations." [])
  let (accepted, rejected, errors) ← ingestPrices payload
  let invalidated ← invalidatePrefix "prices:"
  let invalidated' ← invalidatePrefix "index:"
  return ⟨accepted, rejected, invalidated + invalidated', errors.take 20⟩

/-! ## Serving -/

/-- The handler of a route. -/
def handle (env : Env) : Route → Svc Response
  | .listGpus q => do return ⟨200, .gpus (← listGpus q), []⟩
  | .gpuPrices q => do return ⟨200, .summary (← gpuPrices env q), []⟩
  | .gpuPriceHistory q => do return ⟨200, .prices (← gpuPriceHistory env q), []⟩
  | .gpuBenchmarks q => do return ⟨200, .benchmarks (← gpuBenchmarks env q), []⟩
  | .workloadIndex q => do return ⟨200, .index (← workloadIndex env q), []⟩
  | .ingest payload => do return ⟨202, .ingest (← ingest payload), []⟩

/-- A request: the API key, the limiter, the handler. -/
def serveRequest (env : Env) (req : Request) : Svc Response := do
  let principal ← requireApiKey env.settings req.apiKey
  let _ ← rateLimit env principal
  handle env req.route

/-- What the client gets for a result or an exception. -/
def respond : Except Exn Response → Response
  | .ok r => r
  | .error (.http status detail headers) => ⟨status, .error detail, headers⟩
  | .error _ => ⟨500, .error "Internal Server Error", []⟩

/-- A request served alone in a world, with a session of its own. -/
def served (env : Env) (choices : Nat → Choice) (req : Request) (w : World) :
    Except Exn Response × Machine := runSvc env choices (serveRequest env req) ⟨w, {}⟩

/-- What the client gets, and the world that is left. -/
def serve (env : Env) (choices : Nat → Choice) (req : Request) (w : World) : Response × World :=
  (respond (served env choices req w).1, (served env choices req w).2.world)

end GpuIndex
