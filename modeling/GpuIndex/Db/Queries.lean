/-
  The queries.

  Each definition is one SQL text, evaluated clause by clause on a database.  A `Plan` is what the
  engine is free to choose: the order in which it meets the rows of each input.  Comparisons of
  text in an `ORDER BY` follow the database's `Collation`.  Numbers stay exact until a `::float8`
  cast rounds them.
-/
import GpuIndex.Db.Models
import GpuIndex.Lib.JsonNumber
import GpuIndex.Lib.OrderBy

namespace GpuIndex

open Calendar OrderBy
open JsonText (FloatFormat FloatVal)

/-- How the database orders text: a total order in which only equal texts tie. -/
structure Collation extends Order String where
  antisymm : ∀ a b, le a b → le b a → a = b

/-- The order in which the engine meets the rows of each input. -/
structure Plan where
  gpuModels : Shuffle GpuModel
  prices : Shuffle PricePoint
  benchmarks : Shuffle BenchmarkRun
  latest : Shuffle (PricePoint × Provider)
  ranked : Shuffle (BenchmarkRun × PricePoint × GpuModel × Provider)

/-- Every input in the order it is stored in. -/
def Plan.stored : Plan :=
  ⟨.stored _, .stored _, .stored _, .stored _, .stored _⟩

/-! ## `LATEST_PRICES_SQL` -/

/-- A result row of `LATEST_PRICES_SQL`. -/
structure LatestRow where
  provider : Varchar 64
  region : Varchar 32
  instanceType : Varchar 64
  usdPerHour : FloatVal
  availability : Varchar 16
  observedAt : Instant
  median30d : Option FloatVal
  deriving DecidableEq

section Latest

variable (collation : Collation)

/-- `ORDER BY pp.provider_id, pp.region, pp.observed_at DESC` -/
def latestOrder : Order PricePoint :=
  (Order.asc fun p => p.providerId).thenBy
    ((collation.on fun p => p.region.val).thenBy (Order.desc fun p => p.observedAt))

/-- `ORDER BY l.usd_per_hour ASC, l.region ASC` -/
def summaryOrder : Order (PricePoint × Provider) :=
  (Order.asc fun r => r.1.usdPerHour.value).thenBy (collation.on fun r => r.1.region.val)

/-- The rows of the GPU inside the window. -/
def inWindow (gpuModelId : Integer) (since : Instant) (p : PricePoint) : Bool :=
  p.gpuModelId = gpuModelId ∧ since ≤ p.observedAt

/-- `AND pp.availability = :availability`, when the clause is there. -/
def matchesAvailability (availability : Option String) (p : PricePoint) : Bool :=
  availability.all fun a => p.availability.val = a

/-- The rows `latest` sorts. -/
def latestInput (plan : Plan) (db : Database) (gpuModelId : Integer) (since : Instant)
    (availability : Option String) : List PricePoint :=
  (plan.prices.apply db.pricePoints).filter fun p =>
    inWindow gpuModelId since p ∧ matchesAvailability availability p

/-- The common table expression `latest`. -/
def latestPerRegion (plan : Plan) (db : Database) (gpuModelId : Integer) (since : Instant)
    (availability : Option String) : List PricePoint :=
  distinctOn (fun p => (p.providerId, p.region))
    ((latestOrder collation).sort (latestInput plan db gpuModelId since availability))

/-- `percentile_cont(0.5)`: the middle value, or the mean of the two middle values. -/
def percentileCont (values : List ℚ) : Option ℚ :=
  let sorted := (Order.asc (id : ℚ → ℚ)).sort values
  match sorted[(sorted.length - 1) / 2]?, sorted[sorted.length / 2]? with
  | some lo, some hi => some (lo + (hi - lo) / 2)
  | _, _ => none

/-- The common table expression `median`. -/
def medianPrice (db : Database) (gpuModelId : Integer) (since : Instant) : Option ℚ :=
  percentileCont ((db.pricePoints.filter (inWindow gpuModelId since)).map fun p =>
    p.usdPerHour.value)

/-- `LATEST_PRICES_SQL` -/
def latestPricesSql (fmt : FloatFormat) (plan : Plan) (db : Database) (gpuModelId : Integer)
    (since : Instant) (availability : Option String) (limit : Nat) : List LatestRow :=
  let med := medianPrice db gpuModelId since
  let joined := (latestPerRegion collation plan db gpuModelId since availability).filterMap
    fun p => (db.provider? p.providerId).map fun pr => (p, pr)
  (((summaryOrder collation).sort (plan.latest.apply joined)).take limit).map fun r =>
    { provider := r.2.name
      region := r.1.region
      instanceType := r.1.instanceType
      usdPerHour := fmt.round r.1.usdPerHour.value
      availability := r.1.availability
      observedAt := r.1.observedAt
      median30d := med.map fmt.round }

theorem mem_latestInput {plan : Plan} {db : Database} {gpu : Integer} {since : Instant}
    {availability : Option String} {p : PricePoint} :
    p ∈ latestInput plan db gpu since availability
      ↔ p ∈ db.pricePoints ∧ inWindow gpu since p ∧ matchesAvailability availability p := by
  simp [latestInput]

variable {collation}

/-- Nothing is selected exactly when no price is in the window and passes the filter. -/
theorem latestPricesSql_eq_nil {fmt : FloatFormat} {plan : Plan}
    {db : Database} {gpu : Integer} {since : Instant} {availability : Option String} {limit : Nat}
    (hlimit : limit ≠ 0) :
    latestPricesSql collation fmt plan db gpu since availability limit = []
      ↔ ∀ p ∈ db.pricePoints, inWindow gpu since p → ¬ matchesAvailability availability p := by
  have hjoined : ((latestPerRegion collation plan db gpu since availability).filterMap
      fun p => (db.provider? p.providerId).map fun pr => (p, pr)) = []
      ↔ latestPerRegion collation plan db gpu since availability = [] := by
    refine ⟨fun h => List.eq_nil_iff_forall_not_mem.mpr fun p hp => ?_, fun h => by rw [h]; rfl⟩
    have hinput := (Order.mem_sort _).mp (mem_of_mem_distinctOn _ hp)
    obtain ⟨pr, hpr⟩ := db.provider?_isSome (mem_latestInput.mp hinput).1
    have hnone := List.filterMap_eq_nil_iff.mp h p hp
    rw [hpr] at hnone
    cases hnone
  rw [latestPricesSql, List.map_eq_nil_iff, List.take_eq_nil_iff, or_iff_right hlimit,
    Order.sort_eq_nil, Shuffle.apply_eq_nil, hjoined, latestPerRegion, distinctOn_eq_nil,
    Order.sort_eq_nil, List.eq_nil_iff_forall_not_mem]
  simp only [mem_latestInput, not_and]

end Latest

/-! ## `KEYSET_PAGE_SQL` -/

/-- A result row of `KEYSET_PAGE_SQL`. -/
structure PageRow where
  id : BigInteger
  provider : Varchar 64
  region : Varchar 32
  instanceType : Varchar 64
  usdPerHour : FloatVal
  availability : Varchar 16
  observedAt : Instant
  deriving DecidableEq

/-- `ORDER BY pp.observed_at DESC, pp.id DESC` -/
def keysetOrder : Order PricePoint :=
  (Order.desc fun p => p.observedAt).thenBy (Order.desc fun p => p.id)

/-- `(pp.observed_at, pp.id) < (:cursor_ts, :cursor_id)`, when the clause is there. -/
def beforeCursor (cursor : Option (Instant × BigInteger)) (p : PricePoint) : Bool :=
  cursor.all fun c => p.observedAt < c.1 ∨ p.observedAt = c.1 ∧ p.id < c.2

/-- A joined row as the query returns it. -/
def pageRow (fmt : FloatFormat) (p : PricePoint) (pr : Provider) : PageRow where
  id := p.id
  provider := pr.name
  region := p.region
  instanceType := p.instanceType
  usdPerHour := fmt.round p.usdPerHour.value
  availability := p.availability
  observedAt := p.observedAt

/-- `KEYSET_PAGE_SQL` -/
def keysetPageSql (fmt : FloatFormat) (plan : Plan) (db : Database) (gpuModelId : Integer)
    (cursor : Option (Instant × BigInteger)) (limit : Nat) : List PageRow :=
  let selected := (plan.prices.apply db.pricePoints).filter fun p =>
    p.gpuModelId = gpuModelId ∧ beforeCursor cursor p
  let joined := (keysetOrder.sort selected).filterMap fun p =>
    (db.provider? p.providerId).map fun pr => pageRow fmt p pr
  joined.take limit

/-! ## `INDEX_SQL` -/

/-- A result row of `INDEX_SQL`. -/
structure IndexRow where
  gpuModel : Varchar 64
  vendor : Varchar 32
  workload : String
  precision : Varchar 16
  bestUsdPerHour : FloatVal
  throughput : FloatVal
  usdPerMillionUnits : Option FloatVal
  provider : Varchar 64
  region : Varchar 32
  deriving DecidableEq

/-- `ORDER BY pp.gpu_model_id, pp.usd_per_hour ASC` -/
def bestPriceOrder : Order PricePoint :=
  (Order.asc fun p => p.gpuModelId).thenBy (Order.asc fun p => p.usdPerHour.value)

/-- The common table expression `best_price`. -/
def bestPrice (plan : Plan) (db : Database) (since : Instant) : List PricePoint :=
  distinctOn (fun p => p.gpuModelId) (bestPriceOrder.sort
    ((plan.prices.apply db.pricePoints).filter fun p =>
      since ≤ p.observedAt ∧ p.availability.val = "available"))

/-- `ORDER BY br.gpu_model_id, br.throughput DESC` -/
def bestBenchOrder : Order BenchmarkRun :=
  (Order.asc fun b => b.gpuModelId).thenBy (Order.desc fun b => b.throughput.value)

/-- `br.workload = :workload AND ((:precision)::text IS NULL OR br.precision = (:precision)::text)`
-/
def matchesBench (workload : String) (precision : Option String) (b : BenchmarkRun) : Bool :=
  b.workload.val = workload ∧ precision.all fun p => b.precision.val = p

/-- The common table expression `best_bench`. -/
def bestBench (plan : Plan) (db : Database) (workload : String) (precision : Option String) :
    List BenchmarkRun :=
  distinctOn (fun b => b.gpuModelId) (bestBenchOrder.sort
    ((plan.benchmarks.apply db.benchmarkRuns).filter (matchesBench workload precision)))

/-- `(bp.usd_per_hour / NULLIF(bb.throughput, 0)) * 1000000` -/
def usdPerMillion (price throughput : ℚ) : Option ℚ :=
  if throughput = 0 then none else some (price / throughput * 1000000)

/-- `ORDER BY usd_per_million_units ASC`; nulls come last.  The exact quotients are compared: the
    cast to a double can only make neighbours tie. -/
def rankingOrder : Order (BenchmarkRun × PricePoint × GpuModel × Provider) :=
  let ratio := fun r : BenchmarkRun × PricePoint × GpuModel × Provider =>
    usdPerMillion r.2.1.usdPerHour.value r.1.throughput.value
  (Order.asc fun r => (ratio r).isNone).thenBy (Order.asc fun r => (ratio r).getD 0)

/-- The joins and the `WHERE` of `INDEX_SQL`. -/
def indexJoin (plan : Plan) (db : Database) (workload : String) (precision : Option String)
    (since : Instant) : List (BenchmarkRun × PricePoint × GpuModel × Provider) :=
  let prices := bestPrice plan db since
  (bestBench plan db workload precision).filterMap fun bb => do
    let bp ← prices.find? fun bp => bp.gpuModelId = bb.gpuModelId
    let g ← db.gpuModel? bb.gpuModelId
    let pr ← db.provider? bp.providerId
    if 0 < bb.throughput.value then some (bb, bp, g, pr) else none

/-- `INDEX_SQL` -/
def indexSql (fmt : FloatFormat) (plan : Plan) (db : Database) (workload : String)
    (precision : Option String) (since : Instant) (limit : Nat) : List IndexRow :=
  let joined := indexJoin plan db workload precision since
  ((rankingOrder.sort (plan.ranked.apply joined)).take limit).map fun (bb, bp, g, pr) =>
    { gpuModel := g.modelName
      vendor := g.vendor
      workload := workload
      precision := bb.precision
      bestUsdPerHour := fmt.round bp.usdPerHour.value
      throughput := fmt.round bb.throughput.value
      usdPerMillionUnits := (usdPerMillion bp.usdPerHour.value bb.throughput.value).map fmt.round
      provider := pr.name
      region := bp.region }

/-! ## The ORM queries of the routes -/

/-- `select(GpuModel)` with the filters of `list_gpus`, `order_by(model_name).limit(limit)`. -/
def listGpusSql (collation : Collation) (plan : Plan) (db : Database) (vendor : Option String)
    (minVramGb : Option Integer) (limit : Nat) : List GpuModel :=
  ((collation.on fun g : GpuModel => g.modelName.val).sort
    ((plan.gpuModels.apply db.gpuModels).filter fun g =>
      (vendor.all fun v => g.vendor.val = v) ∧ minVramGb.all fun n => n ≤ g.vramGb)).take limit

/-- `select(BenchmarkRun)` with the filters of `gpu_benchmarks`,
    `order_by(run_at.desc()).limit(limit)`. -/
def benchmarksSql (plan : Plan) (db : Database) (gpuModelId : Integer) (workload : Option String)
    (precision : Option String) (limit : Nat) : List BenchmarkRun :=
  ((Order.desc fun b : BenchmarkRun => b.runAt).sort
    ((plan.benchmarks.apply db.benchmarkRuns).filter fun b =>
      b.gpuModelId = gpuModelId ∧ (workload.all fun w => b.workload.val = w)
        ∧ precision.all fun p => b.precision.val = p)).take limit

end GpuIndex
