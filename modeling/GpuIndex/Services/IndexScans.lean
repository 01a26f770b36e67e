/-
  The queries, read off the indexes.

  The two hot queries can be answered from the leaves of the performance indexes alone: no row of
  the table is fetched and nothing is sorted before `DISTINCT ON`.  `latestPricesScan` and
  `indexScan` are such plans, clause by clause.  The crux is that the leaves that a scan reads are
  those rows of the query in the query's order (`latest_serves`, `cheapest_serves`, `bench_serves`),
  so **the indexes change no answer**: what the scans can return, over all ways the leaves can
  stand, is exactly what the text of the query allows (`latest_by_indexes`, `index_by_indexes`).

  A page of the history is read from a position in `ix_price_keyset` (`keyset_by_index`).
-/
import GpuIndex.Db.Indexes
import GpuIndex.Services.LatestPrices
import GpuIndex.Services.OffsetPaging
import GpuIndex.Services.Ranking

namespace GpuIndex

open Calendar Keyset OrderBy
open JsonText (FloatFormat FloatVal)

/-! ## `LATEST_PRICES_SQL` -/

/-- `ORDER BY l.usd_per_hour ASC, l.region ASC`, on leaves. -/
def summaryLeafOrder (collation : Collation) : Order (PriceValues × Provider) :=
  (Order.asc fun r => r.1.usdPerHour.value).thenBy (collation.on fun r => r.1.region.val)

/-- The leaves of the GPU in the window that pass the filter. -/
def latestSelects (gpuModelId : Integer) (since : Instant) (availability : Option String)
    (v : PriceValues) : Bool :=
  (v.gpuModelId = gpuModelId ∧ since ≤ v.observedAt)
  ∧ availability.all fun a => v.availability.val = a

/-- `median`, from the leaves of `ix_price_median`. -/
def medianScan (leaves : List MedianLeaf) (gpuModelId : Integer) (since : Instant) : Option ℚ :=
  percentileCont ((leaves.filter fun e => e.gpuModelId = gpuModelId ∧ since ≤ e.observedAt).map
    fun e => e.usdPerHour.value)

/-- `latest`, from the leaves of `ix_price_latest`: the first of each provider and region as they
    come. -/
def latestScan (leaves : List PriceValues) (gpuModelId : Integer) (since : Instant)
    (availability : Option String) : List PriceValues :=
  distinctOn (fun v => (v.providerId, v.region))
    (leaves.filter (latestSelects gpuModelId since availability))

/-- The columns of a result row. -/
def latestLeafRow (fmt : FloatFormat) (med : Option ℚ) (r : PriceValues × Provider) :
    LatestRow where
  provider := r.2.name
  region := r.1.region
  instanceType := r.1.instanceType
  usdPerHour := fmt.round r.1.usdPerHour.value
  availability := r.1.availability
  observedAt := r.1.observedAt
  median30d := med.map fmt.round

/-- `LATEST_PRICES_SQL` from the leaves of two indexes and the table of providers. -/
def latestPricesScan (collation : Collation) (fmt : FloatFormat)
    (met : Shuffle (PriceValues × Provider)) (db : Database) (latest : List PriceValues)
    (median : List MedianLeaf) (gpuModelId : Integer) (since : Instant)
    (availability : Option String) (limit : Nat) : List LatestRow :=
  let joined := (latestScan latest gpuModelId since availability).filterMap
    fun v => (db.provider? v.providerId).map fun pr => (v, pr)
  (((summaryLeafOrder collation).sort (met.apply joined)).take limit).map
    (latestLeafRow fmt (medianScan median gpuModelId since))

section Latest

variable {collation : Collation} {fmt : FloatFormat} {db : Database} {gpu : Integer}
    {since : Instant} {availability : Option String} {limit : Nat}

/-- `ORDER BY pp.provider_id, pp.region, pp.observed_at DESC`, on leaves. -/
def latestLeafOrder (collation : Collation) : Order PriceValues :=
  (Order.asc fun v => v.providerId).thenBy
    ((collation.on fun v => v.region.val).thenBy (Order.desc fun v => v.observedAt))

/-- **The column order matches**: of one GPU the leaves stand as `latest` sorts. -/
theorem latest_serves (collation : Collation) (gpu : Integer) (since : Instant)
    (availability : Option String) :
    (priceLatest collation).Serves (fun p => inWindow gpu since p
      ∧ matchesAvailability availability p)
      (latestSelects gpu since availability) (latestLeafOrder collation) where
  select p := by
    show _ = (true && latestSelects gpu since availability p.toPriceValues)
    simp [latestSelects, inWindow, matchesAvailability]
  order a b ha hb := by
    simp only [latestSelects, decide_eq_true_eq] at ha hb
    have htie : a.gpuModelId = b.gpuModelId := ha.1.1.trans hb.1.1.symm
    exact Order.thenBy_of_tie _ _ htie.le htie.ge

/-- The median does not depend on the order the leaves stand in. -/
theorem medianScan_eq {leaves : List MedianLeaf} (h : priceMedian.Built db.pricePoints leaves) :
    medianScan leaves gpu since = medianPrice db gpu since := by
  have hvalues : ((leaves.filter fun e => e.gpuModelId = gpu ∧ since ≤ e.observedAt).map
      fun e => e.usdPerHour.value).Perm
      ((db.pricePoints.filter (inWindow gpu since)).map fun p => p.usdPerHour.value) := by
    refine ((h.perm.filter _).map _).trans ?_
    rw [List.filter_map, List.map_map, List.filter_filter]
    refine List.Perm.of_eq (congrArg _ (List.filter_congr fun p _ => ?_))
    exact Bool.eq_iff_iff.mpr (by simp [priceMedian, inWindow])
  rw [medianScan, medianPrice, percentileCont, percentileCont,
    Order.sort_perm _ (fun _ _ => le_antisymm) hvalues]

/-- The join of the leaves is the join of the rows. -/
theorem filterMap_provider (db : Database) (rows : List PricePoint) :
    ((rows.map PricePoint.toPriceValues).filterMap
        fun v => (db.provider? v.providerId).map fun pr => (v, pr))
      = (rows.filterMap fun p => (db.provider? p.providerId).map fun pr => (p, pr)).map
          (Prod.map PricePoint.toPriceValues id) := by
  rw [List.filterMap_map, List.map_filterMap]
  refine List.filterMap_congr fun p _ => ?_
  cases hpr : db.provider? p.providerId <;> simp [hpr]

/-- **The hot query off its indexes**: leaves that stand as the query meets the rows give the
    query's answer. -/
theorem latestPricesScan_eq {plan : Plan} {met : Shuffle (PriceValues × Provider)}
    {latest : List PriceValues} {median : List MedianLeaf}
    (hmedian : priceMedian.Built db.pricePoints median)
    (hlatest : (((latestLeafOrder collation).on PricePoint.toPriceValues).sort
        ((plan.prices.apply db.pricePoints).filter fun p =>
          inWindow gpu since p ∧ matchesAvailability availability p)).map PricePoint.toPriceValues
      = latest.filter (latestSelects gpu since availability))
    (hmet : met.apply (((latestPerRegion collation plan db gpu since availability).filterMap
          fun p => (db.provider? p.providerId).map fun pr => (p, pr)).map
            (Prod.map PricePoint.toPriceValues id))
      = (latestJoin collation plan db gpu since availability).map
          (Prod.map PricePoint.toPriceValues id)) :
    latestPricesScan collation fmt met db latest median gpu since availability limit
      = latestPricesSql collation fmt plan db gpu since availability limit := by
  have hscan : latestScan latest gpu since availability
      = (latestPerRegion collation plan db gpu since availability).map
        PricePoint.toPriceValues := by
    rw [latestScan, ← hlatest]
    exact (map_distinctOn _ _ _).symm
  have hsort :=
    Order.map_sort_on (summaryLeafOrder collation) (Prod.map PricePoint.toPriceValues id)
    (latestJoin collation plan db gpu since availability)
  rw [latestPricesScan, medianScan_eq hmedian, hscan, filterMap_provider, hmet, ← hsort,
    ← List.map_take, List.map_map]
  rfl

end Latest

/-- **The indexes change no answer** of the hot query: what scans of `ix_price_latest` and
    `ix_price_median` can return, whenever the two were created and whatever was committed since, is
    exactly what the query can return on the table as it is. -/
theorem latest_by_indexes (collation : Collation) (fmt : FloatFormat) (db : Database)
    (gpu : Integer) (since : Instant) (availability : Option String) (limit : Nat)
    (rows : List LatestRow) :
    (∃ latest median met, Kept (priceLatest collation) db latest ∧ Kept priceMedian db median
        ∧ latestPricesScan collation fmt met db latest median gpu since availability limit = rows)
      ↔ ∃ plan, latestPricesSql collation fmt plan db gpu since availability limit = rows := by
  have hserves := latest_serves collation gpu since availability
  constructor
  · rintro ⟨latest, median, met, hlatest, hmedian, rfl⟩
    obtain ⟨prices, hprices⟩ := hserves.scan_iff.mp ⟨latest, kept_iff_built.mp hlatest, rfl⟩
    let plan : Plan := { Plan.stored with prices := prices }
    obtain ⟨joined, hjoined⟩ := exists_shuffle_map.mp ⟨met, Eq.refl (met.apply
      (((latestPerRegion collation plan db gpu since availability).filterMap
        fun p => (db.provider? p.providerId).map fun pr => (p, pr)).map
          (Prod.map PricePoint.toPriceValues id)))⟩
    refine ⟨{ plan with latest := joined }, Eq.symm ?_⟩
    exact latestPricesScan_eq (kept_iff_built.mp hmedian) hprices hjoined.symm
  · rintro ⟨plan, rfl⟩
    obtain ⟨latest, hbuilt, hlatest⟩ := hserves.scan_iff.mpr ⟨plan.prices, rfl⟩
    obtain ⟨met, hmet⟩ := exists_shuffle_map.mpr ⟨plan.latest, Eq.refl
      ((latestJoin collation plan db gpu since availability).map
        (Prod.map PricePoint.toPriceValues id))⟩
    have hmedian : priceMedian.Built db.pricePoints _ := Index.built_sort (List.Perm.refl _)
    refine ⟨latest, _, met, .create hbuilt, .create hmedian, ?_⟩
    exact latestPricesScan_eq hmedian hlatest.symm hmet

/-! ## `INDEX_SQL` -/

/-- `best_price`, from the leaves of `ix_price_cheapest`. -/
def bestPriceScan (leaves : List CheapestLeaf) (since : Instant) : List CheapestLeaf :=
  distinctOn (fun e => e.gpuModelId) (leaves.filter fun e => since ≤ e.observedAt)

/-- The leaves of the workload and the precision. -/
def benchSelects (workload : String) (precision : Option String) (e : BenchLeaf) : Bool :=
  e.workload.val = workload ∧ precision.all fun p => e.precision.val = p

/-- `best_bench`, from the leaves of `ix_benchmark_best`. -/
def bestBenchScan (leaves : List BenchLeaf) (workload : String) (precision : Option String) :
    List BenchLeaf :=
  distinctOn (fun e => e.gpuModelId) (leaves.filter (benchSelects workload precision))

/-- What a leaf of a run is joined to. -/
def joinScan (prices : List CheapestLeaf) (db : Database) (bb : BenchLeaf) :
    Option (BenchLeaf × CheapestLeaf × GpuModel × Provider) := do
  let bp ← prices.find? fun bp => bp.gpuModelId = bb.gpuModelId
  let g ← db.gpuModel? bb.gpuModelId
  let pr ← db.provider? bp.providerId
  if 0 < bb.throughput.value then some (bb, bp, g, pr) else none

/-- `ORDER BY usd_per_million_units ASC`, on leaves. -/
def rankingLeafOrder : Order (BenchLeaf × CheapestLeaf × GpuModel × Provider) :=
  let ratio := fun r : BenchLeaf × CheapestLeaf × GpuModel × Provider =>
    usdPerMillion r.2.1.usdPerHour.value r.1.throughput.value
  (Order.asc fun r => (ratio r).isNone).thenBy (Order.asc fun r => (ratio r).getD 0)

/-- `INDEX_SQL` from the leaves of two indexes and the tables of GPUs and providers. -/
def indexScan (fmt : FloatFormat) (met : Shuffle (BenchLeaf × CheapestLeaf × GpuModel × Provider))
    (db : Database) (cheapest : List CheapestLeaf) (bench : List BenchLeaf) (workload : String)
    (precision : Option String) (since : Instant) (limit : Nat) : List IndexRow :=
  let joined := (bestBenchScan bench workload precision).filterMap
    (joinScan (bestPriceScan cheapest since) db)
  ((rankingLeafOrder.sort (met.apply joined)).take limit).map fun (bb, bp, g, pr) =>
    { gpuModel := g.modelName
      vendor := g.vendor
      workload := workload
      precision := bb.precision
      bestUsdPerHour := fmt.round bp.usdPerHour.value
      throughput := fmt.round bb.throughput.value
      usdPerMillionUnits := (usdPerMillion bp.usdPerHour.value bb.throughput.value).map fmt.round
      provider := pr.name
      region := bp.region }

section Ranking

variable {fmt : FloatFormat} {db : Database} {workload : String} {precision : Option String}
  {since : Instant} {limit : Nat}

/-- **A partial index is correct here**: it has a leaf for just the rows that the literal
    `'available'` lets through, cheapest first. -/
theorem cheapest_serves (since : Instant) :
    priceCheapest.Serves (fun p => since ≤ p.observedAt ∧ p.availability.val = "available")
      (fun e => since ≤ e.observedAt) priceCheapest.order where
  select p := by
    show _ = (decide (p.availability.val = "available") && decide (since ≤ p.observedAt))
    simp [Bool.and_comm]
  order _ _ _ _ := Iff.rfl

/-- `ORDER BY br.gpu_model_id, br.throughput DESC`, on leaves. -/
def bestBenchLeafOrder : Order BenchLeaf :=
  (Order.asc fun e => e.gpuModelId).thenBy (Order.desc fun e => e.throughput.value)

/-- Of one workload the leaves stand as `best_bench` sorts. -/
theorem bench_serves (collation : Collation) (workload : String) (precision : Option String) :
    (benchmarkBest collation).Serves (matchesBench workload precision)
      (benchSelects workload precision) bestBenchLeafOrder where
  select b := by
    show _ = (true && benchSelects workload precision ((benchmarkBest collation).leaf b))
    rw [Bool.true_and]
    rfl
  order a b ha hb := by
    simp only [benchSelects, decide_eq_true_eq] at ha hb
    have htie : a.workload.val = b.workload.val := ha.1.trans hb.1.symm
    have hrefl : collation.le a.workload.val a.workload.val := collation.toOrder.refl _
    refine Order.thenBy_of_tie _ _ ?_ ?_
    · show collation.le a.workload.val b.workload.val
      rw [← htie]
      exact hrefl
    · show collation.le b.workload.val a.workload.val
      rw [← htie]
      exact hrefl

/-- The leaves of a joined row. -/
def leavesOf (collation : Collation) (r : BenchmarkRun × PricePoint × GpuModel × Provider) :
    BenchLeaf × CheapestLeaf × GpuModel × Provider :=
  ((benchmarkBest collation).leaf r.1, priceCheapest.leaf r.2.1, r.2.2)

/-- A leaf is joined as its row is. -/
theorem joinScan_leaf (collation : Collation) (prices : List PricePoint) (db : Database)
    (bb : BenchmarkRun) :
    joinScan (prices.map priceCheapest.leaf) db ((benchmarkBest collation).leaf bb)
      = (joinOf prices db bb).map (leavesOf collation) := by
  have hfind : (prices.map priceCheapest.leaf).find? (fun bp => bp.gpuModelId = bb.gpuModelId)
      = (prices.find? fun bp => bp.gpuModelId = bb.gpuModelId).map priceCheapest.leaf := by
    rw [List.find?_map]
    rfl
  show ((prices.map priceCheapest.leaf).find? fun bp => bp.gpuModelId = bb.gpuModelId).bind _ = _
  rw [hfind, joinOf]
  cases prices.find? fun bp => bp.gpuModelId = bb.gpuModelId with
  | none => rfl
  | some bp =>
    show (db.gpuModel? bb.gpuModelId).bind _ = ((db.gpuModel? bb.gpuModelId).bind _).map _
    cases db.gpuModel? bb.gpuModelId with
    | none => rfl
    | some g =>
      show (db.provider? bp.providerId).bind _ = ((db.provider? bp.providerId).bind _).map _
      cases db.provider? bp.providerId with
      | none => rfl
      | some pr =>
        show (if 0 < bb.throughput.value then _ else none)
          = (if 0 < bb.throughput.value then _ else none : Option _).map _
        split <;> rfl

/-- Leaves that stand as the query meets the rows are joined as the query joins the rows. -/
theorem joinScan_eq {collation : Collation} {plan : Plan} {cheapest : List CheapestLeaf}
    {bench : List BenchLeaf}
    (hcheapest : ((priceCheapest.order.on priceCheapest.leaf).sort
        ((plan.prices.apply db.pricePoints).filter fun p =>
          since ≤ p.observedAt ∧ p.availability.val = "available")).map priceCheapest.leaf
      = cheapest.filter fun e => since ≤ e.observedAt)
    (hbench : ((bestBenchLeafOrder.on (benchmarkBest collation).leaf).sort
        ((plan.benchmarks.apply db.benchmarkRuns).filter (matchesBench workload precision))).map
          (benchmarkBest collation).leaf
      = bench.filter (benchSelects workload precision)) :
    (bestBenchScan bench workload precision).filterMap (joinScan (bestPriceScan cheapest since) db)
      = (indexJoin plan db workload precision since).map (leavesOf collation) := by
  have hprices : bestPriceScan cheapest since
      = (bestPrice plan db since).map priceCheapest.leaf := by
    rw [bestPriceScan, ← hcheapest]
    exact (map_distinctOn _ _ _).symm
  have hruns : bestBenchScan bench workload precision
      = (bestBench plan db workload precision).map (benchmarkBest collation).leaf := by
    rw [bestBenchScan, ← hbench]
    exact (map_distinctOn _ _ _).symm
  rw [hprices, hruns, List.filterMap_map, indexJoin_eq, List.map_filterMap]
  exact List.filterMap_congr fun bb _ => joinScan_leaf collation _ db bb

/-- **The ranking off its indexes**: joined leaves that are met as the joined rows are give the
    query's answer. -/
theorem indexScan_eq {collation : Collation} {plan : Plan} {cheapest : List CheapestLeaf}
    {bench : List BenchLeaf} {met : Shuffle (BenchLeaf × CheapestLeaf × GpuModel × Provider)}
    (hjoin : (bestBenchScan bench workload precision).filterMap
        (joinScan (bestPriceScan cheapest since) db)
      = (indexJoin plan db workload precision since).map (leavesOf collation))
    (hmet : met.apply ((indexJoin plan db workload precision since).map (leavesOf collation))
      = (plan.ranked.apply (indexJoin plan db workload precision since)).map (leavesOf collation)) :
    indexScan fmt met db cheapest bench workload precision since limit
      = indexSql fmt plan db workload precision since limit := by
  have hsort := Order.map_sort_on rankingLeafOrder (leavesOf collation)
    (plan.ranked.apply (indexJoin plan db workload precision since))
  rw [indexScan, hjoin, hmet, ← hsort, ← List.map_take, List.map_map]
  rfl

end Ranking

/-- **The indexes change no answer** of the ranking: what scans of `ix_price_cheapest` and
    `ix_benchmark_best` can return is exactly what the query can return on the tables as they
    are. -/
theorem index_by_indexes (collation : Collation) (fmt : FloatFormat) (db : Database)
    (workload : String) (precision : Option String) (since : Instant) (limit : Nat)
    (rows : List IndexRow) :
    (∃ cheapest bench met, Kept priceCheapest db cheapest
        ∧ (benchmarkBest collation).Built db.benchmarkRuns bench
        ∧ indexScan fmt met db cheapest bench workload precision since limit = rows)
      ↔ ∃ plan, indexSql fmt plan db workload precision since limit = rows := by
  have hprices := cheapest_serves since
  have hruns := bench_serves collation workload precision
  constructor
  · rintro ⟨cheapest, bench, met, hcheapest, hbench, rfl⟩
    obtain ⟨prices, hcheapest⟩ := hprices.scan_iff.mp ⟨cheapest, kept_iff_built.mp hcheapest, rfl⟩
    obtain ⟨benchmarks, hbench⟩ := hruns.scan_iff.mp ⟨bench, hbench, rfl⟩
    let plan : Plan := { Plan.stored with prices := prices, benchmarks := benchmarks }
    have hjoin : (bestBenchScan bench workload precision).filterMap
          (joinScan (bestPriceScan cheapest since) db)
        = (indexJoin plan db workload precision since).map (leavesOf collation) :=
      joinScan_eq hcheapest hbench
    obtain ⟨ranked, hranked⟩ := exists_shuffle_map.mp ⟨met, Eq.refl (met.apply
      ((indexJoin plan db workload precision since).map (leavesOf collation)))⟩
    refine ⟨{ plan with ranked := ranked }, Eq.symm ?_⟩
    exact indexScan_eq hjoin hranked.symm
  · rintro ⟨plan, rfl⟩
    obtain ⟨cheapest, hbuilt, hcheapest⟩ := hprices.scan_iff.mpr ⟨plan.prices, rfl⟩
    obtain ⟨bench, hbuilt', hbench⟩ := hruns.scan_iff.mpr ⟨plan.benchmarks, rfl⟩
    obtain ⟨met, hmet⟩ := exists_shuffle_map.mpr ⟨plan.ranked, Eq.refl
      ((plan.ranked.apply (indexJoin plan db workload precision since)).map (leavesOf collation))⟩
    exact ⟨cheapest, bench, met, .create hbuilt, hbuilt',
      indexScan_eq (joinScan_eq hcheapest.symm hbench.symm) hmet⟩

/-! ## `KEYSET_PAGE_SQL` -/

/-- `(observed_at, id) < (:cursor_ts, :cursor_id)`, when the clause is there, on leaves. -/
def leafBefore (cursor : Option (Instant × BigInteger)) (e : KeysetLeaf) : Bool :=
  cursor.all fun c => e.observedAt < c.1 ∨ e.observedAt = c.1 ∧ e.id < c.2

/-- The leaf is not in front of the page. -/
def reachedPage (gpuModelId : Integer) (cursor : Option (Instant × BigInteger)) (e : KeysetLeaf) :
    Bool :=
  gpuModelId < e.gpuModelId ∨ e.gpuModelId = gpuModelId ∧ leafBefore cursor e

/-- The leaves of the GPU from the cursor on. -/
def keysetLeaves (leaves : List KeysetLeaf) (gpuModelId : Integer)
    (cursor : Option (Instant × BigInteger)) : List KeysetLeaf :=
  (Index.seek (reachedPage gpuModelId cursor) leaves).takeWhile fun e => e.gpuModelId = gpuModelId

/-- The leaves that a page reads. -/
def keysetScan (leaves : List KeysetLeaf) (gpuModelId : Integer)
    (cursor : Option (Instant × BigInteger)) (limit : Nat) : List KeysetLeaf :=
  (keysetLeaves leaves gpuModelId cursor).take limit

/-- The leaves that `OFFSET` and `LIMIT` read: those that are counted off, and the page. -/
def offsetScan (leaves : List KeysetLeaf) (gpuModelId : Integer) (depth limit : Nat) :
    List KeysetLeaf := (keysetLeaves leaves gpuModelId none).take (depth + limit)

/-- The row of a leaf. -/
def fetchPrice (db : Database) (e : KeysetLeaf) : Option PricePoint :=
  db.pricePoints.find? fun p => p.id = e.id

/-- `KEYSET_PAGE_SQL` from the leaves of `ix_price_keyset` and the rows they lead to. -/
def keysetPageScan (fmt : FloatFormat) (db : Database) (leaves : List KeysetLeaf)
    (gpuModelId : Integer) (cursor : Option (Instant × BigInteger)) (limit : Nat) : List PageRow :=
  (keysetScan leaves gpuModelId cursor limit).filterMap fun e =>
    (fetchPrice db e).bind (rowOf fmt db)

section Seek

variable {fmt : FloatFormat} {db : Database} {gpu : Integer}
  {cursor : Option (Instant × BigInteger)} {leaves : List KeysetLeaf}

/-- `ORDER BY pp.observed_at DESC, pp.id DESC`, on leaves. -/
def keysetLeafOrder : Order KeysetLeaf :=
  (Order.desc fun e => e.observedAt).thenBy (Order.desc fun e => e.id)

/-- Of one GPU the leaves stand as the page sorts. -/
theorem keyset_serves (gpu : Integer) (cursor : Option (Instant × BigInteger)) :
    priceKeyset.Serves (fun p => p.gpuModelId = gpu ∧ beforeCursor cursor p)
      (fun e => e.gpuModelId = gpu ∧ leafBefore cursor e) keysetLeafOrder where
  select _ := rfl
  order a b ha hb := by
    simp only [decide_eq_true_eq] at ha hb
    have htie : a.gpuModelId = b.gpuModelId := ha.1.trans hb.1.symm
    exact Order.thenBy_of_tie _ _ htie.le htie.ge

/-- Leaves after one that is before the cursor are before it too. -/
theorem leafBefore_of_le {a b : KeysetLeaf} (ha : leafBefore cursor a)
    (hle : keysetLeafOrder.le a b) : leafBefore cursor b := by
  cases cursor with
  | none => rfl
  | some c =>
    obtain ⟨hobs, hid⟩ : b.observedAt ≤ a.observedAt
      ∧ (a.observedAt ≤ b.observedAt → b.id ≤ a.id) := hle
    simp only [leafBefore, Option.all_some, decide_eq_true_eq] at ha ⊢
    rcases ha with hlt | ⟨heq, hlt⟩
    · exact .inl (lt_of_le_of_lt hobs hlt)
    · rcases lt_or_eq_of_le hobs with hbefore | hsame
      · exact .inl (hbefore.trans_eq heq)
      · exact .inr ⟨hsame.trans heq, lt_of_le_of_lt (hid hsame.ge) hlt⟩

/-- Leaves after one that has come to the page have come to it too. -/
theorem reachedPage_of_le {a b : KeysetLeaf} (ha : reachedPage gpu cursor a)
    (hle : priceKeyset.order.le a b) : reachedPage gpu cursor b := by
  obtain ⟨hgpu, hrest⟩ : a.gpuModelId ≤ b.gpuModelId
    ∧ (b.gpuModelId ≤ a.gpuModelId → keysetLeafOrder.le a b) := hle
  simp only [reachedPage, decide_eq_true_eq] at ha ⊢
  rcases ha with hlt | ⟨rfl, hbefore⟩
  · exact .inl (lt_of_lt_of_le hlt hgpu)
  · rcases lt_or_eq_of_le hgpu with hlt | heq
    · exact .inl hlt
    · exact .inr ⟨heq.symm, leafBefore_of_le hbefore (hrest heq.ge)⟩

/-- Seeking reads the leaves of the GPU below the cursor. -/
theorem keysetLeaves_eq (h : priceKeyset.Built db.pricePoints leaves) :
    keysetLeaves leaves gpu cursor
      = leaves.filter fun e => e.gpuModelId = gpu ∧ leafBefore cursor e := by
  rw [keysetLeaves, Index.seek_eq_filter h.sorted fun _ _ => reachedPage_of_le,
    Index.takeWhile_eq_filter (h.sorted.filter _), List.filter_filter]
  · refine List.filter_congr fun e _ => Bool.eq_iff_iff.mpr ?_
    simp only [reachedPage, Bool.and_eq_true, decide_eq_true_eq]
    constructor
    · rintro ⟨rfl, hlt | ⟨-, hbefore⟩⟩
      · exact absurd hlt (lt_irrefl _)
      · exact ⟨rfl, hbefore⟩
    · exact fun ⟨hgpu, hbefore⟩ => ⟨hgpu, .inr ⟨hgpu, hbefore⟩⟩
  · -- past the seek no GPU comes before this one
    intro a ha b hb hle
    have hreached := (List.mem_filter.mp ha).2
    simp only [reachedPage, decide_eq_true_eq] at hreached hb ⊢
    rcases hreached with hlt | ⟨heq, -⟩
    · exact absurd (lt_of_lt_of_le hlt (hle.1.trans_eq hb)) (lt_irrefl _)
    · exact heq

/-- The seek reads the rows of the page, in order. -/
theorem keysetLeaves_selected (h : priceKeyset.Built db.pricePoints leaves) (plan : Plan) :
    keysetLeaves leaves gpu cursor = (keysetSelected plan db gpu cursor).map priceKeyset.leaf := by
  obtain ⟨prices, hprices⟩ := (keyset_serves gpu cursor).scan_iff.mp ⟨leaves, h, rfl⟩
  -- no two rows tie, so every plan selects the same list
  have hsame : keysetSelected { plan with prices := prices } db gpu cursor
      = keysetSelected plan db gpu cursor :=
    (descending_keysetSelected _ db gpu cursor).eq_of_mem_iff
      (descending_keysetSelected plan db gpu cursor) fun p => by
        rw [mem_keysetSelected, mem_keysetSelected]
  rw [keysetLeaves_eq h, ← hprices, ← hsame]
  rfl

/-- A leaf leads to its row. -/
theorem fetchPrice_leaf {p : PricePoint} (hp : p ∈ db.pricePoints) :
    fetchPrice db (priceKeyset.leaf p) = some p := by
  show (db.pricePoints.find? fun q => q.id = p.id) = some p
  cases hfind : db.pricePoints.find? fun q => q.id = p.id with
  | none => exact absurd (decide_eq_true rfl) (List.find?_eq_none.mp hfind p hp)
  | some q =>
    have hid : q.id = p.id := by simpa using List.find?_some hfind
    rw [List.inj_on_of_nodup_map db.constraints.price_points_pkey (List.mem_of_find?_eq_some hfind)
      hp hid]

/-- A join that finds every partner commutes with taking the first. -/
theorem filterMap_take {α β : Type} {f : α → Option β} {l : List α}
    (h : ∀ a ∈ l, ∃ b, f a = some b) (n : Nat) :
    (l.take n).filterMap f = (l.filterMap f).take n := by
  induction l generalizing n with
  | nil => simp
  | cons a l ih =>
    cases n with
    | zero => rfl
    | succ n =>
      obtain ⟨b, hb⟩ := h a List.mem_cons_self
      rw [List.take_succ_cons, List.filterMap_cons_some hb, List.filterMap_cons_some hb,
        List.take_succ_cons, ih fun x hx => h x (List.mem_cons_of_mem _ hx)]

end Seek

/-- **Keyset pages seek**: the scan of `ix_price_keyset` returns the page of the query, whatever its
    plan, and every leaf it reads is a row that it returns.  At the position after `k` rows these
    are the leaves that `OFFSET` comes to when it has counted `k` others off. -/
theorem keyset_by_index (fmt : FloatFormat) (plan : Plan) (db : Database) (gpu : Integer)
    (limit : Nat) {leaves : List KeysetLeaf} (h : Kept priceKeyset db leaves) :
    (∀ cursor, keysetPageScan fmt db leaves gpu cursor limit
      = keysetPageSql fmt plan db gpu cursor limit
        ∧ (keysetScan leaves gpu cursor limit).length
          = (keysetPageSql fmt plan db gpu cursor limit).length)
      ∧ ∀ k ≤ (priceHistory db gpu).length,
        keysetScan leaves gpu (positionAfter db gpu k) limit
          = (offsetScan leaves gpu k limit).drop k
          ∧ (offsetScan leaves gpu k limit).length
            = min (k + limit) (priceHistory db gpu).length := by
  have hbuilt := kept_iff_built.mp h
  refine ⟨fun cursor => ?_, fun k hk => ?_⟩
  · have hscan : keysetScan leaves gpu cursor limit
        = ((keysetSelected plan db gpu cursor).take limit).map priceKeyset.leaf := by
      rw [keysetScan, keysetLeaves_selected hbuilt plan, List.map_take]
    have hpage := keysetPageSql_rows fmt plan db gpu cursor limit
    have hlength := congrArg List.length hpage
    rw [List.length_map, List.length_map] at hlength
    refine ⟨?_, by rw [hscan, List.length_map, hlength]⟩
    rw [keysetPageScan, hscan, List.filterMap_map]
    have hall (p : PricePoint) (hp : p ∈ keysetSelected plan db gpu cursor) :
        ∃ r, rowOf fmt db p = some r := by
      obtain ⟨pr, hpr⟩ := db.provider?_isSome (mem_keysetSelected.mp hp).1.1
      exact ⟨pageRow fmt p pr, by rw [rowOf, hpr, Option.map_some]⟩
    refine Eq.trans (List.filterMap_congr fun p hp => ?_) (filterMap_take hall limit)
    have hmem := (mem_keysetSelected.mp (List.mem_of_mem_take hp)).1.1
    show (fetchPrice db (priceKeyset.leaf p)).bind _ = _
    rw [fetchPrice_leaf hmem, Option.bind_some]
  · have hnone : keysetLeaves leaves gpu none
        = (keysetSelected .stored db gpu none).map priceKeyset.leaf :=
        keysetLeaves_selected hbuilt .stored
    rw [← priceHistory_eq] at hnone
    rw [keysetScan, offsetScan, keysetLeaves_selected hbuilt plan, hnone,
      keysetSelected_after plan db gpu hk, List.map_drop, List.drop_take, Nat.add_sub_cancel_left]
    exact ⟨rfl, by rw [List.length_take, List.length_map]⟩

/-- The index over the market. -/
def marketKeyset : List KeysetLeaf :=
  [h100New, h100Old, h100Gcp, a100Gcp, a100Aws, l4Gcp].map priceKeyset.leaf

theorem kept_marketKeyset : Kept priceKeyset market marketKeyset := by
  have hsort : priceKeyset.order.sort
      ((market.pricePoints.filter priceKeyset.covers).map priceKeyset.leaf) = marketKeyset := by
    decide +kernel
  exact .create (hsort ▸ Index.built_sort (List.Perm.refl market.pricePoints))

/-- The second page of one row, by its cursor and by its offset. -/
theorem keyset_by_index_market :
    keysetPageScan halves market marketKeyset ⟨1, one_range⟩ (some (newYear, h100New.id)) 1
        = keysetPageSql halves .stored market ⟨1, one_range⟩ (some (newYear, h100New.id)) 1
      ∧ (keysetScan marketKeyset ⟨1, one_range⟩ (some (newYear, h100New.id)) 1)
        = (offsetScan marketKeyset ⟨1, one_range⟩ 1 1).drop 1
      ∧ offsetScan marketKeyset ⟨1, one_range⟩ 1 1
        = [priceKeyset.leaf h100New, priceKeyset.leaf h100Old] := by
  obtain ⟨hpages, hleaves⟩ :=
    keyset_by_index halves .stored market ⟨1, one_range⟩ 1 kept_marketKeyset
  have hposition : positionAfter market ⟨1, one_range⟩ 1 = some (newYear, h100New.id) := by
    decide +kernel
  have hcounted := (hleaves 1 (by decide +kernel)).1
  rw [hposition] at hcounted
  exact ⟨(hpages _).1, hcounted, by decide +kernel⟩

end GpuIndex
