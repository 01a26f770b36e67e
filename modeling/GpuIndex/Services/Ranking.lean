/-
  What the composite index ranks.

  `INDEX_SQL` picks the cheapest price and the highest throughput of a GPU separately, and divides.
  Prices are not negative, so the quotient is the least over all pairs of a price and a run, and a
  GPU whose highest throughput is not positive has no pair at all: `computeIndex_spec` says that
  the answer is the ranking of all GPUs by that joint minimum, cut at the limit.
-/
import GpuIndex.Fixture
import GpuIndex.Lib.Selection
import GpuIndex.Services.Indexing
import Mathlib.Order.Bounds.Basic
import Mathlib.Tactic.GCongr

namespace GpuIndex

open Calendar OrderBy
open JsonText (FloatFormat FloatVal)

/-! ## What is ranked -/

/-- The prices of available capacity of a GPU in the window. -/
def offersOf (db : Database) (since : Instant) (gpuId : Integer) : List PricePoint :=
  db.pricePoints.filter fun p =>
    p.gpuModelId = gpuId ∧ since ≤ p.observedAt ∧ p.availability.val = "available"

/-- The matching runs of a GPU that got anything done. -/
def runsOf (db : Database) (workload : String) (precision : Option String) (gpuId : Integer) :
    List BenchmarkRun :=
  db.benchmarkRuns.filter fun b =>
    b.gpuModelId = gpuId ∧ matchesBench workload precision b ∧ 0 < b.throughput.value

/-- Dollars per million units of a price and a run. -/
def costOf (p : PricePoint) (b : BenchmarkRun) : ℚ :=
  p.usdPerHour.value / b.throughput.value * 1000000

section Ranking

variable (db : Database) (workload : String) (precision : Option String) (since : Instant)

/-- The costs of all pairs of a price and a run of a GPU. -/
def costsOf (gpuId : Integer) : Set ℚ :=
  {x | ∃ p ∈ offersOf db since gpuId, ∃ b ∈ runsOf db workload precision gpuId, x = costOf p b}

/-- The GPUs that have a pair. -/
def rankedModels : List GpuModel :=
  db.gpuModels.filter fun g => offersOf db since g.id ≠ [] ∧ runsOf db workload precision g.id ≠ []

/-- **What the index is for**: the GPUs that have a pair, each with its least cost, the cheapest
    first, cut at the limit. -/
structure RankedByCost (limit : Nat) (ranked : List (GpuModel × ℚ)) : Prop where
  models : ∀ e ∈ ranked, e.1 ∈ rankedModels db workload precision since
  distinct : (ranked.map fun e => e.1.id).Nodup
  length : ranked.length = min limit (rankedModels db workload precision since).length
  least : ∀ e ∈ ranked, IsLeast (costsOf db workload precision since e.1.id) e.2
  ascending : ranked.Pairwise fun e e' => e.2 ≤ e'.2
  /-- No GPU that is left out costs strictly less than one that is ranked. -/
  omitted : ∀ g ∈ rankedModels db workload precision since, g ∉ ranked.map Prod.fst →
    ∀ x, IsLeast (costsOf db workload precision since g.id) x → ∀ e ∈ ranked, e.2 ≤ x

end Ranking

section Query

variable {db : Database} {workload : String} {precision : Option String} {since : Instant}
  {limit : Nat} {plan : Plan}

theorem mem_offersOf {gpuId : Integer} {p : PricePoint} :
    p ∈ offersOf db since gpuId ↔ p ∈ db.pricePoints ∧ p.gpuModelId = gpuId
      ∧ since ≤ p.observedAt ∧ p.availability.val = "available" := by
  simp [offersOf]

theorem mem_runsOf {gpuId : Integer} {b : BenchmarkRun} :
    b ∈ runsOf db workload precision gpuId ↔ b ∈ db.benchmarkRuns ∧ b.gpuModelId = gpuId
      ∧ matchesBench workload precision b ∧ 0 < b.throughput.value := by
  simp [runsOf]

/-! ## The two picks -/

/-- **`best_price`** picks a cheapest offer of each GPU. -/
theorem firstOfEach_bestPrice (plan : Plan) (db : Database) (since : Instant) :
    FirstOfEach (fun p : PricePoint => p.gpuModelId) bestPriceOrder
      (db.pricePoints.filter fun p => since ≤ p.observedAt ∧ p.availability.val = "available")
      (bestPrice plan db since) :=
  firstOfEach_distinctOn ((plan.prices.perm db.pricePoints).filter _)

/-- **`best_bench`** picks a fastest matching run of each GPU. -/
theorem firstOfEach_bestBench (plan : Plan) (db : Database) (workload : String)
    (precision : Option String) :
    FirstOfEach (fun b : BenchmarkRun => b.gpuModelId) bestBenchOrder
      (db.benchmarkRuns.filter (matchesBench workload precision))
      (bestBench plan db workload precision) :=
  firstOfEach_distinctOn ((plan.benchmarks.perm db.benchmarkRuns).filter _)

theorem bestPrice_le {bp p : PricePoint} (hbp : bp ∈ bestPrice plan db since)
    (hp : p ∈ offersOf db since bp.gpuModelId) : bp.usdPerHour.value ≤ p.usdPerHour.value := by
  obtain ⟨hmem, hgpu, hwindow, havailable⟩ := mem_offersOf.mp hp
  have hfirst := (mem_firstRows.mp ((firstOfEach_bestPrice plan db since).first bp hbp)).2 p
    (List.mem_filter.mpr ⟨hmem, decide_eq_true ⟨hwindow, havailable⟩⟩) hgpu
  exact hfirst.2 (le_of_eq hgpu)

theorem le_bestBench {bb b : BenchmarkRun} (hbb : bb ∈ bestBench plan db workload precision)
    (hb : b ∈ runsOf db workload precision bb.gpuModelId) :
    b.throughput.value ≤ bb.throughput.value := by
  obtain ⟨hmem, hgpu, hmatches, -⟩ := mem_runsOf.mp hb
  have hfirst := (mem_firstRows.mp
    ((firstOfEach_bestBench plan db workload precision).first bb hbb)).2 b
    (List.mem_filter.mpr ⟨hmem, hmatches⟩) hgpu
  exact hfirst.2 (le_of_eq hgpu)

theorem mem_offersOf_bestPrice {bp : PricePoint} (hbp : bp ∈ bestPrice plan db since) :
    bp ∈ offersOf db since bp.gpuModelId := by
  obtain ⟨hmem, hoffer⟩ := List.mem_filter.mp ((firstOfEach_bestPrice plan db since).mem hbp)
  exact mem_offersOf.mpr ⟨hmem, rfl, of_decide_eq_true hoffer⟩

theorem mem_runsOf_bestBench {bb : BenchmarkRun} (hbb : bb ∈ bestBench plan db workload precision)
    (hpositive : 0 < bb.throughput.value) :
    bb ∈ runsOf db workload precision bb.gpuModelId := by
  obtain ⟨hmem, hmatches⟩ :=
    List.mem_filter.mp ((firstOfEach_bestBench plan db workload precision).mem hbb)
  exact mem_runsOf.mpr ⟨hmem, rfl, hmatches, hpositive⟩

/-- **The joint minimum**: no pair costs less than the two picks together. -/
theorem isLeast_costOf (hprices : ∀ p ∈ db.pricePoints, 0 ≤ p.usdPerHour.value) {bp : PricePoint}
    {bb : BenchmarkRun} (hbp : bp ∈ bestPrice plan db since)
    (hbb : bb ∈ bestBench plan db workload precision) (hgpu : bp.gpuModelId = bb.gpuModelId)
    (hpositive : 0 < bb.throughput.value) :
    IsLeast (costsOf db workload precision since bb.gpuModelId) (costOf bp bb) := by
  constructor
  · refine ⟨bp, ?_, bb, mem_runsOf_bestBench hbb hpositive, rfl⟩
    rw [← hgpu]
    exact mem_offersOf_bestPrice hbp
  · rintro x ⟨p, hp, b, hb, rfl⟩
    have hprice : bp.usdPerHour.value ≤ p.usdPerHour.value := bestPrice_le hbp (by rwa [hgpu])
    have hthroughput : b.throughput.value ≤ bb.throughput.value := le_bestBench hbb hb
    have hrun : 0 < b.throughput.value := (mem_runsOf.mp hb).2.2.2
    have hnonneg : 0 ≤ p.usdPerHour.value := hprices p (mem_offersOf.mp hp).1
    unfold costOf
    gcongr

/-! ## The join -/

/-- A joined row: the two picks of a GPU, the GPU and the provider of the price. -/
structure JoinedRow (plan : Plan) (db : Database) (workload : String) (precision : Option String)
    (since : Instant) (r : BenchmarkRun × PricePoint × GpuModel × Provider) : Prop where
  run : r.1 ∈ bestBench plan db workload precision
  price : r.2.1 ∈ bestPrice plan db since
  sameGpu : r.2.1.gpuModelId = r.1.gpuModelId
  model : r.2.2.1 ∈ db.gpuModels
  modelId : r.2.2.1.id = r.1.gpuModelId
  positive : 0 < r.1.throughput.value

theorem Database.mem_of_gpuModel? {id : Integer} {g : GpuModel} (h : db.gpuModel? id = some g) :
    g ∈ db.gpuModels ∧ g.id = id :=
  ⟨List.mem_of_find?_eq_some h, by simpa using List.find?_some h⟩

theorem Database.gpuModel?_isSome (db : Database) {id : Integer}
    (h : id ∈ db.gpuModels.map GpuModel.id) : ∃ g, db.gpuModel? id = some g := by
  obtain ⟨g, hg, hid⟩ := List.mem_map.mp h
  exact Option.isSome_iff_exists.mp (List.find?_isSome.mpr ⟨g, hg, decide_eq_true hid⟩)

/-- What a run is joined to. -/
def joinOf (prices : List PricePoint) (db : Database) (bb : BenchmarkRun) :
    Option (BenchmarkRun × PricePoint × GpuModel × Provider) := do
  let bp ← prices.find? fun bp => bp.gpuModelId = bb.gpuModelId
  let g ← db.gpuModel? bb.gpuModelId
  let pr ← db.provider? bp.providerId
  if 0 < bb.throughput.value then some (bb, bp, g, pr) else none

theorem joinOf_eq_some {prices : List PricePoint} {bb : BenchmarkRun}
    {r : BenchmarkRun × PricePoint × GpuModel × Provider} :
    joinOf prices db bb = some r ↔ r.1 = bb
      ∧ prices.find? (fun bp => bp.gpuModelId = bb.gpuModelId) = some r.2.1
      ∧ db.gpuModel? bb.gpuModelId = some r.2.2.1 ∧ db.provider? r.2.1.providerId = some r.2.2.2
      ∧ 0 < bb.throughput.value := by
  simp only [joinOf, Option.bind_eq_bind, Option.bind_eq_some_iff, Option.ite_none_right_eq_some,
    Option.some.injEq]
  constructor
  · rintro ⟨bp, hbp, g, hg, pr, hpr, hpositive, rfl⟩
    exact ⟨rfl, hbp, hg, hpr, hpositive⟩
  · rintro ⟨rfl, hbp, hg, hpr, hpositive⟩
    exact ⟨_, hbp, _, hg, _, hpr, hpositive, rfl⟩

theorem indexJoin_eq : indexJoin plan db workload precision since
    = (bestBench plan db workload precision).filterMap (joinOf (bestPrice plan db since) db) := rfl

theorem joinedRow_of_mem {r : BenchmarkRun × PricePoint × GpuModel × Provider}
    (h : r ∈ indexJoin plan db workload precision since) :
    JoinedRow plan db workload precision since r := by
  obtain ⟨bb, hbb, hjoin⟩ := List.mem_filterMap.mp h
  obtain ⟨rfl, hbp, hg, -, hpositive⟩ := joinOf_eq_some.mp hjoin
  obtain ⟨hmodel, hid⟩ := Database.mem_of_gpuModel? hg
  exact ⟨hbb, List.mem_of_find?_eq_some hbp, by simpa using List.find?_some hbp, hmodel, hid,
    hpositive⟩

/-- A joined row's GPU has a pair. -/
theorem JoinedRow.ranked {r : BenchmarkRun × PricePoint × GpuModel × Provider}
    (h : JoinedRow plan db workload precision since r) :
    r.2.2.1 ∈ rankedModels db workload precision since := by
  have hoffer := mem_offersOf_bestPrice h.price
  rw [h.sameGpu, ← h.modelId] at hoffer
  have hrun := mem_runsOf_bestBench h.run h.positive
  rw [← h.modelId] at hrun
  exact List.mem_filter.mpr ⟨h.model,
    decide_eq_true ⟨List.ne_nil_of_mem hoffer, List.ne_nil_of_mem hrun⟩⟩

/-- **No GPU is lost**: one that has a pair is joined. -/
theorem exists_joined (plan : Plan) {g : GpuModel}
    (hg : g ∈ rankedModels db workload precision since) :
    ∃ r ∈ indexJoin plan db workload precision since, r.2.2.1 = g := by
  obtain ⟨hmodel, hpair⟩ := List.mem_filter.mp hg
  obtain ⟨hoffers, hruns⟩ := of_decide_eq_true hpair
  obtain ⟨p, hp⟩ := List.exists_mem_of_ne_nil _ hoffers
  obtain ⟨b, hb⟩ := List.exists_mem_of_ne_nil _ hruns
  obtain ⟨hpmem, hpgpu, hpwindow, hpavailable⟩ := mem_offersOf.mp hp
  obtain ⟨hbmem, hbgpu, hbmatches, hbpositive⟩ := mem_runsOf.mp hb
  -- the picks of the GPU: some run and some price of it are picked
  obtain ⟨bb, hbb, hbbgpu⟩ := (firstOfEach_bestBench plan db workload precision).covers b
    (List.mem_filter.mpr ⟨hbmem, hbmatches⟩)
  obtain ⟨bp, hbp, hbpgpu⟩ := (firstOfEach_bestPrice plan db since).covers p
    (List.mem_filter.mpr ⟨hpmem, decide_eq_true ⟨hpwindow, hpavailable⟩⟩)
  have hbbid : bb.gpuModelId = g.id := hbbgpu.trans hbgpu
  have hbpid : bp.gpuModelId = g.id := hbpgpu.trans hpgpu
  have hpositive : 0 < bb.throughput.value :=
    hbpositive.trans_le (le_bestBench hbb (by rw [hbbid]; exact hb))
  obtain ⟨bp', hbp'⟩ : ∃ bp', (bestPrice plan db since).find? (fun bp =>
      bp.gpuModelId = bb.gpuModelId) = some bp' :=
    Option.isSome_iff_exists.mp (List.find?_isSome.mpr
      ⟨bp, hbp, decide_eq_true (hbpid.trans hbbid.symm)⟩)
  obtain ⟨pr, hpr⟩ := db.provider?_isSome (p := bp')
    (List.mem_filter.mp ((firstOfEach_bestPrice plan db since).mem
      (List.mem_of_find?_eq_some hbp'))).1
  obtain ⟨g', hg'⟩ := @Database.gpuModel?_isSome db bb.gpuModelId
    (by rw [hbbid]; exact List.mem_map_of_mem hmodel)
  obtain ⟨hmodel', hid'⟩ := Database.mem_of_gpuModel? hg'
  refine ⟨(bb, bp', g', pr), List.mem_filterMap.mpr ⟨bb, hbb,
    joinOf_eq_some.mpr ⟨rfl, hbp', hg', hpr, hpositive⟩⟩, ?_⟩
  exact List.inj_on_of_nodup_map db.constraints.gpu_models_pkey hmodel' hmodel (hid'.trans hbbid)

/-- No GPU is joined twice. -/
theorem nodup_joined (plan : Plan) (db : Database) (workload : String) (precision : Option String)
    (since : Instant) :
    ((indexJoin plan db workload precision since).map fun r => r.2.2.1.id).Nodup := by
  have hrows (r : BenchmarkRun × PricePoint × GpuModel × Provider)
      (hr : r ∈ indexJoin plan db workload precision since) : r.2.2.1.id = r.1.gpuModelId :=
    (joinedRow_of_mem hr).modelId
  rw [List.map_congr_left hrows, ← Function.comp_def
    (fun b : BenchmarkRun => b.gpuModelId) Prod.fst, ← List.map_map]
  refine (firstOfEach_bestBench plan db workload precision).distinct.sublist (List.Sublist.map _ ?_)
  rw [indexJoin_eq]
  generalize bestBench plan db workload precision = runs
  induction runs with
  | nil => exact List.Sublist.refl _
  | cons bb runs ih =>
    cases hjoin : joinOf (bestPrice plan db since) db bb with
    | none =>
      rw [List.filterMap_cons_none hjoin]
      exact ih.cons bb
    | some r =>
      rw [List.filterMap_cons_some hjoin, List.map_cons, (joinOf_eq_some.mp hjoin).1]
      exact ih.cons_cons bb

/-- The GPUs that are joined are those that have a pair. -/
theorem perm_rankedModels (plan : Plan) (db : Database) (workload : String)
    (precision : Option String) (since : Instant) :
    ((indexJoin plan db workload precision since).map fun r => r.2.2.1).Perm
      (rankedModels db workload precision since) := by
  have hnodup := nodup_joined plan db workload precision since
  rw [← Function.comp_def GpuModel.id, ← List.map_map] at hnodup
  have hmodels := db.constraints.gpu_models_pkey.of_map.filter
    fun g => decide (offersOf db since g.id ≠ [] ∧ runsOf db workload precision g.id ≠ [])
  refine (List.perm_ext_iff_of_nodup hnodup.of_map hmodels).mpr fun g =>
    ⟨fun hg => ?_, fun hg => ?_⟩
  · obtain ⟨r, hr, rfl⟩ := List.mem_map.mp hg
    exact (joinedRow_of_mem hr).ranked
  · obtain ⟨r, hr, rfl⟩ := exists_joined plan hg
    exact List.mem_map_of_mem hr

/-! ## The ranking -/

/-- The cost a joined row is ranked by. -/
theorem JoinedRow.cost {r : BenchmarkRun × PricePoint × GpuModel × Provider}
    (h : JoinedRow plan db workload precision since r) :
    usdPerMillion r.2.1.usdPerHour.value r.1.throughput.value = some (costOf r.2.1 r.1) :=
  if_neg h.positive.ne'

/-- Of joined rows the one that costs less comes first; none is without a cost. -/
theorem JoinedRow.cost_le {r r' : BenchmarkRun × PricePoint × GpuModel × Provider}
    (h : JoinedRow plan db workload precision since r)
    (h' : JoinedRow plan db workload precision since r') (hle : rankingOrder.le r r') :
    costOf r.2.1 r.1 ≤ costOf r'.2.1 r'.1 := by
  have hnulls : (usdPerMillion r'.2.1.usdPerHour.value r'.1.throughput.value).isNone
      ≤ (usdPerMillion r.2.1.usdPerHour.value r.1.throughput.value).isNone := by
    rw [h.cost, h'.cost]
    exact le_refl _
  have hcost := hle.2 hnulls
  have hvalues : (usdPerMillion r.2.1.usdPerHour.value r.1.throughput.value).getD 0
      ≤ (usdPerMillion r'.2.1.usdPerHour.value r'.1.throughput.value).getD 0 := hcost
  rwa [h.cost, h'.cost] at hvalues

/-- The rows the query returns, before it builds its columns. -/
def rankedRows (plan : Plan) (db : Database) (workload : String) (precision : Option String)
    (since : Instant) (limit : Nat) : List (BenchmarkRun × PricePoint × GpuModel × Provider) :=
  (rankingOrder.sort (plan.ranked.apply (indexJoin plan db workload precision since))).take limit

/-- A ranked GPU with its cost. -/
def entryOf (r : BenchmarkRun × PricePoint × GpuModel × Provider) : GpuModel × ℚ :=
  (r.2.2.1, costOf r.2.1 r.1)

/-- **The query ranks** the GPUs by their joint minimum. -/
theorem rankedByCost (hprices : ∀ p ∈ db.pricePoints, 0 ≤ p.usdPerHour.value) :
    RankedByCost db workload precision since limit
      ((rankedRows plan db workload precision since limit).map entryOf) := by
  have htop : TopRows rankingOrder limit (indexJoin plan db workload precision since)
      (rankedRows plan db workload precision since limit) :=
    topRows_take rankingOrder limit (plan.ranked.perm _)
  have hrow {r : BenchmarkRun × PricePoint × GpuModel × Provider}
      (hr : r ∈ rankedRows plan db workload precision since limit) :
      JoinedRow plan db workload precision since r := joinedRow_of_mem (htop.mem hr)
  have hleast {r : BenchmarkRun × PricePoint × GpuModel × Provider}
      (h : JoinedRow plan db workload precision since r) :
      IsLeast (costsOf db workload precision since r.2.2.1.id) (costOf r.2.1 r.1) := by
    rw [h.modelId]
    exact isLeast_costOf hprices h.price h.run h.sameGpu h.positive
  have hdistinct := nodup_joined plan db workload precision since
  have hlength := (perm_rankedModels plan db workload precision since).length_eq
  rw [List.length_map] at hlength
  -- the rows are a top-k of the join, which has one row of each ranked GPU
  constructor
  case models =>
    intro e he
    obtain ⟨r, hr, rfl⟩ := List.mem_map.mp he
    exact (hrow hr).ranked
  case distinct =>
    obtain ⟨omitted, hperm, -⟩ := htop.omitted
    have hall := (hperm.map fun r => r.2.2.1.id).nodup_iff.mp hdistinct
    rw [List.map_append] at hall
    rw [List.map_map]
    exact (List.nodup_append.mp hall).1
  case length =>
    rw [List.length_map, htop.length, hlength]
  case least =>
    intro e he
    obtain ⟨r, hr, rfl⟩ := List.mem_map.mp he
    exact hleast (hrow hr)
  case ascending =>
    refine List.pairwise_map.mpr (htop.sorted.imp_of_mem fun ha hb hle => ?_)
    exact (hrow ha).cost_le (hrow hb) hle
  case omitted =>
    intro g hg hout x hx e he
    obtain ⟨r, hr, rfl⟩ := List.mem_map.mp he
    obtain ⟨r', hr', rfl⟩ := exists_joined plan hg
    have hleft : r' ∉ rankedRows plan db workload precision since limit := by
      intro hin
      refine hout ?_
      rw [List.map_map]
      exact List.mem_map_of_mem (f := Prod.fst ∘ entryOf) hin
    have hle := (hrow hr).cost_le (joinedRow_of_mem hr') ((htop.of_not_mem hr' hleft).2 r hr)
    rwa [hx.unique (hleast (joinedRow_of_mem hr'))]

/-- The columns of a returned row that the ranking is about. -/
theorem indexSql_entries (fmt : FloatFormat) :
    (indexSql fmt plan db workload precision since limit).map
        (fun r => (r.gpuModel, r.usdPerMillionUnits))
      = ((rankedRows plan db workload precision since limit).map entryOf).map
          fun e => (e.1.modelName, some (fmt.round e.2)) := by
  have hrow {r : BenchmarkRun × PricePoint × GpuModel × Provider}
      (hr : r ∈ rankedRows plan db workload precision since limit) :
      JoinedRow plan db workload precision since r :=
    joinedRow_of_mem (plan.ranked.mem_apply.mp ((Order.mem_sort _).mp (List.mem_of_mem_take hr)))
  rw [indexSql, List.map_map, List.map_map]
  refine List.map_congr_left fun r hr => ?_
  show (r.2.2.1.modelName,
      (usdPerMillion r.2.1.usdPerHour.value r.1.throughput.value).map fmt.round)
    = _
  rw [(hrow hr).cost]
  rfl

end Query

/-! ## The program -/

/-- The server takes the parameters: the texts have no NUL and the limit fits a `BIGINT`. -/
structure SendableIndex (workload : String) (precision : Option String) (limit : Nat) : Prop where
  workload : NoNul workload
  precision : ∀ p ∈ precision, NoNul p
  limit : limit < 9223372036854775808

section Eval

variable {env : Env} {plan : Plan} {db : Database} {workload : String} {precision : Option String}
  {since : Instant} {limit : Nat}

theorem eval_index_ok (h : SendableIndex workload precision limit) :
    (Statement.index workload precision since limit).eval env plan db
      = .ok (indexSql env.fmt plan db workload precision since limit) := by
  simp only [Statement.eval, bindText_of_noNul h.workload,
    bindOption_bindText h.precision, bindLimit, if_pos h.limit]
  rfl

theorem eval_index_error (h : ¬ SendableIndex workload precision limit) :
    (Statement.index workload precision since limit).eval env plan db = .error .dataError := by
  rw [Statement.eval]
  by_cases hworkload : NoNul workload
  · rw [bindText_of_noNul hworkload]
    by_cases hprecision : ∀ p ∈ precision, NoNul p
    · have hlimit : ¬ limit < 9223372036854775808 := fun hlimit => h ⟨hworkload, hprecision, hlimit⟩
      rw [bindOption_bindText hprecision, bindLimit, if_neg hlimit]
      rfl
    · rw [bindOption_bindText_nul hprecision]
      rfl
  · rw [bindText_of_nul hworkload]
    rfl

end Eval

/-- How the program ends: the window start is computed, and the statement is answered or fails. -/
theorem run_computeIndex (env : Env) (choices : Nat → Choice) (workload : String)
    (precision : Option String) (windowDays : Int) (limit : Nat) (m : Machine) :
    (runSvc env choices (computeIndex workload precision windowDays limit) m).1
      = (minusDays (env.clock m.world.now) windowDays).bind fun since =>
        match (choices 1).dbError with
        | some e => .error (.db e)
        | none => ((Statement.index workload precision since limit).eval env (choices 1).plan
            m.world.db).mapError Exn.db := by
  refine (runSvc_window env choices windowDays _ m).trans ?_
  congr 1
  funext since
  exact go_query_value rfl

/-- **The index is the joint optimum and a true top-k** on every database whose prices are not
    negative: the rows show the least cost of each GPU that has a pair, in ascending order and up to
    the limit, each rounded once and none null.  Otherwise the window begins before the first year,
    the server does not take a parameter, or it failed. -/
theorem computeIndex_spec (env : Env) (choices : Nat → Choice) (workload : String)
    (precision : Option String) (windowDays : Int) (limit : Nat) (m : Machine)
    (hprices : ∀ p ∈ m.world.db.pricePoints, 0 ≤ p.usdPerHour.value) :
    match (runSvc env choices (computeIndex workload precision windowDays limit) m).1 with
    | .ok rows => ∃ since ranked, minusDays (env.clock m.world.now) windowDays = .ok since
        ∧ RankedByCost m.world.db workload precision since limit ranked
        ∧ rows.map (fun r => (r.gpuModel, r.usdPerMillionUnits))
          = ranked.map fun e => (e.1.modelName, some (env.fmt.round e.2))
    | .error e => e = .overflowError ∧ minusDays (env.clock m.world.now) windowDays = .error e
        ∨ e = .db .dataError ∧ ¬ SendableIndex workload precision limit
        ∨ ∃ err, e = .db err ∧ (choices 1).dbError = some err := by
  rw [run_computeIndex]
  cases hsince : minusDays (env.clock m.world.now) windowDays with
  | error e => exact .inl ⟨minusDays_overflow hsince, rfl⟩
  | ok since =>
    dsimp only [Except.bind]
    cases hdb : (choices 1).dbError with
    | some err => exact .inr (.inr ⟨err, rfl, rfl⟩)
    | none =>
      by_cases hsend : SendableIndex workload precision limit
      · rw [eval_index_ok hsend]
        exact ⟨since, _, rfl, rankedByCost hprices, indexSql_entries env.fmt⟩
      · rw [eval_index_error hsend]
        exact .inr (.inl ⟨rfl, hsend⟩)

/-- The index of the market. -/
def indexOfMarket : Except Exn (List IndexRow) :=
  (runSvc env (fun _ => .calm) (computeIndex "llm-inference-7b" none 30 50)
    ⟨worldOf market, {}⟩).1

/-- Its rows: the superseded offer counts, and the model whose run got nothing done is left out. -/
def marketRanking : List IndexRow :=
  [{ gpuModel := (h100 ⟨1, one_range⟩).modelName
     vendor := (h100 ⟨1, one_range⟩).vendor
     workload := "llm-inference-7b"
     precision := fp8
     bestUsdPerHour := halves.round 2
     throughput := halves.round 4000
     usdPerMillionUnits := some (halves.round 500)
     provider := aws.name
     region := (observation ⟨1, one_range⟩ available).region },
   { gpuModel := a100.modelName
     vendor := a100.vendor
     workload := "llm-inference-7b"
     precision := fp16
     bestUsdPerHour := halves.round 1
     throughput := halves.round 1000
     usdPerMillionUnits := some (halves.round 1000)
     provider := gcp.name
     region := (observation a100.id available).region }]

theorem indexOfMarket_rows : indexOfMarket = .ok marketRanking := by with_unfolding_all rfl

theorem market_nonneg : ∀ p ∈ market.pricePoints, 0 ≤ p.usdPerHour.value := by decide +kernel

theorem computeIndex_spec_market :
    ∃ since ranked, minusDays newYear 30 = .ok since
      ∧ RankedByCost market "llm-inference-7b" none since 50 ranked
      ∧ marketRanking.map (fun r => (r.gpuModel, r.usdPerMillionUnits))
        = ranked.map fun e => (e.1.modelName, some (halves.round e.2)) := by
  have hspec := computeIndex_spec env (fun _ => .calm) "llm-inference-7b" none 30 50
    ⟨worldOf market, {}⟩ market_nonneg
  have hrun : (runSvc env (fun _ => .calm) (computeIndex "llm-inference-7b" none 30 50)
      ⟨worldOf market, {}⟩).1 = .ok marketRanking := indexOfMarket_rows
  rw [hrun] at hspec
  exact hspec

end GpuIndex
