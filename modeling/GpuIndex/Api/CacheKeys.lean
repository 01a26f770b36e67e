/-
  What the cache keys tell apart.

  Two requests with one key share a cache entry, so they should select the same rows.  The keys are
  texts joined by colons, with a sentinel for an absent filter; each section first takes a key
  apart, then says exactly when two requests with one key are interchangeable.
-/
import GpuIndex.Api.Routes
import GpuIndex.Fixture
import GpuIndex.Lib.Joined

namespace GpuIndex

open Calendar Joined OrderBy
open JsonText (FloatFormat)

/-! ## Prices: the key -/

/-- The filter as the key names it. -/
def filterName (availability : Option String) : String := (truthy availability).getD "all"

theorem pricesKey_toList (q : PricesQuery) :
    (pricesKey q).toList = "prices:".toList ++ ((toString q.gpuId).toList
      ++ ':' :: ((filterName q.availability).toList ++ ':' :: (toString q.windowDays).toList)) := by
  simp [pricesKey, filterName]

theorem hasPrefix_pricesKey (q : PricesQuery) : hasPrefix "prices:" (pricesKey q) = true := by
  rw [pricesKey, String.append_assoc, String.append_assoc, String.append_assoc, String.append_assoc]
  exact hasPrefix_append _ _

/-- **The prices key** determines the GPU, the window and the filter's name. -/
theorem pricesKey_inj {q₁ q₂ : PricesQuery} :
    pricesKey q₁ = pricesKey q₂ ↔ q₁.gpuId = q₂.gpuId
      ∧ filterName q₁.availability = filterName q₂.availability
      ∧ q₁.windowDays = q₂.windowDays := by
  have hcolon (n : Int) : ':' ∉ (toString n).toList := not_mem_toString rfl (by decide) n
  constructor
  · intro h
    have htext := congrArg String.toList h
    rw [pricesKey_toList, pricesKey_toList] at htext
    obtain ⟨hgpu, hrest⟩ := first_inj (hcolon _) (hcolon _) (List.append_cancel_left htext)
    obtain ⟨hfilter, hwindow⟩ := last_inj (hcolon _) (hcolon _) hrest
    exact ⟨toString_injective (String.toList_inj.mp hgpu), String.toList_inj.mp hfilter,
      toString_injective (String.toList_inj.mp hwindow)⟩
  · rintro ⟨hgpu, hfilter, hwindow⟩
    rw [← String.toList_inj, pricesKey_toList, pricesKey_toList, hgpu, hfilter, hwindow]

/-! ## Prices: the rows -/

/-- The world of one request alone. -/
def aloneOn (db : Database) (now : Instant) : Machine :=
  ⟨⟨ExpiringStore.empty, db, now, ⟨0, 0, 0⟩⟩, {}⟩

/-- A server that answers everything, and meets rows as the plan says. -/
def answering (plan : Plan) : Nat → Choice := fun _ => { Choice.calm with plan := plan }

/-- The rows `latest_prices` selects for a request of `gpu_prices`. -/
def selectPrices (env : Env) (plan : Plan) (now : Instant) (db : Database) (q : PricesQuery) :
    Except Exn (List LatestRow) :=
  (runSvc env (answering plan) (latestPrices q.gpuId q.windowDays q.availability 200)
    (aloneOn db now)).1

/-- A database error as the service raises it. -/
def raised {α : Type} : Except DbError α → Except Exn α := Except.mapError Exn.db

theorem raised_ok {α : Type} {r : Except DbError α} {a : α} (h : raised r = .ok a) : r = .ok a := by
  cases r with
  | error e => cases h
  | ok b => exact congrArg Except.ok (Except.ok.inj h)

/-- A statement from a server that answers. -/
theorem go_query_answering {env : Env} {plan : Plan} {stmt : Statement} {m m' : Machine} {n : Nat}
    (heffect : stmt.effect env m = .ok m') :
    (Svc.go env (answering plan) (query stmt) (m, n)).1
      = raised (stmt.eval env plan m.world.db) := by
  rw [Svc.go_query, Statement.exec_calm rfl heffect]
  simp only [answering]
  cases stmt.eval env plan m.world.db <;> rfl

/-- From any machine, the selection is the statement's, on the window that ends now. -/
theorem go_latestPrices_answering (env : Env) (plan : Plan) (q : PricesQuery) (m : Machine)
    (n : Nat) :
    ((latestPrices q.gpuId q.windowDays q.availability 200).go env (answering plan) (m, n)).1
      = (minusDays (env.clock m.world.now) q.windowDays).bind fun since =>
        raised ((Statement.latestPrices q.gpuId since (truthy q.availability) 200).eval env plan
          m.world.db) := by
  rw [latestPrices, Svc.go_bind, Svc.go_now]
  simp only [Svc.go_bind]
  cases minusDays (env.clock m.world.now) q.windowDays with
  | error e => rfl
  | ok since => exact go_query_answering rfl

theorem selectPrices_eq (env : Env) (plan : Plan) (now : Instant) (db : Database)
    (q : PricesQuery) :
    selectPrices env plan now db q = (minusDays (env.clock now) q.windowDays).bind fun since =>
      raised ((Statement.latestPrices q.gpuId since (truthy q.availability) 200).eval env plan
        db) :=
  go_latestPrices_answering env plan q (aloneOn db now) 0

/-- What a request selects is what the SQL selects. -/
theorem selectPrices_sql {env : Env} {plan : Plan} {now : Instant} {db : Database} {q : PricesQuery}
    {rows : List LatestRow} (h : selectPrices env plan now db q = .ok rows) :
    ∃ gpu since availability limit,
      rows = latestPricesSql env.collation env.fmt plan db gpu since availability limit := by
  rw [selectPrices_eq] at h
  obtain ⟨since, -, h⟩ := bind_ok h
  obtain ⟨gpu, -, h⟩ := bind_ok (raised_ok h)
  obtain ⟨availability, -, h⟩ := bind_ok h
  obtain ⟨limit, -, h⟩ := bind_ok h
  exact ⟨gpu, since, availability, limit, (Except.ok.inj h).symm⟩

/-- Filters that are equally true select the same rows. -/
theorem selectPrices_congr {env : Env} {plan : Plan} {now : Instant} {db : Database}
    {q₁ q₂ : PricesQuery} (hgpu : q₁.gpuId = q₂.gpuId) (hwindow : q₁.windowDays = q₂.windowDays)
    (hfilter : truthy q₁.availability = truthy q₂.availability) :
    selectPrices env plan now db q₁ = selectPrices env plan now db q₂ := by
  rw [selectPrices_eq, selectPrices_eq, hgpu, hwindow, hfilter]

/-- A GPU id that is no 32-bit integer selects nothing but an error, whatever the filter. -/
theorem selectPrices_out_of_range {env : Env} {plan : Plan} {now : Instant} {db : Database}
    {q : PricesQuery} (hgpu : Integer.ofInt? q.gpuId = none) :
    selectPrices env plan now db q = (minusDays (env.clock now) q.windowDays).bind fun _ =>
      .error (.db .dataError) := by
  rw [selectPrices_eq]
  congr 1
  funext since
  rw [Statement.eval, bindInteger, hgpu]
  rfl

/-! ## Prices: requests with one key -/

/-- Two requests that differ in nothing but the filter, where one has no filter and the other asks
    for the sentinel itself. -/
structure SentinelClash (q₁ q₂ : PricesQuery) : Prop where
  gpuId_eq : q₁.gpuId = q₂.gpuId
  gpuId_range : ∃ gpu, Integer.ofInt? q₁.gpuId = some gpu
  windowDays_eq : q₁.windowDays = q₂.windowDays
  filter : truthy q₁.availability = none ∧ q₂.availability = some "all"
    ∨ q₁.availability = some "all" ∧ truthy q₂.availability = none

/-- One filter name, one filter, but for the sentinel. -/
theorem truthy_eq_of_filterName {a b : Option String} (h : filterName a = filterName b) :
    truthy a = truthy b ∨ truthy a = none ∧ b = some "all" ∨ a = some "all" ∧ truthy b = none := by
  unfold filterName at h
  cases ha : truthy a with
  | none =>
    cases hb : truthy b with
    | none => exact .inl rfl
    | some t =>
      rw [ha, hb] at h
      have hall : t = "all" := h.symm
      exact .inr (.inl ⟨rfl, hall ▸ (Option.filter_eq_some_iff.mp hb).1⟩)
  | some s =>
    cases hb : truthy b with
    | none =>
      rw [ha, hb] at h
      have hall : s = "all" := h
      exact .inr (.inr ⟨hall ▸ (Option.filter_eq_some_iff.mp ha).1, rfl⟩)
    | some t =>
      rw [ha, hb] at h
      exact .inl (congrArg some h)

/-- The window of a request that ends on new year's day. -/
theorem minusDays_newYear {days : Int} (h : 1 ≤ days ∧ days ≤ 365) :
    ∃ since, minusDays newYear days = .ok since ∧ since ≤ newYear := by
  have hrange : 0 ≤ (newYear.us : Int) - days * dayMicros
      ∧ (newYear.us : Int) - days * dayMicros < maxMicros := by
    simp only [newYear, dayMicros, maxMicros]
    omega
  refine ⟨_, dif_pos hrange, ?_⟩
  rw [Instant.le_iff]
  simp only [newYear, dayMicros]
  omega

/-- A request whose parameters can be bound selects what the SQL selects. -/
theorem selectPrices_ok {env : Env} {plan : Plan} {now : Instant} {db : Database} {q : PricesQuery}
    {gpu : Integer} {since : Instant} (hgpu : Integer.ofInt? q.gpuId = some gpu)
    (hsince : minusDays (env.clock now) q.windowDays = .ok since)
    (hfilter : ∀ a ∈ truthy q.availability, NoNul a) :
    selectPrices env plan now db q = .ok (latestPricesSql env.collation env.fmt plan db gpu since
      (truthy q.availability) 200) := by
  rw [selectPrices_eq, hsince, Except.bind, Statement.eval, bindInteger, hgpu,
    bindOption_bindText hfilter]
  rfl

/-- Of the database with one available price, that price is selected if the filter admits it. -/
theorem selectPrices_tiny (q : PricesQuery) {gpu : Integer}
    (hgpu : Integer.ofInt? q.gpuId = some gpu) (hfilter : ∀ a ∈ truthy q.availability, NoNul a) :
    selectPrices env .stored newYear (tiny gpu available llmInference fp16) q = .ok []
      ↔ ∃ a ∈ truthy q.availability, a ≠ "available" := by
  obtain ⟨since, hminus, hsince⟩ := minusDays_newYear q.windowDays_range
  have hwindow : inWindow gpu since (pricePoint gpu available) = true :=
    decide_eq_true ⟨rfl, hsince⟩
  have hadmits : matchesAvailability (truthy q.availability)
      (pricePoint gpu available) = true
        ↔ ∀ a ∈ truthy q.availability, a = "available" := by
    rw [matchesAvailability, Option.all_eq_true]
    exact forall₂_congr fun a _ => decide_eq_true_iff.trans eq_comm
  rw [selectPrices_ok hgpu hminus hfilter, Except.ok.injEq, latestPricesSql_eq_nil (by decide),
    tiny_pricePoints]
  simp only [List.mem_singleton, forall_eq, hwindow, true_imp_iff, hadmits]
  simp only [not_forall, exists_prop, ne_eq]

/-- It is not selected for the sentinel. -/
theorem selectPrices_tiny_all {q : PricesQuery} {gpu : Integer}
    (hgpu : Integer.ofInt? q.gpuId = some gpu) (hall : q.availability = some "all") :
    selectPrices env .stored newYear (tiny gpu available llmInference fp16) q = .ok [] := by
  have htruthy : truthy q.availability = some "all" := by rw [hall]; rfl
  refine (selectPrices_tiny q hgpu fun a ha => ?_).mpr ⟨"all", htruthy, by decide⟩
  rw [htruthy] at ha
  cases ha
  decide

/-- It is selected without a filter. -/
theorem selectPrices_tiny_none {q : PricesQuery} {gpu : Integer}
    (hgpu : Integer.ofInt? q.gpuId = some gpu) (hnone : truthy q.availability = none) :
    selectPrices env .stored newYear (tiny gpu available llmInference fp16) q ≠ .ok [] := by
  intro h
  obtain ⟨a, ha, -⟩ := (selectPrices_tiny q hgpu (by simp [hnone])).mp h
  rw [hnone] at ha
  cases ha

/-- **The prices key is sound** but for the sentinel: one key means the same rows on every database,
    at every instant, unless one request has no filter and the other asks for `all`. -/
theorem pricesKey_sound (q₁ q₂ : PricesQuery) :
    (pricesKey q₁ = pricesKey q₂ → ∀ env plan now db,
        selectPrices env plan now db q₁ = selectPrices env plan now db q₂)
      ↔ ¬ SentinelClash q₁ q₂ := by
  constructor
  · intro hsound hclash
    have hkey : pricesKey q₁ = pricesKey q₂ := by
      refine pricesKey_inj.mpr ⟨hclash.gpuId_eq, ?_, hclash.windowDays_eq⟩
      rcases hclash.filter with ⟨h₁, h₂⟩ | ⟨h₁, h₂⟩
      · rw [filterName, h₁, h₂]; rfl
      · rw [filterName, h₁, filterName, h₂]; rfl
    obtain ⟨gpu, hgpu⟩ := hclash.gpuId_range
    have hgpu₂ : Integer.ofInt? q₂.gpuId = some gpu := hclash.gpuId_eq ▸ hgpu
    have hrows := hsound hkey env .stored newYear (tiny gpu available llmInference fp16)
    rcases hclash.filter with ⟨h₁, h₂⟩ | ⟨h₁, h₂⟩
    · exact selectPrices_tiny_none hgpu h₁ (hrows.trans (selectPrices_tiny_all hgpu₂ h₂))
    · exact selectPrices_tiny_none hgpu₂ h₂ (hrows.symm.trans (selectPrices_tiny_all hgpu h₁))
  · intro hclash hkey env plan now db
    obtain ⟨hgpu, hfilter, hwindow⟩ := pricesKey_inj.mp hkey
    rcases truthy_eq_of_filterName hfilter with heq | hsentinel
    · exact selectPrices_congr hgpu hwindow heq
    · -- one filter is the sentinel, so no GPU can have the id
      have hnone : Integer.ofInt? q₁.gpuId = none := by
        by_contra h
        obtain ⟨gpu, hsome⟩ := Option.ne_none_iff_exists'.mp h
        exact hclash ⟨hgpu, ⟨gpu, hsome⟩, hwindow, hsentinel⟩
      rw [selectPrices_out_of_range hnone, selectPrices_out_of_range (hgpu ▸ hnone), hwindow]

/-- The prices of GPU 1 in the last 30 days. -/
def pricesOfOne (availability : Option String) : PricesQuery := ⟨1, availability, 30, by decide⟩

/-- Thirty days pass validation. -/
theorem thirtyDays_range : 1 ≤ (30 : Int) ∧ (30 : Int) ≤ 365 := by decide

theorem pricesKey_clash :
    pricesKey (pricesOfOne none) = pricesKey (pricesOfOne (some "all"))
      ∧ selectPrices env .stored newYear tinyDb (pricesOfOne none)
        ≠ selectPrices env .stored newYear tinyDb (pricesOfOne (some "all")) := by
  refine ⟨by decide, fun h => ?_⟩
  exact selectPrices_tiny_none rfl rfl (h.trans (selectPrices_tiny_all rfl rfl))

/-! ## Index: the key -/

/-- The precision as the key names it. -/
def precisionName (precision : Option String) : String := (truthy precision).getD "any"

theorem indexKey_toList (q : IndexQuery) :
    (indexKey q).toList = ("index:".toList ++ (q.workload.toList
      ++ ':' :: (precisionName q.precision).toList)) ++ ':' :: (toString q.limit).toList := by
  simp [indexKey, precisionName]

theorem hasPrefix_indexKey (q : IndexQuery) : hasPrefix "index:" (indexKey q) = true := by
  rw [indexKey, String.append_assoc, String.append_assoc, String.append_assoc, String.append_assoc]
  exact hasPrefix_append _ _

/-- **The index key** determines the limit, and the other two fields up to where one ends and the
    next begins. -/
theorem indexKey_inj {q₁ q₂ : IndexQuery} :
    indexKey q₁ = indexKey q₂ ↔ q₁.limit = q₂.limit
      ∧ q₁.workload.toList ++ ':' :: (precisionName q₁.precision).toList
        = q₂.workload.toList ++ ':' :: (precisionName q₂.precision).toList := by
  have hcolon (n : Nat) : ':' ∉ (toString n).toList :=
    not_mem_toString rfl (by decide) (Int.ofNat n)
  constructor
  · intro h
    have htext := congrArg String.toList h
    rw [indexKey_toList, indexKey_toList] at htext
    obtain ⟨hfields, hlimit⟩ := last_inj (hcolon _) (hcolon _) htext
    have hint : Int.ofNat q₁.limit = Int.ofNat q₂.limit :=
      toString_injective (String.toList_inj.mp hlimit)
    exact ⟨Int.ofNat.inj hint, List.append_cancel_left hfields⟩
  · rintro ⟨hlimit, hfields⟩
    rw [← String.toList_inj, indexKey_toList, indexKey_toList, hlimit, hfields]

/-- The ranking `compute_index` selects for a request of `workload_index`. -/
def rankIndex (env : Env) (plan : Plan) (now : Instant) (db : Database) (q : IndexQuery) :
    Except Exn (List IndexRow) :=
  (runSvc env (answering plan) (computeIndex q.workload q.precision 30 q.limit)
    (aloneOn db now)).1

/-- From any machine, the ranking is the statement's, on the window that ends now. -/
theorem go_computeIndex_answering (env : Env) (plan : Plan) (q : IndexQuery) (m : Machine)
    (n : Nat) :
    ((computeIndex q.workload q.precision 30 q.limit).go env (answering plan) (m, n)).1
      = (minusDays (env.clock m.world.now) 30).bind fun since =>
        raised ((Statement.index q.workload q.precision since q.limit).eval env plan
          m.world.db) := by
  rw [computeIndex, Svc.go_bind, Svc.go_now]
  simp only [Svc.go_bind]
  cases minusDays (env.clock m.world.now) 30 with
  | error e => rfl
  | ok since => exact go_query_answering rfl

theorem rankIndex_eq (env : Env) (plan : Plan) (now : Instant) (db : Database) (q : IndexQuery) :
    rankIndex env plan now db q = (minusDays (env.clock now) 30).bind fun since =>
      raised ((Statement.index q.workload q.precision since q.limit).eval env plan db) :=
  go_computeIndex_answering env plan q (aloneOn db now) 0

/-- What a request ranks is what the SQL ranks. -/
theorem rankIndex_sql {env : Env} {plan : Plan} {now : Instant} {db : Database} {q : IndexQuery}
    {rows : List IndexRow} (h : rankIndex env plan now db q = .ok rows) :
    ∃ workload precision since limit,
      rows = indexSql env.fmt plan db workload precision since limit := by
  rw [rankIndex_eq] at h
  obtain ⟨since, -, h⟩ := bind_ok h
  obtain ⟨workload, -, h⟩ := bind_ok (raised_ok h)
  obtain ⟨precision, -, h⟩ := bind_ok h
  obtain ⟨limit, -, h⟩ := bind_ok h
  exact ⟨workload, precision, since, limit, (Except.ok.inj h).symm⟩

/-! ## Index: the rows -/

/-- The parameters a stored benchmark run can match. -/
structure IndexQuery.Fits (q : IndexQuery) : Prop where
  workload : q.workload.length ≤ 48 ∧ NoNul q.workload
  precision : ∀ p ∈ q.precision, p.length ≤ 16 ∧ NoNul p

/-- A request whose parameters can be bound ranks what the SQL ranks. -/
theorem rankIndex_ok {env : Env} {plan : Plan} {now : Instant} {db : Database} {q : IndexQuery}
    {since : Instant} (hsince : minusDays (env.clock now) 30 = .ok since)
    (hworkload : NoNul q.workload) (hprecision : ∀ p ∈ q.precision, NoNul p) :
    rankIndex env plan now db q
      = .ok (indexSql env.fmt plan db q.workload q.precision since q.limit) := by
  have hlimit : q.limit ≤ 500 := q.limit_range.2.trans (by decide)
  rw [rankIndex_eq, hsince, Except.bind, Statement.eval, bindText_of_noNul hworkload,
    bindOption_bindText hprecision, bindLimit_of_le hlimit]
  rfl

/-- A request with a NUL ranks nothing but an error. -/
theorem rankIndex_nul {env : Env} {plan : Plan} {now : Instant} {db : Database} {q : IndexQuery}
    (h : ¬ (NoNul q.workload ∧ ∀ p ∈ q.precision, NoNul p)) :
    rankIndex env plan now db q = (minusDays (env.clock now) 30).bind fun _ =>
      .error (.db .dataError) := by
  rw [rankIndex_eq]
  congr 1
  funext since
  rw [Statement.eval]
  by_cases hworkload : NoNul q.workload
  · have hprecision : ¬ ∀ p ∈ q.precision, NoNul p := fun hprecision => h ⟨hworkload, hprecision⟩
    rw [bindText_of_noNul hworkload, bindOption_bindText_nul hprecision]
    rfl
  · rw [bindText_of_nul hworkload]
    rfl

/-- Without a benchmark run that matches, the ranking is empty. -/
theorem indexSql_of_no_match {fmt : FloatFormat} {plan : Plan} {db : Database} {workload : String}
    {precision : Option String} {since : Instant} {limit : Nat}
    (h : ∀ b ∈ db.benchmarkRuns, ¬ matchesBench workload precision b) :
    indexSql fmt plan db workload precision since limit = [] := by
  have hbench : (plan.benchmarks.apply db.benchmarkRuns).filter (matchesBench workload precision)
      = [] := List.filter_eq_nil_iff.mpr fun b hb => h b ((plan.benchmarks.mem_apply).mp hb)
  rw [indexSql, indexJoin, bestBench, hbench, Order.sort_nil, distinctOn, List.filterMap_nil,
    Shuffle.apply_nil, Order.sort_nil, List.take_nil, List.map_nil]

/-- The join on the database with one benchmark run and one price, when the run matches. -/
theorem indexJoin_tiny (gpu : Integer) {workload : Varchar 48} {precision : Varchar 16}
    {w : String} {p : Option String} {since : Instant} (hsince : since ≤ newYear)
    (hmatch : matchesBench w p (benchmark gpu workload precision)) :
    indexJoin .stored (tiny gpu available workload precision) w p since
      = [(benchmark gpu workload precision, pricePoint gpu available, h100 gpu, aws)] := by
  have hbench : bestBench .stored (tiny gpu available workload precision) w p
      = [benchmark gpu workload precision] := by
    rw [bestBench, tiny_benchmarkRuns, Shuffle.apply_singleton, List.filter_cons_of_pos hmatch]
    rfl
  have hprice : bestPrice .stored (tiny gpu available workload precision) since
      = [pricePoint gpu available] := by
    have hfilter : ([pricePoint gpu available].filter fun p =>
        since ≤ p.observedAt ∧ p.availability.val = "available") = [pricePoint gpu available] :=
      List.filter_cons_of_pos (decide_eq_true ⟨hsince, rfl⟩)
    rw [bestPrice, tiny_pricePoints, Shuffle.apply_singleton, hfilter]
    rfl
  have hfind : [pricePoint gpu available].find? (fun bp => bp.gpuModelId = gpu)
      = some (pricePoint gpu available) := List.find?_cons_of_pos (decide_eq_true rfl)
  have hpositive : (0 : ℚ) < (benchmark gpu workload precision).throughput.value := by
    norm_num [benchmark, Numeric.value]
  have hgpu : (tiny gpu available workload precision).gpuModel?
      (benchmark gpu workload precision).gpuModelId = some (h100 gpu) := tiny_gpuModel? ..
  have hprovider : (tiny gpu available workload precision).provider?
      (pricePoint gpu available).providerId = some aws := tiny_provider? ..
  rw [indexJoin, hbench, hprice]
  simp only [List.filterMap_cons, List.filterMap_nil, hgpu]
  rw [show (benchmark gpu workload precision).gpuModelId = gpu from rfl, hfind]
  simp only [Option.bind_eq_bind, Option.bind_some, hprovider, if_pos hpositive]

/-- Of the database with one benchmark run, the run is ranked if the request matches it. -/
theorem rankIndex_tiny (q : IndexQuery) (gpu : Integer) (workload : Varchar 48)
    (precision : Varchar 16) :
    (∃ r, rankIndex env .stored newYear (tiny gpu available workload precision) q = .ok [r])
      ↔ q.workload = workload.val ∧ ∀ p ∈ q.precision, p = precision.val := by
  obtain ⟨since, hminus, hsince⟩ :=
    minusDays_newYear (by decide : (1 : Int) ≤ 30 ∧ (30 : Int) ≤ 365)
  have hmatch : matchesBench q.workload q.precision (benchmark gpu workload precision) = true
      ↔ q.workload = workload.val ∧ ∀ p ∈ q.precision, p = precision.val := by
    rw [matchesBench, decide_eq_true_iff, Option.all_eq_true]
    exact and_congr eq_comm (forall₂_congr fun p _ => decide_eq_true_iff.trans eq_comm)
  constructor
  · rintro ⟨r, hr⟩
    by_cases hbound : NoNul q.workload ∧ ∀ p ∈ q.precision, NoNul p
    · rw [rankIndex_ok hminus hbound.1 hbound.2] at hr
      by_contra h
      have hno : ∀ b ∈ (tiny gpu available workload precision).benchmarkRuns,
          ¬ matchesBench q.workload q.precision b := by
        rintro b hb hb'
        rw [List.mem_singleton.mp hb] at hb'
        exact h (hmatch.mp hb')
      rw [indexSql_of_no_match hno] at hr
      cases hr
    · rw [rankIndex_nul hbound] at hr
      simp only [env, id, hminus, Except.bind] at hr
      cases hr
  · intro h
    have hprecision : ∀ p ∈ q.precision, NoNul p := fun p hp => h.2 p hp ▸ precision.noNul
    rw [rankIndex_ok hminus (h.1 ▸ workload.noNul) hprecision, indexSql,
      indexJoin_tiny gpu hsince (hmatch.mpr h)]
    obtain ⟨n, hn⟩ := Nat.exists_eq_add_of_le' q.limit_range.1
    rw [Shuffle.apply_singleton, Order.sort_singleton, hn, List.take_succ_cons, List.take_nil]
    exact ⟨_, rfl⟩

/-! ## Index: requests with one key -/

/-- Two requests of one limit and unlike workload or precision, one of which can match a benchmark
    run, whose fields join to one text. -/
structure IndexClash (q₁ q₂ : IndexQuery) : Prop where
  limit_eq : q₁.limit = q₂.limit
  differ : q₁.workload ≠ q₂.workload ∨ q₁.precision ≠ q₂.precision
  fits : q₁.Fits ∨ q₂.Fits
  joined : q₁.workload = q₂.workload ∧ precisionName q₁.precision = precisionName q₂.precision
    ∨ Shifted ':' q₁.workload.toList (precisionName q₁.precision).toList q₂.workload.toList
        (precisionName q₂.precision).toList
    ∨ Shifted ':' q₂.workload.toList (precisionName q₂.precision).toList q₁.workload.toList
        (precisionName q₁.precision).toList

theorem IndexClash.symm {q₁ q₂ : IndexQuery} (h : IndexClash q₁ q₂) : IndexClash q₂ q₁ where
  limit_eq := h.limit_eq.symm
  differ := h.differ.imp Ne.symm Ne.symm
  fits := h.fits.symm
  joined := by
    rcases h.joined with ⟨hworkload, hname⟩ | h | h
    · exact .inl ⟨hworkload.symm, hname.symm⟩
    · exact .inr (.inr h)
    · exact .inr (.inl h)

/-- Some precision other than a given text. -/
theorem exists_precision_ne (p : String) : ∃ precision : Varchar 16, precision.val ≠ p := by
  by_cases h : fp16.val = p
  · exact ⟨⟨"", by decide, by decide⟩, by rw [← h]; decide⟩
  · exact ⟨fp16, h⟩

/-- Some precision of a benchmark run tells two requests apart, when the first fits. -/
theorem exists_precision {q₁ q₂ : IndexQuery} (hfits : q₁.Fits)
    (hdiffer : q₁.workload ≠ q₂.workload ∨ q₁.precision ≠ q₂.precision) :
    ∃ precision : Varchar 16,
      ¬ ((q₁.workload = q₁.workload ∧ ∀ p ∈ q₁.precision, p = precision.val)
        ↔ (q₂.workload = q₁.workload ∧ ∀ p ∈ q₂.precision, p = precision.val)) := by
  obtain ⟨own, hown⟩ : ∃ own : Varchar 16, ∀ p ∈ q₁.precision, p = own.val := by
    cases hp : q₁.precision with
    | none => exact ⟨fp16, fun p h => nomatch h⟩
    | some p =>
      obtain ⟨hlength, hnul⟩ := hfits.precision p hp
      exact ⟨⟨p, hlength, hnul⟩, fun p' h => (Option.some.inj h).symm⟩
  by_cases hworkload : q₁.workload = q₂.workload
  · have hne := hdiffer.resolve_left (not_not.mpr hworkload)
    cases hp₂ : q₂.precision with
    | none =>
      -- the second request takes any precision, the first only its own
      obtain ⟨p, hp₁⟩ := Option.ne_none_iff_exists'.mp (hp₂ ▸ hne)
      obtain ⟨other, hother⟩ := exists_precision_ne p
      have hnone : ∀ p ∈ (none : Option String), p = other.val := fun _ h => nomatch h
      exact ⟨other, fun h => hother ((h.mpr ⟨hworkload.symm, hnone⟩).2 p hp₁).symm⟩
    | some p =>
      cases hp₁ : q₁.precision with
      | none =>
        obtain ⟨other, hother⟩ := exists_precision_ne p
        exact ⟨other, fun h => hother ((h.mp ⟨rfl, fun _ h => nomatch h⟩).2 p rfl).symm⟩
      | some p₁ =>
        refine ⟨own, fun h => hne ?_⟩
        rw [hp₁, hp₂, hown p₁ hp₁, (h.mp ⟨rfl, by simpa [hp₁] using hown p₁ hp₁⟩).2 p rfl]
  · exact ⟨own, fun h => hworkload (h.mp ⟨rfl, hown⟩).1.symm⟩

/-- A clash shows on some database. -/
theorem IndexClash.rankIndex_ne {q₁ q₂ : IndexQuery} (h : IndexClash q₁ q₂) :
    ∃ db, rankIndex env .stored newYear db q₁ ≠ rankIndex env .stored newYear db q₂ := by
  have hseparated {q₁ q₂ : IndexQuery} (hfits : q₁.Fits)
      (hdiffer : q₁.workload ≠ q₂.workload ∨ q₁.precision ≠ q₂.precision) :
      ∃ db, rankIndex env .stored newYear db q₁ ≠ rankIndex env .stored newYear db q₂ := by
    obtain ⟨precision, hprecision⟩ := exists_precision hfits hdiffer
    refine ⟨tiny ⟨1, by decide⟩ available ⟨q₁.workload, hfits.workload.1, hfits.workload.2⟩
      precision, fun heq => hprecision ?_⟩
    rw [← rankIndex_tiny q₁ ⟨1, by decide⟩ ⟨q₁.workload, hfits.workload.1, hfits.workload.2⟩,
      ← rankIndex_tiny q₂ ⟨1, by decide⟩ ⟨q₁.workload, hfits.workload.1, hfits.workload.2⟩, heq]
  rcases h.fits with hfits | hfits
  · exact hseparated hfits h.differ
  · obtain ⟨db, hdb⟩ := hseparated hfits h.symm.differ
    exact ⟨db, hdb.symm⟩

/-- No benchmark run matches a request that does not fit. -/
theorem IndexQuery.fits_of_match {q : IndexQuery} {b : BenchmarkRun}
    (h : matchesBench q.workload q.precision b) : q.Fits := by
  rw [matchesBench, decide_eq_true_iff, Option.all_eq_true] at h
  refine ⟨h.1 ▸ ⟨b.workload.length_le, b.workload.noNul⟩, fun p hp => ?_⟩
  have hval : b.precision.val = p := of_decide_eq_true (h.2 p hp)
  exact hval ▸ ⟨b.precision.length_le, b.precision.noNul⟩

/-- The key of a request has a NUL exactly when a parameter has. -/
theorem noNul_indexKey (q : IndexQuery) :
    NoNul (indexKey q) ↔ NoNul q.workload ∧ ∀ p ∈ q.precision, NoNul p := by
  have hlimit : '\x00' ∉ (toString q.limit).toList :=
    not_mem_toString rfl (by decide) (Int.ofNat q.limit)
  have hname : NoNul (precisionName q.precision) ↔ ∀ p ∈ q.precision, NoNul p := by
    cases q.precision with
    | none => exact iff_of_true (by decide) fun _ h => nomatch h
    | some p =>
      by_cases hp : p = ""
      · subst hp
        exact iff_of_true (by decide) fun p h => (Option.some.inj h) ▸ by decide
      · have hsome : truthy (some p) = some p := Option.filter_some_pos (by simpa using hp)
        rw [precisionName, hsome, Option.getD_some]
        exact ⟨fun h p' hp' => Option.some.inj hp' ▸ h, fun h => h p rfl⟩
  have hunder : '\x00' ∉ "index:".toList := by decide
  have hcolon : '\x00' ≠ ':' := by decide
  rw [← hname, NoNul, indexKey_toList]
  simp only [List.mem_append, List.mem_cons, hunder, hlimit, hcolon, false_or, or_false, not_or]
  exact Iff.rfl

/-- What a request that does not fit ranks is nothing, or an error if its key has a NUL. -/
theorem rankIndex_of_not_fits {env : Env} {plan : Plan} {now : Instant} {db : Database}
    {q : IndexQuery} (h : ¬ q.Fits) :
    rankIndex env plan now db q = (minusDays (env.clock now) 30).bind fun _ =>
      if NoNul (indexKey q) then .ok [] else .error (.db .dataError) := by
  by_cases hnul : NoNul (indexKey q)
  · obtain ⟨hworkload, hprecision⟩ := (noNul_indexKey q).mp hnul
    simp only [if_pos hnul]
    cases hminus : minusDays (env.clock now) 30 with
    | error e =>
      rw [rankIndex_eq, hminus]
      rfl
    | ok since =>
      rw [rankIndex_ok hminus hworkload hprecision,
        indexSql_of_no_match fun b _ hb => h (IndexQuery.fits_of_match hb)]
      rfl
  · simp only [if_neg hnul]
    exact rankIndex_nul fun h => hnul ((noNul_indexKey q).mpr h)

/-- **The index key is sound** but for a moved colon and the sentinel: one key means the same
    ranking on every database, at every instant, unless one of the two requests fits and they
    differ in their workload or precision. -/
theorem indexKey_sound (q₁ q₂ : IndexQuery) :
    (indexKey q₁ = indexKey q₂ → ∀ env plan now db,
        rankIndex env plan now db q₁ = rankIndex env plan now db q₂)
      ↔ ¬ IndexClash q₁ q₂ := by
  constructor
  · intro hsound hclash
    have hkey : indexKey q₁ = indexKey q₂ := by
      refine indexKey_inj.mpr ⟨hclash.limit_eq, joined_eq_iff.mpr ?_⟩
      simpa [String.toList_inj] using hclash.joined
    obtain ⟨db, hdb⟩ := hclash.rankIndex_ne
    exact hdb (hsound hkey env .stored newYear db)
  · intro hclash hkey env plan now db
    obtain ⟨hlimit, hjoined⟩ := indexKey_inj.mp hkey
    by_cases hfits : q₁.Fits ∨ q₂.Fits
    · have hsame : q₁.workload = q₂.workload ∧ q₁.precision = q₂.precision := by
        by_contra hdiffer
        refine hclash ⟨hlimit, not_and_or.mp hdiffer, hfits, ?_⟩
        simpa [String.toList_inj] using joined_eq_iff.mp hjoined
      rw [rankIndex_eq, rankIndex_eq, hsame.1, hsame.2, hlimit]
    · obtain ⟨h₁, h₂⟩ := not_or.mp hfits
      rw [rankIndex_of_not_fits h₁, rankIndex_of_not_fits h₂, hkey]

/-- The index of the fixture's workload. -/
def indexOf (precision : Option String) : IndexQuery :=
  ⟨"llm-inference-7b", precision, 50, by decide⟩

theorem indexKey_clash :
    indexKey (indexOf none) = indexKey (indexOf (some ""))
      ∧ rankIndex env .stored newYear tinyDb (indexOf none)
        ≠ rankIndex env .stored newYear tinyDb (indexOf (some "")) := by
  refine ⟨by decide, fun h => ?_⟩
  have hranked : ∃ r, rankIndex env .stored newYear tinyDb (indexOf none) = .ok [r] :=
    (rankIndex_tiny _ _ _ _).mpr ⟨rfl, fun _ h => nomatch h⟩
  rw [h] at hranked
  exact absurd (((rankIndex_tiny _ _ _ _).mp hranked).2 "" rfl) (by decide)

end GpuIndex
