/-
  Specifications of the cached routes and of ingest.

  `gpu_prices` and `workload_index` are one read through the cache each, with a producer that runs
  one query.  The specifications say how the read went (`ReadThrough`), what the producer selected
  (`Produced`), and what is on record of it.  `ingest` offers its payload to the price table.
-/
import GpuIndex.Api.CacheKeys
import GpuIndex.Api.Responses
import GpuIndex.Core.ReadThrough
import GpuIndex.Services.IngestRuns

namespace GpuIndex

open Calendar ExpiringStore
open JsonText (FloatVal Value loads)

/-! ## Producers -/

/-- The statements that select the rows of a producer. -/
def Statement.SelectsRows : Statement → Bool
  | .latestPrices _ _ _ _ => true
  | .index _ _ _ _ => true
  | _ => false

/-- The calls that select the rows of a producer. -/
def Op.SelectsRows : Op → Bool
  | .db stmt => stmt.SelectsRows
  | _ => false

/-- How often rows were selected. -/
def producerRuns (log : List Event) : Nat := log.countP fun e => e.op.SelectsRows

/-- A statement that failed is on record. -/
def Machine.DbFailed (m : Machine) : Prop := ∃ stmt e, ⟨.db stmt, .error e⟩ ∈ m.session.log

/-- The calls of a producer. -/
def ProducerCall (op : Op) : Prop := op = .now ∨ op.SelectsRows

/-- How a producer can end that selects by `select` and returns its rows as `json` says. -/
inductive Produced {ρ : Type} (select : Instant → Database → Plan → Except Exn (List ρ))
    (json : List ρ → Json) (m : Machine) : Except Exn Json → Machine → Prop where
  | rows {plan : Plan} {rows : List ρ} {m' : Machine}
      (selected : select m.world.now m.world.db plan = .ok rows)
      (tables : m.SameTables m') (redis : m'.world.redis = m.world.redis)
      (source : m'.session.source = some m.world.db) (log : m.Logs ProducerCall m')
      (runs : producerRuns m'.session.log = producerRuns m.session.log + 1) :
      Produced select json m (.ok (json rows)) m'
  | failed {e : DbError} {m' : Machine} (tables : m.SameTables m')
      (redis : m'.world.redis = m.world.redis) (failed : m'.DbFailed) :
      Produced select json m (.error (.db e)) m'
  | overflow {m' : Machine}
      (early : ∀ plan, select m.world.now m.world.db plan = .error .overflowError)
      (tables : m.SameTables m') (redis : m'.world.redis = m.world.redis) :
      Produced select json m (.error .overflowError) m'

/-- What `latest_prices` selects for a request. -/
def pricesSelected (env : Env) (q : PricesQuery) (now : Instant) (db : Database) (plan : Plan) :
    Except Exn (List LatestRow) := selectPrices env plan now db q

/-- What `compute_index` selects for a request. -/
def indexSelected (env : Env) (q : IndexQuery) (now : Instant) (db : Database) (plan : Plan) :
    Except Exn (List IndexRow) := rankIndex env plan now db q

section Produced

variable {ρ : Type} {select : Instant → Database → Plan → Except Exn (List ρ)}
  {json : List ρ → Json} {m : Machine} {stmt : Statement}

/-- The clock was read and the rows were selected. -/
theorem Produced.of_rows (plan : Plan) {rows : List ρ} (now : Instant)
    (hstmt : stmt.SelectsRows = true) (ans : Except DbError stmt.Result)
    (hselected : select m.world.now m.world.db plan = .ok rows) :
    Produced select json m (.ok (json rows)) ((m.record .now now).readRows.record (.db stmt) ans) :=
  .rows hselected ⟨rfl, rfl, rfl, rfl⟩ rfl rfl
    ⟨[⟨.db stmt, ans⟩, ⟨.now, now⟩], rfl, by
      intro e he
      rcases List.mem_cons.mp he with rfl | he
      · exact .inr hstmt
      · rw [List.mem_singleton.mp he]
        exact .inl rfl⟩
    (by
      show producerRuns (⟨.db stmt, ans⟩ :: ⟨.now, now⟩ :: m.session.log) = _
      simp [producerRuns, Op.SelectsRows, hstmt])

/-- The clock was read and the selection failed. -/
theorem Produced.of_error {e : DbError} (now : Instant) :
    Produced select json m (.error (.db e)) ((m.record .now now).record (.db stmt) (.error e)) :=
  .failed ⟨rfl, rfl, rfl, rfl⟩ rfl ⟨stmt, e, List.mem_cons_self⟩

end Produced

/-- **The producer of `gpu_prices`** selects the prices of the request. -/
theorem wp_producePrices {env : Env} {C : Choice → Prop} (q : PricesQuery) (m : Machine) :
    Svc.wp env C (producePrices q) (Produced (pricesSelected env q) latestJson m) m := by
  unfold producePrices latestPrices
  rw [bind_assoc, Svc.wp_bind, Svc.wp_call]
  intro c _
  simp only [exec, perform]
  cases hsince : minusDays (env.clock m.world.now) q.windowDays with
  | error e =>
    obtain rfl := minusDays_overflow hsince
    refine .overflow (fun plan => ?_) ⟨rfl, rfl, rfl, rfl⟩ rfl
    rw [pricesSelected, selectPrices_eq, hsince]
    rfl
  | ok since =>
    simp only [ofExcept, pure_bind]
    refine Svc.wp_query_bind (fun plan rows m' heval heffect => ?_) fun e => .of_error _
    cases heffect
    refine .of_rows plan _ rfl _ ?_
    rw [pricesSelected, selectPrices_eq, hsince]
    exact congrArg raised heval

/-- Where the server answers, the producer of `gpu_prices` returns what some plan selects. -/
theorem wp_producePrices_answers {env : Env} {C : Choice → Prop} (hC : ∀ c, C c → c.Answers)
    (q : PricesQuery) (m : Machine) : Svc.wp env C (producePrices q) (fun r _ => ∃ c, C c
      ∧ r = (selectPrices env c.plan m.world.now m.world.db q).map latestJson) m := by
  unfold producePrices latestPrices
  rw [bind_assoc, Svc.wp_bind, Svc.wp_call]
  intro c₀ hc₀
  simp only [exec, perform, selectPrices_eq]
  cases minusDays (env.clock m.world.now) q.windowDays with
  | error e => exact ⟨c₀, hc₀, rfl⟩
  | ok since =>
    simp only [ofExcept, pure_bind]
    rw [Svc.wp_bind, Svc.wp_query]
    intro c hc
    rw [Statement.exec_calm (hC c hc) rfl]
    simp only [Machine.record_world, Except.bind]
    cases heval : Statement.eval env c.plan m.world.db
      (.latestPrices q.gpuId since (truthy q.availability) 200) with
    | error e => exact ⟨c, hc, by rw [heval]; rfl⟩
    | ok rows => exact ⟨c, hc, by rw [heval]; rfl⟩

/-- **The producer of `workload_index`** selects the ranking of the request. -/
theorem wp_produceIndex {env : Env} {C : Choice → Prop} (q : IndexQuery) (m : Machine) :
    Svc.wp env C (produceIndex q) (Produced (indexSelected env q) indexJson m) m := by
  unfold produceIndex computeIndex
  rw [bind_assoc, Svc.wp_bind, Svc.wp_call]
  intro c _
  simp only [exec, perform]
  cases hsince : minusDays (env.clock m.world.now) 30 with
  | error e =>
    obtain rfl := minusDays_overflow hsince
    refine .overflow (fun plan => ?_) ⟨rfl, rfl, rfl, rfl⟩ rfl
    rw [indexSelected, rankIndex_eq, hsince]
    rfl
  | ok since =>
    simp only [ofExcept, pure_bind]
    refine Svc.wp_query_bind (fun plan rows m' heval heffect => ?_) fun e => .of_error _
    cases heffect
    refine .of_rows plan _ rfl _ ?_
    rw [indexSelected, rankIndex_eq, hsince]
    exact congrArg raised heval

/-! ## The routes -/

/-- How `_load_gpu` can end: with the GPU model of the id, or with the error of a request for a GPU
    that is not there or cannot be read. -/
inductive LoadedGpu (gpuId : Int) (m : Machine) : Except Exn GpuModel → Prop where
  | found {id : Integer} {gpu : GpuModel} (inRange : Integer.ofInt? gpuId = some id)
      (found : m.world.db.gpuModel? id = some gpu) : LoadedGpu gpuId m (.ok gpu)
  | missing {id : Integer} (inRange : Integer.ofInt? gpuId = some id)
      (missing : m.world.db.gpuModel? id = none) :
      LoadedGpu gpuId m (.error (.http 404 ("No GPU model " ++ toString gpuId ++ ".") []))
  | failed {e : DbError} : LoadedGpu gpuId m (.error (.db e))

/-- The machine after `_load_gpu`: nothing but a statement on record, one that failed if the request
    fails with a database error. -/
structure GpuRead (gpuId : Int) (r : Except Exn GpuModel) (m m' : Machine) : Prop where
  tables : m.SameTables m'
  redis : m'.world.redis = m.world.redis
  log : m.Logs (· = .db (.getGpuModel gpuId)) m'
  failed : ∀ e, r = .error (.db e) → m'.DbFailed

theorem wp_loadGpu {env : Env} {C : Choice → Prop} (gpuId : Int) (m : Machine) :
    Svc.wp env C (loadGpu gpuId)
      (fun r m' => LoadedGpu gpuId m r ∧ GpuRead gpuId r m m') m := by
  have hlog (ans : Except DbError (Option GpuModel)) :
      m.Logs (· = .db (.getGpuModel gpuId)) (m.record (.db (.getGpuModel gpuId)) ans) :=
    ⟨[⟨.db (.getGpuModel gpuId), ans⟩], rfl, fun e he => by rw [List.mem_singleton.mp he]⟩
  unfold loadGpu
  refine Svc.wp_query_bind (fun plan gpu m' heval heffect => ?_) (fun e => ?_)
  · cases heffect
    rw [Statement.eval] at heval
    cases hid : Integer.ofInt? gpuId with
    | none => rw [bindInteger, hid] at heval; cases heval
    | some id =>
      rw [bindInteger, hid] at heval
      have hgpu : m.world.db.gpuModel? id = gpu := Except.ok.inj heval
      cases gpu with
      | some gpu =>
        exact ⟨.found hid hgpu, ⟨rfl, rfl, rfl, rfl⟩, rfl, hlog _, fun _ h => by cases h⟩
      | none => exact ⟨.missing hid hgpu, ⟨rfl, rfl, rfl, rfl⟩, rfl, hlog _, fun _ h => by cases h⟩
  · exact ⟨.failed, ⟨rfl, rfl, rfl, rfl⟩, rfl, hlog _,
      fun _ _ => ⟨_, _, List.mem_cons_self⟩⟩

/-- What `_load_gpu` ends with, where the server answers. -/
def loadedGpu (db : Database) (gpuId : Int) : Except Exn GpuModel :=
  match Integer.ofInt? gpuId with
  | none => .error (.db .dataError)
  | some id =>
    match db.gpuModel? id with
    | some gpu => .ok gpu
    | none => .error (.http 404 ("No GPU model " ++ toString gpuId ++ ".") [])

theorem wp_loadGpu_answers {env : Env} {C : Choice → Prop} (hC : ∀ c, C c → c.Answers) (gpuId : Int)
    (m : Machine) : Svc.wp env C (loadGpu gpuId) (fun r m' => r = loadedGpu m.world.db gpuId
      ∧ m.SameTables m' ∧ m'.world.redis = m.world.redis) m := by
  unfold loadGpu loadedGpu
  rw [Svc.wp_bind, Svc.wp_query]
  intro c hc
  rw [Statement.exec_calm (hC c hc) rfl, Statement.eval, bindInteger]
  cases Integer.ofInt? gpuId with
  | none => exact ⟨rfl, ⟨rfl, rfl, rfl, rfl⟩, rfl⟩
  | some id =>
    simp only [ok_bind]
    cases hgpu : m.world.db.gpuModel? id with
    | some gpu => exact ⟨rfl, ⟨rfl, rfl, rfl, rfl⟩, rfl⟩
    | none => exact ⟨rfl, ⟨rfl, rfl, rfl, rfl⟩, rfl⟩

/-- A GPU that exists is found, where the server answers. -/
theorem wp_loadGpu_found {env : Env} {C : Choice → Prop} (hC : ∀ c, C c → c.Answers) {gpuId : Int}
    {id : Integer} {gpu : GpuModel} {m : Machine} (hid : Integer.ofInt? gpuId = some id)
    (hgpu : m.world.db.gpuModel? id = some gpu) :
    Svc.wp env C (loadGpu gpuId)
      (fun r m' => r = .ok gpu ∧ m.SameTables m' ∧ m'.world.redis = m.world.redis) m := by
  have hloaded : loadedGpu m.world.db gpuId = .ok gpu := by
    rw [loadedGpu, hid]
    simp only [hgpu]
  have hload := @wp_loadGpu_answers env C hC gpuId m
  rwa [hloaded] at hload

/-- A value that is already there, or an error. -/
theorem wp_ofExcept {α : Type} {env : Env} {C : Choice → Prop} {r : Except Exn α}
    {Q : Except Exn α → Machine → Prop} {m : Machine} (h : Q r m) :
    Svc.wp env C (ofExcept r) Q m := by
  cases r <;> exact h

/-- How a cached route can end: the read went some way, and its value was built into the answer. -/
def CachedRoute {ρ β : Type} (env : Env) (key : String)
    (select : Instant → Database → Plan → Except Exn (List ρ)) (json : List ρ → Json)
    (build : Json → Except Exn β) (m : Machine) (r : Except Exn β) (m' : Machine) : Prop :=
  ∃ read, ReadThrough env key env.settings.cacheTtlSeconds (Produced select json) m read m'
    ∧ r = read.bind fun v => build v.1

/-- A route that reads through the cache and builds its answer. -/
theorem wp_cachedRoute {ρ β : Type} {env : Env} {C : Choice → Prop} {key : String}
    {producer : Svc Json} {select : Instant → Database → Plan → Except Exn (List ρ)}
    {json : List ρ → Json} {build : Json → Except Exn β}
    (hproducer : ∀ m, Svc.wp env C producer (Produced select json m) m) (m : Machine) :
    Svc.wp env C (do
        let (rows, _hit) ← readThrough env key producer none
        ofExcept (build rows)) (CachedRoute env key select json build m) m := by
  refine Svc.wp_seq (wp_readThrough hproducer m) (fun v m' h => ?_) (fun e m' h => ⟨_, h, rfl⟩)
  exact wp_ofExcept ⟨_, h, rfl⟩

/-- **`workload_index`** -/
theorem wp_workloadIndex {env : Env} {C : Choice → Prop} (q : IndexQuery) (m : Machine) :
    Svc.wp env C (workloadIndex env q)
      (CachedRoute env (indexKey q) (indexSelected env q) indexJson (indexPage env) m) m :=
  wp_cachedRoute (wp_produceIndex q) m

/-- **`gpu_prices`** -/
theorem wp_gpuPrices {env : Env} {C : Choice → Prop} (q : PricesQuery) (m : Machine) :
    Svc.wp env C (gpuPrices env q) (fun r m' => ∃ loaded m₁, LoadedGpu q.gpuId m loaded
      ∧ GpuRead q.gpuId loaded m m₁ ∧ match loaded with
        | .ok gpu => CachedRoute env (pricesKey q) (pricesSelected env q) latestJson
            (priceSummary env gpu.modelName.val) m₁ r m'
        | .error e => r = .error e ∧ m' = m₁) m := by
  unfold gpuPrices
  refine Svc.wp_seq (wp_loadGpu q.gpuId m) (fun gpu m₁ h => ?_) (fun e m₁ h => ?_)
  · refine Svc.wp_mono (wp_cachedRoute (wp_producePrices q) m₁) fun r m' hr => ?_
    exact ⟨.ok gpu, m₁, h.1, h.2, hr⟩
  · exact ⟨.error e, m₁, h.1, h.2, rfl, rfl⟩

/-- How the read of `gpu_prices` can end where the server answers: with what the entry of the key
    makes of the answer, or with the summary of what some plan selects. -/
inductive PricesRead (env : Env) (C : Choice → Prop) (q : PricesQuery) (id : Integer)
    (since : Instant) (gpuModel : String) (m : Machine) : Except Exn PriceSummaryOut → Prop where
  | hit {e : Entry Cached} {value : Json}
      (entry : m.world.redis.peek m.world.now.us (pricesKey q) = some e)
      (decoded : loads env.fmt e.value.cell.show.toList = some value) :
      PricesRead env C q id since gpuModel m (priceSummary env gpuModel value)
  | fresh {c : Choice} (answers : C c) : PricesRead env C q id since gpuModel m
      (.ok (summaryOf gpuModel (latestPricesSql env.collation env.fmt c.plan m.world.db id since
        (truthy q.availability) 200)))

theorem wp_pricesRead {env : Env} {C : Choice → Prop} (hC : ∀ c, C c → c.Answers) {q : PricesQuery}
    {id : Integer} {since : Instant} {m : Machine} (hid : Integer.ofInt? q.gpuId = some id)
    (hsince : minusDays (env.clock m.world.now) q.windowDays = .ok since)
    (hfilter : ∀ a ∈ truthy q.availability, NoNul a) (gpuModel : String) :
    Svc.wp env C (do
        let (rows, _hit) ← readThrough env (pricesKey q) (producePrices q) none
        ofExcept (priceSummary env gpuModel rows))
      (fun r _ => PricesRead env C q id since gpuModel m r) m := by
  have hread := @wp_readThrough env C (pricesKey q) (producePrices q) none
    (fun m₁ r _ => ∃ c, C c
      ∧ r = (selectPrices env c.plan m₁.world.now m₁.world.db q).map latestJson)
    (wp_producePrices_answers hC q) m
  have hselected (plan : Plan) := @selectPrices_ok env plan m.world.now m.world.db q _ _ hid hsince
    hfilter
  refine Svc.wp_seq hread (fun read m' h => wp_ofExcept ?_) (fun e m' h => ?_)
  · cases h with
    | hit entry decoded _ => exact .hit entry decoded
    | fresh miss produced _ =>
      obtain ⟨c, hc, hvalue⟩ := produced
      rw [miss.tables.now, miss.tables.db, hselected] at hvalue
      obtain rfl := Except.ok.inj hvalue
      rw [priceSummary_latestJson]
      exact .fresh hc
  · cases h with
    | raised miss produced =>
      obtain ⟨c, -, hvalue⟩ := produced
      rw [miss.tables.now, miss.tables.db, hselected] at hvalue
      cases hvalue

/-- The handler ingests its payload, or it raises and changes nothing. -/
theorem wp_ingest {env : Env} {C : Choice → Prop} {payload : List PricePointIn} {m : Machine}
    (hpending : m.session.pending = []) :
    Svc.wp env C (ingest payload) (fun r m' => match r with
      | .ok _ => Offered env m.world.db payload m'.world.db
      | .error _ => m'.world.db = m.world.db) m := by
  unfold ingest
  dsimp only
  split
  · rfl
  · refine Svc.wp_seq (wp_ingestPrices env payload hpending) (fun result m₁ h₁ => ?_)
      (fun e m₁ h₁ => h₁)
    refine Svc.wp_seq (wp_invalidatePrefix env _ _) (fun n m₂ h₂ => ?_)
      (fun e m₂ ⟨h, _⟩ => nomatch h)
    refine Svc.wp_seq (wp_invalidatePrefix env _ _) (fun n' m₃ h₃ => ?_)
      (fun e m₃ ⟨h, _⟩ => nomatch h)
    rw [Svc.wp_pure, (h₂.2.1.trans h₃.2.1).db]
    exact h₁.offered

/-! ## Requests -/

/-- The request carries one of the configured keys. -/
def ValidKey (env : Env) (req : Request) : Prop :=
  ∃ key ∈ env.settings.apiKeySet, req.apiKey = some key

/-- No configured key is blank. -/
theorem ne_empty_of_mem_apiKeySet {settings : Settings} {key : String}
    (h : key ∈ settings.apiKeySet) : key ≠ "" := by
  rintro rfl
  obtain ⟨s, hs, hempty⟩ := List.mem_map.mp h
  have hne : s ≠ [] := by simpa using (List.mem_filter.mp hs).2
  have htext := congrArg String.toList hempty
  rw [String.toList_ofList] at htext
  exact hne htext

theorem requireApiKey_eq {settings : Settings} {key : String} (h : key ∈ settings.apiKeySet) :
    requireApiKey settings (some key) = pure ⟨key⟩ := by
  have hno : ¬ (key = "" ∨ key ∉ settings.apiKeySet) := fun hor =>
    hor.elim (ne_empty_of_mem_apiKeySet h) (· h)
  rw [requireApiKey]
  exact if_neg hno

/-- A key that is not configured is turned away. -/
theorem requireApiKey_invalid {env : Env} {req : Request} (h : ¬ ValidKey env req) :
    requireApiKey env.settings req.apiKey
      = throw (.http 401 "Missing or invalid API key." []) := by
  cases hreq : req.apiKey with
  | none => rfl
  | some key =>
    have hno : key = "" ∨ key ∉ env.settings.apiKeySet :=
      .inr fun hkey => h ⟨key, hkey, hreq⟩
    rw [requireApiKey]
    exact if_pos hno

/-- How a request can end whose handler ends as `Q` says. -/
inductive Served (env : Env) (req : Request) (m : Machine)
    (Q : Machine → Except Exn Response → Machine → Prop) :
    Except Exn Response → Machine → Prop where
  | unauthorized (invalid : ¬ ValidKey env req) :
      Served env req m Q (.error (.http 401 "Missing or invalid API key." [])) m
  | refused {key : String} {ex count : Int} {m' : Machine} (tables : m.SameTables m')
      (counted : ⟨.redis (.incrExpire key ex), .ok count⟩ ∈ m'.session.log)
      (exceeded : env.settings.rateLimitRequests < count) :
      Served env req m Q (.error (tooManyRequests env.settings)) m'
  | noWindow {m' : Machine} (tables : m.SameTables m')
      (zero : env.settings.rateLimitWindowSeconds = 0) :
      Served env req m Q (.error .zeroDivisionError) m'
  | admitted {m₁ m' : Machine} {r : Except Exn Response} (tables : m.SameTables m₁)
      (cache : m.SameCache m₁) (log : m.Logs LimiterCall m₁) (handled : Q m₁ r m') :
      Served env req m Q r m'

/-- **A request** is turned away for its key or by the limiter, or it is handled. -/
theorem wp_serveRequest {env : Env} {C : Choice → Prop} {req : Request} {m : Machine}
    {Q : Machine → Except Exn Response → Machine → Prop}
    (hhandle : ∀ m₁, m.SameTables m₁ → m.SameCache m₁ → m.Logs LimiterCall m₁ →
      Svc.wp env C (handle env req.route) (Q m₁) m₁) :
    Svc.wp env C (serveRequest env req) (Served env req m Q) m := by
  unfold serveRequest
  by_cases hvalid : ValidKey env req
  · obtain ⟨key, hkey, hreq⟩ := hvalid
    rw [hreq, requireApiKey_eq hkey, pure_bind]
    refine Svc.wp_seq (wp_rateLimit env ⟨key⟩ m) (fun _ m₁ h => ?_) (fun e m₁ h => ?_)
    · obtain ⟨-, htables, hcache, hlog⟩ := h
      exact Svc.wp_mono (hhandle m₁ htables hcache hlog) fun r m' hr =>
        .admitted htables hcache hlog hr
    · cases h.1 with
      | refused counted exceeded => exact .refused h.2.1 counted exceeded
      | noWindow zero => exact .noWindow h.2.1 zero
  · rw [requireApiKey_invalid hvalid]
    exact .unauthorized hvalid

/-- The ways a request alone can end, for a handler that ends as `Q` says. -/
theorem served_of_handle (env : Env) (req : Request) (w : World) (choices : Nat → Choice)
    {Q : Machine → Except Exn Response → Machine → Prop}
    (hhandle : ∀ m₁, (⟨w, {}⟩ : Machine).SameTables m₁ → (⟨w, {}⟩ : Machine).SameCache m₁ →
      (⟨w, {}⟩ : Machine).Logs LimiterCall m₁ →
      Svc.wp env (fun _ => True) (handle env req.route) (Q m₁) m₁) :
    Served env req ⟨w, {}⟩ Q (served env choices req w).1 (served env choices req w).2 :=
  runSvc_of_wp choices (fun _ => trivial) (wp_serveRequest hhandle)

/-- **An ingest request**: it ingests its payload, or it raises and changes nothing. -/
theorem wp_serve_ingest (env : Env) {C : Choice → Prop} (apiKey : Option String)
    (payload : List PricePointIn) {m : Machine} (hpending : m.session.pending = []) :
    Svc.wp env C (serveRequest env ⟨apiKey, .ingest payload⟩) (fun r m' => match r with
      | .ok _ => Offered env m.world.db payload m'.world.db
      | .error _ => m'.world.db = m.world.db) m := by
  refine Svc.wp_seq (wp_sameTables (only_requireApiKey _ _ _) m) (fun principal m₁ h₁ => ?_)
    (fun e m₁ h₁ => h₁.db)
  refine Svc.wp_seq (wp_rateLimit env principal m₁) (fun _ m₂ h₂ => ?_)
    (fun e m₂ h₂ => (h₁.trans h₂.2.1).db)
  have hsame := h₁.trans h₂.2.1
  rw [← hsame.db]
  exact Svc.wp_seq (wp_ingest (hsame.pending.trans hpending)) (fun _ _ h₃ => h₃) (fun _ _ h₃ => h₃)

end GpuIndex
