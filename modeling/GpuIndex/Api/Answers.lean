/-
  What reads through the cache answer with.

  The cache holds only texts of rows the service has selected (`CacheWritten`), so a read answers
  with the rows of the stored entry or with the rows of one selection (`RowsAnswered`), and a failed
  `GET` leaves only the second.
-/
import GpuIndex.Api.CacheContents

namespace GpuIndex

open Calendar ExpiringStore
open JsonText (loads)

/-! ## What the service writes to the cache -/

/-- An entry under one of the two prefixes is the text of rows. -/
structure WrittenEntry (env : Env) (key : String) (e : Entry Cached) : Prop where
  prices : hasPrefix "prices:" key = true → ∃ rows : List LatestRow,
    (∀ r ∈ rows, r.OfFormat env.fmt) ∧ e.value.cell = .text (dumpsText env (latestJson rows))
  index : hasPrefix "index:" key = true → ∃ rows : List IndexRow,
    (∀ r ∈ rows, r.HasRatio ∧ r.OfFormat env.fmt)
      ∧ e.value.cell = .text (dumpsText env (indexJson rows))

/-- Every cache entry is one the service could have written. -/
def CacheWritten (env : Env) (w : World) : Prop := w.CacheHolds (WrittenEntry env)

theorem writtenEntry_counter (env : Env) (key : String) (e : Entry Cached)
    (h : hasPrefix "rl:" key = true) : WrittenEntry env key e := by
  have hhead := hasPrefix_head (c := 'r') h rfl
  refine ⟨fun hp => ?_, fun hi => ?_⟩
  · rw [hasPrefix_head (c := 'p') hp rfl] at hhead
    cases hhead
  · rw [hasPrefix_head (c := 'i') hi rfl] at hhead
    cases hhead

theorem writtenEntry_prices {env : Env} {q : PricesQuery} {e : Entry Cached}
    {rows : List LatestRow} (hrows : ∀ r ∈ rows, r.OfFormat env.fmt)
    (he : e.value.cell = .text (dumpsText env (latestJson rows))) :
    WrittenEntry env (pricesKey q) e where
  prices _ := ⟨rows, hrows, he⟩
  index h := by
    have hhead := hasPrefix_head (c := 'p') (hasPrefix_pricesKey q) rfl
    rw [hasPrefix_head (c := 'i') h rfl] at hhead
    cases hhead

theorem writtenEntry_index {env : Env} {q : IndexQuery} {e : Entry Cached} {rows : List IndexRow}
    (hrows : ∀ r ∈ rows, r.HasRatio ∧ r.OfFormat env.fmt)
    (he : e.value.cell = .text (dumpsText env (indexJson rows))) :
    WrittenEntry env (indexKey q) e where
  index _ := ⟨rows, hrows, he⟩
  prices h := by
    have hhead := hasPrefix_head (c := 'i') (hasPrefix_indexKey q) rfl
    rw [hasPrefix_head (c := 'p') h rfl] at hhead
    cases hhead

/-- The rows a request of `gpu_prices` selects have doubles of the format. -/
theorem ofFormat_pricesSelected {env : Env} {q : PricesQuery} {now : Instant} {db : Database}
    {plan : Plan} {rows : List LatestRow} (h : pricesSelected env q now db plan = .ok rows) :
    ∀ r ∈ rows, r.OfFormat env.fmt := by
  obtain ⟨gpu, since, availability, limit, rfl⟩ := selectPrices_sql h
  exact fun r hr => ofFormat_latestPricesSql hr

/-- The rows a request of `workload_index` selects have their ratios and doubles of the format. -/
theorem ofFormat_indexSelected {env : Env} {q : IndexQuery} {now : Instant} {db : Database}
    {plan : Plan} {rows : List IndexRow} (h : indexSelected env q now db plan = .ok rows) :
    ∀ r ∈ rows, r.HasRatio ∧ r.OfFormat env.fmt := by
  obtain ⟨workload, precision, since, limit, rfl⟩ := rankIndex_sql h
  exact fun r hr => mem_indexSql hr

theorem stores_writtenEntry (env : Env) (w : World) (route : Route) :
    route.Stores env w (WrittenEntry env) where
  prices _ _ _ _ _ h := writtenEntry_prices (ofFormat_pricesSelected h) rfl
  index _ _ _ _ _ h := writtenEntry_index (ofFormat_indexSelected h) rfl

theorem cacheWritten_empty (env : Env) {w : World} (h : w.redis = ExpiringStore.empty) :
    CacheWritten env w := by
  intro key e he
  rw [h] at he
  cases he

/-- **The cache** holds only what the service writes, however its requests fare. -/
theorem cacheWritten_serve {env : Env} {w : World} (h : CacheWritten env w) (choices : Nat → Choice)
    (req : Request) : CacheWritten env (serve env choices req w).2 :=
  runSvc_of_wp choices (C := fun _ => True) (fun _ => trivial)
    (wp_serveRequest_holds (m := ⟨w, {}⟩) (writtenEntry_counter env)
      (stores_writtenEntry env w req.route) h)

/-! ## What is on record -/

/-- Calls that select no rows do not count. -/
theorem producerRuns_of_logs {A : Op → Prop} {m m' : Machine} (h : m.Logs A m')
    (hA : ∀ op, A op → op.SelectsRows = false) :
    producerRuns m'.session.log = producerRuns m.session.log := by
  obtain ⟨events, hlog, hall⟩ := h
  have hzero : producerRuns events = 0 := by
    rw [producerRuns, List.countP_eq_zero]
    intro e he
    rw [hA e.op (hall e he)]
    decide
  rw [hlog]
  exact List.countP_append.trans (by rw [← producerRuns, hzero, Nat.zero_add]; rfl)

theorem not_selectsRows_limiter (op : Op) (h : LimiterCall op) : op.SelectsRows = false := by
  rcases h with rfl | ⟨_, _, -, rfl⟩ <;> rfl

theorem not_selectsRows_lookup (key : String) (op : Op) (h : LookupCall key op) :
    op.SelectsRows = false := by
  rcases h with rfl | ⟨_, rfl⟩ <;> rfl

theorem not_selectsRows_fill (key : String) (op : Op) (h : FillCall key op) :
    op.SelectsRows = false := by
  rcases h with ⟨_, _, rfl⟩ | ⟨_, rfl⟩ <;> rfl

/-- No `GET` of the key is on record yet. -/
def Machine.NotAsked (m : Machine) (key : String) : Prop :=
  ∀ e ∈ m.session.log, e.op ≠ .redis (.get key)

theorem Machine.NotAsked.of_logs {A : Op → Prop} {m m' : Machine} {key : String}
    (h : m.NotAsked key) (hlog : m.Logs A m') (hA : ∀ op, A op → op ≠ .redis (.get key)) :
    m'.NotAsked key := by
  intro e he hop
  refine h e (hlog.mem_of_not he fun hmem => hA e.op hmem hop) hop

/-! ## Reads -/

/-- What a request answers with: the rows of the stored entry, whose `GET` did not fail, or the rows
    of one selection. -/
inductive RowsAnswered {ρ : Type} (env : Env) (key : String)
    (select : Instant → Database → Plan → Except Exn (List ρ)) (stored : List ρ → Json) (w : World)
    (log : List Event) (rows : List ρ) : Prop where
  | stored {e : Entry Cached} (entry : w.redis.peek w.now.us key = some e)
      (decoded : loads env.fmt e.value.cell.show.toList = some (stored rows))
      (got : ∀ err, ⟨.redis (.get key), .error err⟩ ∉ log) (runs : producerRuns log = 0)
  | fresh {plan : Plan} (selected : select w.now w.db plan = .ok rows) (runs : producerRuns log = 1)

/-- A cached route whose statements succeed answers with rows. -/
theorem CachedRoute.answered {ρ β : Type} {env : Env} {key : String}
    {select : Instant → Database → Plan → Except Exn (List ρ)} {json stored : List ρ → Json}
    {build : Json → Except Exn β} {answer : List ρ → β} {m m' : Machine} {r : Except Exn β}
    (h : CachedRoute env key select json build m r m') (hdb : ¬ m'.DbFailed)
    (hearly : ∃ plan, select m.world.now m.world.db plan ≠ .error .overflowError)
    (hstored : ∀ e, m.world.redis.peek m.world.now.us key = some e → ∃ rows,
      loads env.fmt e.value.cell.show.toList = some (stored rows)
        ∧ build (stored rows) = .ok (answer rows))
    (hfresh : ∀ plan rows, select m.world.now m.world.db plan = .ok rows →
      build (json rows) = .ok (answer rows))
    (hasked : m.NotAsked key) (hruns : producerRuns m.session.log = 0) :
    ∃ rows, RowsAnswered env key select stored m.world m'.session.log rows
      ∧ r = .ok (answer rows) := by
  obtain ⟨read, hread, rfl⟩ := h
  cases hread with
  | @hit e value m' entry decoded done =>
    obtain ⟨rows, hloads, hbuild⟩ := hstored e entry
    rw [decoded] at hloads
    obtain rfl := Option.some.inj hloads
    refine ⟨rows, .stored entry decoded (fun err hmem => ?_) ?_, hbuild⟩
    -- the only `GET` of the key on record is the one that found the entry
    · rw [done.log] at hmem
      rcases List.mem_cons.mp hmem with h | hmem
      · cases h
      rcases List.mem_cons.mp hmem with h | hmem
      · cases h
      · exact hasked _ hmem rfl
    · rw [done.log]
      exact hruns
  -- the producer raises only for a statement that fails, or a window that begins too early
  | raised miss produced =>
    cases produced with
    | failed _ _ failed => exact absurd failed hdb
    | overflow early tables _ =>
      obtain ⟨plan, hplan⟩ := hearly
      rw [miss.tables.now, miss.tables.db] at early
      exact absurd (early plan) hplan
  | fresh miss produced fill =>
    cases produced with
    | rows selected tables _ _ log runs =>
      rw [miss.tables.now, miss.tables.db] at selected
      refine ⟨_, .fresh selected ?_, hfresh _ _ selected⟩
      rw [producerRuns_of_logs fill.log (not_selectsRows_fill key), runs,
        producerRuns_of_logs miss.log (not_selectsRows_lookup key), hruns]

/-- A process whose clock is past its first year and whose cache texts validate. -/
structure Env.Sound (env : Env) (w : World) : Prop where
  /-- pydantic reads the text `str` writes of a date-time. -/
  parse : ∀ i, env.parseDatetime (strDatetime (utc i)) = some (utc i)
  /-- `now - timedelta(days=365)` is a date. -/
  clock : 365 * dayMicros ≤ (env.clock w.now).us

theorem sound_worldOf (db : Database) : env.Sound (worldOf db) where
  parse := parseDatetime_strDatetime
  clock := (by decide : 365 * dayMicros ≤ newYear.us)

theorem minusDays_ok {now : Instant} {days : Int} (hnow : 365 * dayMicros ≤ now.us)
    (hdays : 1 ≤ days ∧ days ≤ 365) : ∃ since, minusDays now days = .ok since := by
  have hmax := now.lt_max
  have hday : dayMicros = 86400000000 := rfl
  have hrange : 0 ≤ (now.us : Int) - days * dayMicros
      ∧ (now.us : Int) - days * dayMicros < maxMicros := by
    rw [hday] at hnow ⊢
    omega
  exact ⟨_, dif_pos hrange⟩

theorem bind_raised_ne_overflow {α : Type} {since : Instant} {f : Instant → Except DbError α} :
    ((Except.ok since : Except Exn Instant).bind fun s => raised (f s))
      ≠ .error .overflowError := by
  intro h
  cases hf : f since with
  | error e => rw [Except.bind, hf] at h; cases h
  | ok a => rw [Except.bind, hf] at h; cases h

section Reads

variable {env : Env} {C : Choice → Prop} {m m' : Machine}

/-- A machine on which a route can answer: the process is sound, the cache holds what the service
    writes, and the request has neither asked for the key nor selected rows yet. -/
structure Machine.Ready (env : Env) (key : String) (m : Machine) : Prop where
  sound : env.Sound m.world
  cache : CacheWritten env m.world
  asked : m.NotAsked key
  runs : producerRuns m.session.log = 0

theorem Machine.Ready.of_logs {key : String} {A : Op → Prop} (h : m.Ready env key)
    (htables : m.SameTables m') (hcache : CacheWritten env m'.world) (hlog : m.Logs A m')
    (hA : ∀ op, A op → op ≠ .redis (.get key) ∧ op.SelectsRows = false) : m'.Ready env key where
  sound := ⟨h.sound.parse, by rw [htables.now]; exact h.sound.clock⟩
  cache := hcache
  asked := h.asked.of_logs hlog fun op hop => (hA op hop).1
  runs := by rw [producerRuns_of_logs hlog fun op hop => (hA op hop).2, h.runs]

/-- The stored dictionaries of rows. -/
def storedLatest (rows : List LatestRow) : Json := .arr (rows.map (LatestRow.dict strLeaf))

theorem priceSummary_storedLatest {w : World} (h : env.Sound w) (gpuModel : String)
    (rows : List LatestRow) :
    priceSummary env gpuModel (storedLatest rows) = .ok (summaryOf gpuModel rows) :=
  priceSummary_dict strLeaf (fun i => datetimeField_strLeaf (h.parse i)) gpuModel rows

/-- **`gpu_prices`**, once the GPU is loaded. -/
theorem pricesRoute_answered {q : PricesQuery} {gpuModel : String} {r : Except Exn PriceSummaryOut}
    (hm : m.Ready env (pricesKey q))
    (h : CachedRoute env (pricesKey q) (pricesSelected env q) latestJson (priceSummary env gpuModel)
      m r m')
    (hdb : ¬ m'.DbFailed) :
    ∃ rows, RowsAnswered env (pricesKey q) (pricesSelected env q) storedLatest m.world
        m'.session.log rows ∧ r = .ok (summaryOf gpuModel rows) := by
  refine h.answered hdb ⟨.stored, ?_⟩ (fun e he => ?_) (fun plan rows _ => ?_) hm.asked hm.runs
  · obtain ⟨since, hsince⟩ := minusDays_ok hm.sound.clock q.windowDays_range
    rw [pricesSelected, selectPrices_eq, hsince]
    exact bind_raised_ne_overflow
  · obtain ⟨rows, hrows, hcell⟩ := (hm.cache _ e he).prices (hasPrefix_pricesKey q)
    refine ⟨rows, ?_, priceSummary_storedLatest hm.sound gpuModel rows⟩
    rw [hcell]
    exact loads_latestJson hrows
  · exact priceSummary_latestJson gpuModel rows

/-- **`workload_index`** -/
theorem indexRoute_answered {q : IndexQuery} {r : Except Exn (Page IndexEntryOut)}
    (hm : m.Ready env (indexKey q))
    (h : CachedRoute env (indexKey q) (indexSelected env q) indexJson (indexPage env) m r m')
    (hdb : ¬ m'.DbFailed) :
    ∃ rows, RowsAnswered env (indexKey q) (indexSelected env q) indexJson m.world
        m'.session.log rows ∧ r = .ok (pageOf rows) := by
  refine h.answered hdb ⟨.stored, ?_⟩ (fun e he => ?_) (fun plan rows h => ?_) hm.asked hm.runs
  · obtain ⟨since, hsince⟩ :=
      minusDays_ok hm.sound.clock (by decide : (1 : Int) ≤ 30 ∧ (30 : Int) ≤ 365)
    rw [indexSelected, rankIndex_eq, hsince]
    exact bind_raised_ne_overflow
  · obtain ⟨rows, hrows, hcell⟩ := (hm.cache _ e he).index (hasPrefix_indexKey q)
    refine ⟨rows, ?_, indexPage_indexJson fun r hr => (hrows r hr).1⟩
    rw [hcell]
    exact loads_indexJson fun r hr => (hrows r hr).2
  · exact indexPage_indexJson fun r hr => (ofFormat_indexSelected h r hr).1

/-- **`gpu_prices`** of a GPU that is there, whatever Redis does. -/
theorem wp_gpuPrices_answered {q : PricesQuery} {id : Integer} {gpu : GpuModel}
    (hm : m.Ready env (pricesKey q)) (hid : Integer.ofInt? q.gpuId = some id)
    (hgpu : m.world.db.gpuModel? id = some gpu) :
    Svc.wp env C (gpuPrices env q) (fun r m' => ¬ m'.DbFailed → ∃ rows,
      RowsAnswered env (pricesKey q) (pricesSelected env q) storedLatest m.world m'.session.log rows
        ∧ r = .ok (summaryOf gpu.modelName.val rows)) m := by
  refine Svc.wp_mono (wp_gpuPrices q m) ?_
  rintro r m' ⟨loaded, m₁, hloaded, hread, h⟩ hdb
  cases hloaded with
  | missing inRange missing =>
    rw [hid] at inRange
    cases inRange
    rw [hgpu] at missing
    cases missing
  | failed =>
    rw [h.2] at hdb
    exact absurd (hread.failed _ rfl) hdb
  | found inRange found =>
    rw [hid] at inRange
    cases inRange
    rw [hgpu] at found
    cases found
    have hm₁ : m₁.Ready env (pricesKey q) :=
      hm.of_logs hread.tables (hm.cache.of_sameRedis hread.redis hread.tables.now) hread.log
        (by rintro op rfl; exact ⟨(fun h => nomatch h), rfl⟩)
    obtain ⟨rows, hrows, hr⟩ := pricesRoute_answered hm₁ h hdb
    refine ⟨rows, ?_, hr⟩
    cases hrows with
    | stored entry decoded got runs =>
      rw [hread.redis, hread.tables.now] at entry
      exact .stored entry decoded got runs
    | fresh selected runs =>
      rw [hread.tables.now, hread.tables.db] at selected
      exact .fresh selected runs

end Reads

end GpuIndex
