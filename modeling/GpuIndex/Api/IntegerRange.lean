/-
  The integers of a read request, and the columns they are compared with.

  `gpu_id` is unbounded and `min_vram_gb` is only bounded below, but both are bound against an
  `INTEGER`.  Where the server answers and the other parameters are ones it takes, an integer that
  fits gives 200, or the 404 of a GPU that is not there, and any other an error that nothing catches
  (`wp_handle_status`).  So the routes answer as they should exactly for the integers that fit
  (**`integers_handled_iff`**).
-/
import GpuIndex.Api.Answers
import GpuIndex.Api.HistoryCursors

namespace GpuIndex

open JsonText (loads)

/-! ## Requests -/

/-- A read route whose parameters are ones the server takes, whatever its integers are. -/
def Route.OtherwiseWellFormed (env : Env) : Route → Prop
  | .listGpus q => ∀ vendor ∈ truthy q.vendor, NoNul vendor
  | .gpuPrices q => ∀ availability ∈ truthy q.availability, NoNul availability
  | .gpuPriceHistory q => ∀ cursor ∈ truthy q.cursor, UsableCursor env cursor
  | .gpuBenchmarks q => (∀ workload ∈ truthy q.workload, NoNul workload)
      ∧ ∀ precision ∈ truthy q.precision, NoNul precision
  | .workloadIndex _ => False
  | .ingest _ => False

/-- The id of the GPU that a request is about. -/
def Route.gpuId : Route → Option Int
  | .gpuPrices q => some q.gpuId
  | .gpuPriceHistory q => some q.gpuId
  | .gpuBenchmarks q => some q.gpuId
  | _ => none

/-- The integer of a request that is bound against an `INTEGER` column. -/
def Route.integer : Route → Option Int
  | .listGpus q => q.minVramGb.map Int.ofNat
  | route => route.gpuId

/-- The request is about a GPU that no row has the id of. -/
def Route.NoGpu (db : Database) (route : Route) : Prop :=
  ∃ id ∈ route.gpuId, ∀ g ∈ db.gpuModels, g.id.val ≠ id

/-- A response of 200 or 404, the latter exactly if the GPU is not there. -/
structure ReadAnswered (db : Database) (route : Route) (r : Response) : Prop where
  status : r.status = 200 ∨ r.status = 404
  missing : r.status = 404 ↔ route.NoGpu db

/-! ## Fitting a column -/

theorem ofInt?_isSome_iff {n : Int} :
    (Integer.ofInt? n).isSome ↔ -2147483648 ≤ n ∧ n < 2147483648 := by
  unfold Integer.ofInt?
  split
  · rename_i h
    exact iff_of_true rfl h
  · rename_i h
    exact iff_of_false (by decide) h

theorem gpuModel?_eq_none {db : Database} {gpuId : Int} {id : Integer}
    (hid : Integer.ofInt? gpuId = some id) :
    db.gpuModel? id = none ↔ ∀ g ∈ db.gpuModels, g.id.val ≠ gpuId := by
  rw [← Integer.ofInt?_eq_some hid, Database.gpuModel?, List.find?_eq_none]
  refine forall₂_congr fun g _ => not_congr ?_
  rw [decide_eq_true_iff, Integer.val_injective.eq_iff]

/-! ## The routes -/

section Routes

variable {α : Type} {env : Env} {m : Machine}

/-- How a request about a GPU ends. -/
inductive GpuAnswer (db : Database) (gpuId : Int) : Except Exn α → Prop where
  | found {id : Integer} {gpu : GpuModel} (inRange : Integer.ofInt? gpuId = some id)
      (found : db.gpuModel? id = some gpu) (a : α) : GpuAnswer db gpuId (.ok a)
  | missing {id : Integer} (inRange : Integer.ofInt? gpuId = some id)
      (missing : db.gpuModel? id = none) :
      GpuAnswer db gpuId (.error (.http 404 ("No GPU model " ++ toString gpuId ++ ".") []))
  | outOfRange (outside : Integer.ofInt? gpuId = none) :
      GpuAnswer db gpuId (.error (.db .dataError))

/-- A route that answers once its GPU is loaded. -/
theorem wp_gpuRoute {f : GpuModel → Svc α} {gpuId : Int}
    (hf : ∀ id gpu m₁, Integer.ofInt? gpuId = some id → m.SameTables m₁ →
      m₁.world.redis = m.world.redis →
      Svc.wp env Choice.Answers (f gpu) (fun r _ => ∃ a, r = .ok a) m₁) :
    Svc.wp env Choice.Answers (loadGpu gpuId >>= f)
      (fun r _ => GpuAnswer m.world.db gpuId r) m := by
  have hload := @wp_loadGpu_answers env _ (fun _ h => h) gpuId m
  unfold loadedGpu at hload
  cases hid : Integer.ofInt? gpuId with
  | none =>
    rw [hid] at hload
    refine Svc.wp_seq hload (fun _ _ h => nomatch h.1) (fun e m₁ h => ?_)
    obtain rfl := Except.error.inj h.1
    exact .outOfRange hid
  | some id =>
    rw [hid] at hload
    cases hgpu : m.world.db.gpuModel? id with
    | none =>
      simp only [hgpu] at hload
      refine Svc.wp_seq hload (fun _ _ h => nomatch h.1) (fun e m₁ h => ?_)
      obtain rfl := Except.error.inj h.1
      exact .missing hid hgpu
    | some gpu =>
      simp only [hgpu] at hload
      refine Svc.wp_seq hload (fun found m₁ h => ?_) (fun _ _ h => nomatch h.1)
      refine Svc.wp_mono (hf id found m₁ hid h.2.1 h.2.2) fun r _ hr => ?_
      obtain ⟨a, rfl⟩ := hr
      exact .found hid hgpu a

/-- A statement that is evaluated, on a server that answers. -/
theorem wp_query_value {stmt : Statement} {f : stmt.Result → Svc α}
    (heffect : stmt.effect env m = .ok m)
    (heval : ∀ plan, ∃ r, stmt.eval env plan m.world.db = .ok r)
    (hf : ∀ r m', Svc.wp env Choice.Answers (f r) (fun r _ => ∃ a, r = .ok a) m') :
    Svc.wp env Choice.Answers (query stmt >>= f) (fun r _ => ∃ a, r = .ok a) m := by
  refine Svc.wp_query_answers (fun plan r m' _ _ => hf r _) (fun plan e h => ?_)
    (fun plan r e _ h => ?_)
  · obtain ⟨r, hr⟩ := heval plan
    cases hr.symm.trans h
  · cases heffect.symm.trans h

/-- **`gpu_benchmarks`** -/
theorem wp_gpuBenchmarks_answers {q : BenchmarksQuery}
    (hworkload : ∀ workload ∈ truthy q.workload, NoNul workload)
    (hprecision : ∀ precision ∈ truthy q.precision, NoNul precision) :
    Svc.wp env Choice.Answers (gpuBenchmarks env q)
    (fun r _ => GpuAnswer m.world.db q.gpuId r) m := by
  refine wp_gpuRoute fun id gpu m₁ hid _ _ => wp_query_value rfl (fun plan => ?_) fun rows m₂ => ?_
  · rw [Statement.eval, bindInteger, hid, bindOption_bindText hworkload,
      bindOption_bindText hprecision, bindLimit_of_le q.limit_range.2]
    exact ⟨_, rfl⟩
  · exact ⟨_, rfl⟩

/-- **`gpu_price_history`** -/
theorem wp_gpuPriceHistory_answers {q : HistoryQuery}
    (hcursor : ∀ cursor ∈ truthy q.cursor, UsableCursor env cursor) :
    Svc.wp env Choice.Answers (gpuPriceHistory env q)
      (fun r _ => GpuAnswer m.world.db q.gpuId r) m := by
  refine wp_gpuRoute fun id gpu m₁ hid _ _ => ?_
  refine Svc.wp_seq (wp_pricePage_answers hid q.limit_range.2 q.cursor) (fun page m₂ _ => ⟨_, rfl⟩)
    (fun e m₂ h => ?_)
  cases h with
  | unhandled given unusable _ => exact absurd (hcursor _ given) unusable

/-- **`gpu_prices`** -/
theorem wp_gpuPrices_answers {q : PricesQuery} (hsound : env.Sound m.world)
    (hcache : CacheWritten env m.world)
    (hfilter : ∀ availability ∈ truthy q.availability, NoNul availability) :
    Svc.wp env Choice.Answers (gpuPrices env q) (fun r _ => GpuAnswer m.world.db q.gpuId r) m := by
  refine wp_gpuRoute fun id gpu m₁ hid htables hredis => ?_
  obtain ⟨since, hsince⟩ := minusDays_ok hsound.clock q.windowDays_range
  rw [← htables.now] at hsince
  refine Svc.wp_mono (wp_pricesRead (fun _ h => h) hid hsince hfilter gpu.modelName.val)
    fun r m₂ h => ?_
  cases h with
  | fresh answers => exact ⟨_, rfl⟩
  | hit entry decoded =>
    -- the entry is the text of rows
    rw [hredis, htables.now] at entry
    obtain ⟨rows, hrows, hcell⟩ := (hcache _ _ entry).prices (hasPrefix_pricesKey q)
    rw [hcell] at decoded
    obtain rfl := Option.some.inj ((loads_latestJson hrows).symm.trans decoded)
    exact ⟨_, priceSummary_storedLatest hsound gpu.modelName.val rows⟩

/-- How a list of GPUs ends. -/
inductive ListAnswer (minVramGb : Option Int) : Except Exn α → Prop where
  | listed (fits : ∀ n ∈ minVramGb, (Integer.ofInt? n).isSome) (a : α) :
      ListAnswer minVramGb (.ok a)
  | refused {n : Int} (given : minVramGb = some n) (outside : Integer.ofInt? n = none) :
      ListAnswer minVramGb (.error (.db .dataError))

/-- **`list_gpus`** -/
theorem wp_listGpus_answers {q : ListGpusQuery}
    (hvendor : ∀ vendor ∈ truthy q.vendor, NoNul vendor) :
    Svc.wp env Choice.Answers (listGpus q)
      (fun r _ => ListAnswer (q.minVramGb.map Int.ofNat) r) m := by
  have heval (plan : Plan) (minVramGb : Option Int) :
      (Statement.listGpus (truthy q.vendor) minVramGb q.limit).eval env plan m.world.db
        = (bindOption bindInteger minVramGb).map fun minVramGb =>
            listGpusSql env.collation plan m.world.db (truthy q.vendor) minVramGb q.limit := by
    rw [Statement.eval, bindOption_bindText hvendor, bindLimit_of_le q.limit_range.2]
    cases bindOption bindInteger minVramGb <;> rfl
  unfold listGpus
  generalize q.minVramGb.map Int.ofNat = minVramGb
  rw [Svc.wp_bind, Svc.wp_query]
  intro c hc
  rw [Statement.exec_calm hc rfl, heval]
  cases minVramGb with
  | none => exact .listed (fun n hn => absurd hn (Option.not_mem_none n)) _
  | some n =>
    rw [bindOption, bindInteger]
    cases hn : Integer.ofInt? n with
    | none => exact .refused rfl hn
    | some i =>
      refine .listed (fun k hk => ?_) _
      rw [← Option.mem_some.mp hk, hn]
      rfl

end Routes

/-! ## The responses -/

/-- The integer of the request fits its column. -/
def Route.Fits (route : Route) : Prop := ∀ n ∈ route.integer, -2147483648 ≤ n ∧ n < 2147483648

/-- How a read request ends. -/
inductive ReadEnd (db : Database) (route : Route) : Except Exn Response → Prop where
  | answered {r : Response} (fits : route.Fits) (there : ¬ route.NoGpu db)
      (status : r.status = 200) : ReadEnd db route (.ok r)
  | missing {detail : String} (fits : route.Fits) (missing : route.NoGpu db) :
      ReadEnd db route (.error (.http 404 detail []))
  | refused (outside : ¬ route.Fits) : ReadEnd db route (.error (.db .dataError))

section Ends

variable {α : Type} {env : Env} {m : Machine} {db : Database} {route : Route}

theorem not_fits {n : Int} (hn : route.integer = some n) (h : Integer.ofInt? n = none) :
    ¬ route.Fits := fun hfits => by
  have hsome := ofInt?_isSome_iff.mpr (hfits n hn)
  rw [h] at hsome
  cases hsome

/-- The end of a request about a GPU. -/
theorem GpuAnswer.readEnd {gpuId : Int} {r : Except Exn α} {respondWith : α → Response}
    (h : GpuAnswer db gpuId r) (hid : route.gpuId = some gpuId)
    (hinteger : route.integer = some gpuId) (hstatus : ∀ a, (respondWith a).status = 200) :
    ReadEnd db route (r.map respondWith) := by
  have hfits {id : Integer} (inRange : Integer.ofInt? gpuId = some id) : route.Fits := by
    intro n hn
    obtain rfl := Option.some.inj (hinteger.symm.trans hn)
    exact ofInt?_isSome_iff.mp (by rw [inRange]; rfl)
  cases h with
  | @found id gpu inRange found a =>
    refine .answered (hfits inRange) ?_ (hstatus a)
    rintro ⟨n, hn, hno⟩
    obtain rfl := Option.some.inj (hid.symm.trans hn)
    rw [(gpuModel?_eq_none inRange).mpr hno] at found
    cases found
  | missing inRange missing =>
    exact .missing (hfits inRange) ⟨gpuId, hid, (gpuModel?_eq_none inRange).mp missing⟩
  | outOfRange outside => exact .refused (not_fits hinteger outside)

/-- The end of a request for the list of GPUs. -/
theorem ListAnswer.readEnd {minVramGb : Option Int} {r : Except Exn α} {respondWith : α → Response}
    (h : ListAnswer minVramGb r) (hid : route.gpuId = none) (hinteger : route.integer = minVramGb)
    (hstatus : ∀ a, (respondWith a).status = 200) : ReadEnd db route (r.map respondWith) := by
  subst hinteger
  cases h with
  | listed fits a =>
    refine .answered (fun n hn => ofInt?_isSome_iff.mp (fits n hn)) ?_ (hstatus a)
    rintro ⟨n, hn, -⟩
    cases hid.symm.trans hn
  | refused given outside => exact .refused (not_fits given outside)

/-- What a handler makes of the result of its route. -/
theorem wp_respondWith {p : Svc α} {respondWith : α → Response} {Q : Except Exn α → Prop}
    {R : Except Exn Response → Prop} (hp : Svc.wp env Choice.Answers p (fun r _ => Q r) m)
    (hR : ∀ r, Q r → R (r.map respondWith)) :
    Svc.wp env Choice.Answers (do return respondWith (← p)) (fun r _ => R r) m :=
  Svc.wp_seq hp (fun a _ h => hR (.ok a) h) (fun e _ h => hR (.error e) h)

/-- **A read request** that is well formed but for its integers. -/
theorem wp_handle_readEnd (hsound : env.Sound m.world) (hcache : CacheWritten env m.world)
    (hroute : route.OtherwiseWellFormed env) :
    Svc.wp env Choice.Answers (handle env route) (fun r _ => ReadEnd m.world.db route r) m := by
  cases route with
  | listGpus q =>
    exact wp_respondWith (wp_listGpus_answers hroute) fun _ h => h.readEnd rfl rfl fun _ => rfl
  | gpuPrices q =>
    exact wp_respondWith (wp_gpuPrices_answers hsound hcache hroute) fun _ h =>
      h.readEnd rfl rfl fun _ => rfl
  | gpuPriceHistory q =>
    exact wp_respondWith (wp_gpuPriceHistory_answers hroute) fun _ h =>
      h.readEnd rfl rfl fun _ => rfl
  | gpuBenchmarks q =>
    exact wp_respondWith (wp_gpuBenchmarks_answers hroute.1 hroute.2) fun _ h =>
      h.readEnd rfl rfl fun _ => rfl
  | workloadIndex q => exact hroute.elim
  | ingest payload => exact hroute.elim

/-- The response is as it should be exactly if the integer fits. -/
theorem ReadEnd.readAnswered_iff {r : Except Exn Response} (h : ReadEnd db route r) :
    ReadAnswered db route (respond r) ↔ route.Fits := by
  cases h with
  | @answered r fits there status =>
    refine iff_of_true ⟨.inl status, iff_of_false (fun hmissing => ?_) there⟩ fits
    exact absurd (status.symm.trans hmissing) (by decide)
  | missing fits missing => exact iff_of_true ⟨.inr rfl, iff_of_true rfl missing⟩ fits
  | refused outside =>
    refine iff_of_false (fun hanswered => ?_) outside
    rcases hanswered.status with hstatus | hstatus
    · exact absurd hstatus (by decide)
    · exact absurd hstatus (by decide)

end Ends

/-- **Which integers are handled**: where the server answers, a read request with otherwise
    well-formed parameters is answered with 200, or with 404 exactly if no row has the id, if and
    only if its `gpu_id`, or its `min_vram_gb`, fits an `INTEGER`. -/
theorem integers_handled_iff (env : Env) (choices : Nat → Choice)
    (hanswers : ∀ n, (choices n).Answers) (m : Machine) (hsound : env.Sound m.world)
    (hcache : CacheWritten env m.world) (route : Route) (hroute : route.OtherwiseWellFormed env) :
    ReadAnswered m.world.db route (respond (runSvc env choices (handle env route) m).1)
      ↔ ∀ n ∈ route.integer, -2147483648 ≤ n ∧ n < 2147483648 :=
  (runSvc_of_wp choices hanswers
    (wp_handle_readEnd hsound hcache hroute)).readAnswered_iff

/-- The prices of a GPU, asked of the smallest table. -/
def pricesOfGpu (gpuId : Int) : Route := .gpuPrices ⟨gpuId, none, 30, thirtyDays_range⟩

/-- What is answered. -/
def answerOfGpu (gpuId : Int) : Response :=
  respond (runSvc env (fun _ => .calm) (handle env (pricesOfGpu gpuId)) ⟨worldOf tinyDb, {}⟩).1

theorem integers_handled_iff_tiny :
    ReadAnswered tinyDb (pricesOfGpu 1) (answerOfGpu 1)
      ↔ ∀ n ∈ (pricesOfGpu 1).integer, -2147483648 ≤ n ∧ n < 2147483648 :=
  integers_handled_iff env _ (fun _ => Choice.answers_calm) ⟨worldOf tinyDb, {}⟩
    (sound_worldOf tinyDb) (cacheWritten_empty env rfl) (pricesOfGpu 1) nofun

/-- No row has the id, but the answer is not 404. -/
theorem integer_escapes :
    (answerOfGpu 2147483648).status = 500 ∧ (pricesOfGpu 2147483648).NoGpu tinyDb
      ∧ ¬ ReadAnswered tinyDb (pricesOfGpu 2147483648) (answerOfGpu 2147483648) := by
  have hstatus : (answerOfGpu 2147483648).status = 500 := by with_unfolding_all rfl
  refine ⟨hstatus, ⟨2147483648, rfl, by decide⟩, fun h => ?_⟩
  rcases h.status with hanswer | hanswer
  · exact absurd (hstatus.symm.trans hanswer) (by decide)
  · exact absurd (hstatus.symm.trans hanswer) (by decide)

end GpuIndex
