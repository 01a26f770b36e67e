/-
  What `GET /v1/gpus` and `GET /v1/gpus/{gpu_id}/benchmarks` answer with.

  Both listings order and cut the rows that pass their filters.  SPECIFICATION: names are unique, so
  the GPUs are the catalogue in the order of its names, filtered and cut (**`list_gpus_exact`**),
  whatever the plan; runs of one time tie, so the benchmarks are any way to take the latest ones
  (**`benchmarks_exact`**), and every such way is one that some plan takes.

  The crux is `OrderBy.TopRows.exists_shuffle`: an engine that meets the chosen rows first answers
  with them.
-/
import GpuIndex.Api.RouteSpecs
import GpuIndex.Lib.Selection

namespace GpuIndex

open OrderBy

/-! ## Requests of one query -/

section Run

variable {α : Type} {env : Env} {m : Machine} {p : Svc α} {a : α}

/-- What a run may return is what every run satisfies. -/
theorem exists_run_of_wp {Q : α → Prop}
    (hwp : Svc.wp env (fun _ => True) p (fun r _ => ∀ b, r = .ok b → Q b) m)
    (h : ∃ choices, (runSvc env choices p m).1 = .ok a) : Q a := by
  obtain ⟨choices, hrun⟩ := h
  exact runSvc_of_wp choices (fun _ => trivial) hwp a hrun

/-- A run in which the outside always decides alike. -/
theorem exists_run_of_choice (c : Choice) (hwp : Svc.wp env (· = c) p (fun r _ => r = .ok a) m) :
    ∃ choices, (runSvc env choices p m).1 = .ok a :=
  ⟨fun _ => c, runSvc_of_wp (C := (· = c)) (Q := fun r _ => r = .ok a) (fun _ => c)
    (fun _ => rfl) hwp⟩

end Run

/-- A server that answers by a plan. -/
def Choice.byPlan (plan : Plan) : Choice := { Choice.calm with plan := plan }

/-- A query by a plan. -/
theorem wp_query_byPlan {α : Type} {env : Env} {plan : Plan} {m : Machine} {stmt : Statement}
    {rows : stmt.Result} {f : stmt.Result → Svc α} {Q : Except Exn α → Machine → Prop}
    (heffect : stmt.effect env m = .ok m) (heval : stmt.eval env plan m.world.db = .ok rows)
    (hf : ∀ m', Svc.wp env (· = Choice.byPlan plan) (f rows) Q m') :
    Svc.wp env (· = Choice.byPlan plan) (query stmt >>= f) Q m := by
  rw [Svc.wp_bind, Svc.wp_query]
  rintro c rfl
  have hplan : (Choice.byPlan plan).plan = plan := rfl
  rw [Statement.exec_calm rfl heffect, hplan, heval]
  exact hf _

/-! ## The GPUs -/

/-- The GPU passes the filters of the request. -/
def ListGpusQuery.Wants (q : ListGpusQuery) (g : GpuModel) : Bool :=
  (truthy q.vendor).all (fun v => g.vendor.val = v)
    && q.minVramGb.all fun n => (n : Int) ≤ g.vramGb.val

/-- The parameters are ones the server takes. -/
def ListGpusQuery.Bindable (q : ListGpusQuery) : Prop :=
  (∀ vendor ∈ truthy q.vendor, NoNul vendor) ∧ ∀ n ∈ q.minVramGb, n < 2147483648

/-- `ORDER BY gpu_models.model_name` -/
def nameOrder (collation : Collation) : Order GpuModel := collation.on fun g => g.modelName.val

/-- The catalogue in the order of its names. -/
def catalogueByName (collation : Collation) (db : Database) : List GpuModel :=
  (nameOrder collation).sort db.gpuModels

/-- The page of some GPUs. -/
def gpuPage (gpus : List GpuModel) : Response :=
  ⟨200, .gpus { items := gpus.map GpuModelOut.ofModel, count := gpus.length }, []⟩

/-- Two rows of one name are one row. -/
theorem nameOrder_antisymm (collation : Collation) {db : Database} {a b : GpuModel}
    (ha : a ∈ db.gpuModels) (hb : b ∈ db.gpuModels) (hab : (nameOrder collation).le a b)
    (hba : (nameOrder collation).le b a) : a = b := by
  have hname : a.modelName = b.modelName := Varchar.val_injective (collation.antisymm _ _ hab hba)
  exact List.inj_on_of_nodup_map db.constraints.gpu_models_model_name_key ha hb hname

/-- **Rows of a listing**: the catalogue, filtered and cut, under any plan. -/
theorem take_sort_gpus (collation : Collation) (plan : Plan) (db : Database) (P : GpuModel → Bool)
    (limit : Nat) :
    ((nameOrder collation).sort ((plan.gpuModels.apply db.gpuModels).filter P)).take limit
      = ((catalogueByName collation db).filter P).take limit := by
  congr 1
  refine List.Perm.eq_of_pairwise (fun a b ha hb => ?_) (Order.pairwise_sort _ _)
    ((Order.pairwise_sort _ _).filter P) ?_
  · have ha := List.mem_of_mem_filter ((Order.mem_sort _).mp ha)
    have hb := (Order.mem_sort _).mp (List.mem_of_mem_filter hb)
    exact nameOrder_antisymm collation ((Shuffle.mem_apply _).mp ha) hb
  · exact (Order.perm_sort _ _).trans (((plan.gpuModels.perm _).trans
      (Order.perm_sort _ _).symm).filter P)

/-- A lower bound on the memory is bound if it fits. -/
theorem bindOption_bindInteger {minVramGb : Option Nat} {bound : Option Integer} :
    bindOption bindInteger (minVramGb.map Int.ofNat) = .ok bound
      ↔ bound.map Integer.val = minVramGb.map Int.ofNat := by
  cases minVramGb with
  | none =>
    cases bound with
    | none => exact ⟨fun _ => rfl, fun _ => rfl⟩
    | some i => exact ⟨fun h => (by cases h), fun h => (by cases h)⟩
  | some n =>
    rw [Option.map_some, bindOption]
    constructor
    · intro h
      cases hn : bindInteger (Int.ofNat n) with
      | error e => rw [hn] at h; cases h
      | ok i =>
        rw [hn] at h
        cases h
        rw [Option.map_some, bindInteger_ok hn]
    · intro h
      obtain ⟨i, rfl, hi⟩ := Option.map_eq_some_iff.mp h
      rw [← hi, bindInteger, Integer.ofInt?_val]
      rfl

/-- Some lower bound is bound exactly if it is small enough. -/
theorem exists_bound_iff {minVramGb : Option Nat} :
    (∃ bound : Option Integer, bound.map Integer.val = minVramGb.map Int.ofNat)
      ↔ ∀ n ∈ minVramGb, n < 2147483648 := by
  cases minVramGb with
  | none => exact ⟨fun _ _ h => (by cases h), fun _ => ⟨none, rfl⟩⟩
  | some n =>
    constructor
    · rintro ⟨bound, h⟩ _ hn
      obtain rfl := Option.some.inj hn
      obtain ⟨i, -, hi⟩ := Option.map_eq_some_iff.mp h
      have hrange := i.range
      rw [hi] at hrange
      exact Int.ofNat_lt.mp hrange.2
    · intro h
      have hn : n < 2147483648 := h n rfl
      exact ⟨some ⟨Int.ofNat n, by rw [Int.ofNat_eq_natCast]; omega⟩, rfl⟩

/-- The filters as they are bound. -/
theorem ListGpusQuery.wants_eq {q : ListGpusQuery} {bound : Option Integer}
    (hbound : bound.map Integer.val = q.minVramGb.map Int.ofNat) (g : GpuModel) :
    q.Wants g = decide ((truthy q.vendor).all (fun v => g.vendor.val = v)
      ∧ bound.all fun n => n ≤ g.vramGb) := by
  have hmin : (q.minVramGb.all fun n => decide ((n : Int) ≤ g.vramGb.val))
      = bound.all fun n => decide (n ≤ g.vramGb) := by
    cases hq : q.minVramGb with
    | none =>
      rw [hq] at hbound
      rw [Option.map_eq_none_iff.mp hbound]
      rfl
    | some n =>
      rw [hq] at hbound
      obtain ⟨i, rfl, hi⟩ := Option.map_eq_some_iff.mp hbound
      exact decide_eq_decide.mpr (by rw [show (n : Int) = i.val from hi.symm]; exact Iff.rfl)
  rw [Wants, hmin, Bool.decide_and, Bool.decide_coe, Bool.decide_coe]

/-- The rows of a request, as its parameters are bound. -/
theorem eval_listGpus (env : Env) (plan : Plan) (db : Database) (q : ListGpusQuery)
    (rows : List GpuModel) :
    (Statement.listGpus (truthy q.vendor) (q.minVramGb.map Int.ofNat) q.limit).eval env plan db
        = .ok rows
      ↔ q.Bindable
        ∧ rows = ((catalogueByName env.collation db).filter q.Wants).take q.limit := by
  have hrows : ∀ bound : Option Integer, bound.map Integer.val = q.minVramGb.map Int.ofNat →
      listGpusSql env.collation plan db (truthy q.vendor) bound q.limit
        = ((catalogueByName env.collation db).filter q.Wants).take q.limit := by
    intro bound hbound
    rw [funext fun g => q.wants_eq hbound g]
    exact take_sort_gpus env.collation plan db _ q.limit
  rw [Statement.eval, bindLimit_of_le q.limit_range.2, ListGpusQuery.Bindable, ← exists_bound_iff]
  by_cases hvendor : ∀ vendor ∈ truthy q.vendor, NoNul vendor
  · rw [bindOption_bindText hvendor, and_iff_right hvendor]
    cases hmin : bindOption bindInteger (q.minVramGb.map Int.ofNat) with
    | ok bound =>
      have hbound := bindOption_bindInteger.mp hmin
      rw [← hrows bound hbound]
      exact ⟨fun h => ⟨⟨bound, hbound⟩, (Except.ok.inj h).symm⟩,
        fun h => congrArg Except.ok h.2.symm⟩
    | error e =>
      constructor
      · intro h
        cases h
      · rintro ⟨⟨bound, hbound⟩, -⟩
        cases hmin.symm.trans (bindOption_bindInteger.mpr hbound)
  · rw [bindOption_bindText_nul hvendor]
    exact ⟨fun h => (by cases h), fun h => absurd h.1.1 hvendor⟩

/-- **The GPUs**: a request is answered exactly if its parameters can be bound, and always with the
    catalogue in the order of its names, filtered and cut. -/
theorem list_gpus_exact (env : Env) (q : ListGpusQuery) (m : Machine) (r : Response) :
    (∃ choices, (runSvc env choices (handle env (.listGpus q)) m).1 = .ok r)
      ↔ q.Bindable
        ∧ r = gpuPage
          (((catalogueByName env.collation m.world.db).filter q.Wants).take q.limit) := by
  constructor
  · refine exists_run_of_wp (Q := fun r => q.Bindable
      ∧ r = gpuPage (((catalogueByName env.collation m.world.db).filter q.Wants).take q.limit)) ?_
    rw [handle, listGpus, bind_assoc]
    refine Svc.wp_query_bind (fun plan rows m' heval _ => ?_) fun e r h => by cases h
    obtain ⟨hbind, rfl⟩ := (eval_listGpus env plan m.world.db q rows).mp heval
    intro r h
    cases h
    exact ⟨hbind, rfl⟩
  · rintro ⟨hbind, rfl⟩
    refine exists_run_of_choice (.byPlan .stored) ?_
    rw [handle, listGpus, bind_assoc]
    exact wp_query_byPlan rfl ((eval_listGpus env _ m.world.db q _).mpr ⟨hbind, rfl⟩) fun _ => rfl

/-! ## The benchmarks -/

/-- The run is of the GPU and passes the filters of the request. -/
def BenchmarksQuery.Wants (q : BenchmarksQuery) (id : Integer) (b : BenchmarkRun) : Bool :=
  b.gpuModelId = id ∧ ((truthy q.workload).all fun w => b.workload.val = w)
    ∧ (truthy q.precision).all fun p => b.precision.val = p

/-- The parameters are ones the server takes. -/
def BenchmarksQuery.Bindable (q : BenchmarksQuery) : Prop :=
  (∀ workload ∈ truthy q.workload, NoNul workload)
    ∧ ∀ precision ∈ truthy q.precision, NoNul precision

/-- `ORDER BY benchmark_runs.run_at DESC` -/
def latestRunFirst : Order BenchmarkRun := Order.desc fun b => b.runAt

/-- The page of some benchmarks. -/
def benchmarkPage (env : Env) (runs : List BenchmarkRun) : Response :=
  ⟨200, .benchmarks { items := runs.map (BenchmarkOut.ofRun env.fmt), count := runs.length }, []⟩

/-- The rows of a request, as its parameters are bound. -/
theorem eval_benchmarks (env : Env) (plan : Plan) (db : Database) (q : BenchmarksQuery)
    {id : Integer} (hid : Integer.ofInt? q.gpuId = some id) (rows : List BenchmarkRun) :
    (Statement.benchmarks q.gpuId (truthy q.workload) (truthy q.precision) q.limit).eval env plan db
        = .ok rows
      ↔ q.Bindable ∧ rows = (latestRunFirst.sort
          ((plan.benchmarks.apply db.benchmarkRuns).filter (q.Wants id))).take q.limit := by
  rw [Statement.eval, bindInteger, hid, bindLimit_of_le q.limit_range.2, BenchmarksQuery.Bindable]
  by_cases hworkload : ∀ workload ∈ truthy q.workload, NoNul workload
  · rw [bindOption_bindText hworkload, and_iff_right hworkload]
    by_cases hprecision : ∀ precision ∈ truthy q.precision, NoNul precision
    · rw [bindOption_bindText hprecision, and_iff_right hprecision]
      exact ⟨fun h => (Except.ok.inj h).symm, fun h => congrArg Except.ok h.symm⟩
    · rw [bindOption_bindText_nul hprecision]
      exact ⟨fun h => (by cases h), fun h => absurd h.1 hprecision⟩
  · rw [bindOption_bindText_nul hworkload]
    exact ⟨fun h => (by cases h), fun h => absurd h.1.1 hworkload⟩

/-- **The benchmarks**: a request is answered exactly if its GPU is there and its parameters can be
    bound, and the answers it may get are the ways to take the latest of the runs it wants. -/
theorem benchmarks_exact (env : Env) (q : BenchmarksQuery) (m : Machine) (r : Response) :
    (∃ choices, (runSvc env choices (handle env (.gpuBenchmarks q)) m).1 = .ok r)
      ↔ q.Bindable ∧ ∃ id gpu top, Integer.ofInt? q.gpuId = some id
        ∧ m.world.db.gpuModel? id = some gpu
        ∧ TopRows latestRunFirst q.limit (m.world.db.benchmarkRuns.filter (q.Wants id)) top
        ∧ r = benchmarkPage env top := by
  constructor
  · refine exists_run_of_wp (Q := fun r => q.Bindable ∧ ∃ id gpu top,
      Integer.ofInt? q.gpuId = some id ∧ m.world.db.gpuModel? id = some gpu
        ∧ TopRows latestRunFirst q.limit (m.world.db.benchmarkRuns.filter (q.Wants id)) top
        ∧ r = benchmarkPage env top) ?_
    rw [handle, gpuBenchmarks, bind_assoc]
    refine Svc.wp_seq (wp_loadGpu q.gpuId m) (fun gpu m' hload => ?_) fun e _ _ r h => by cases h
    obtain ⟨hloaded, htables, -⟩ := hload
    cases hloaded with
    | @found id _ hid hgpu =>
      rw [bind_assoc]
      refine Svc.wp_query_bind (fun plan rows _ heval _ => ?_) fun e r h => by cases h
      obtain ⟨hbind, rfl⟩ := (eval_benchmarks env plan m'.world.db q hid rows).mp heval
      intro r h
      cases h
      rw [htables.db]
      exact ⟨hbind, id, gpu, _, hid, hgpu,
        topRows_take latestRunFirst q.limit ((plan.benchmarks.perm _).filter (q.Wants id)), rfl⟩
  · rintro ⟨hbind, id, gpu, top, hid, hgpu, htop, rfl⟩
    obtain ⟨f, hf⟩ := htop.exists_shuffle
    obtain ⟨plan, rfl⟩ : ∃ plan : Plan, plan.benchmarks = f :=
      ⟨{ Plan.stored with benchmarks := f }, rfl⟩
    have hanswers : ∀ c, c = Choice.byPlan plan → c.Answers := by
      rintro c rfl
      rfl
    refine exists_run_of_choice (.byPlan plan) ?_
    rw [handle, gpuBenchmarks, bind_assoc]
    refine Svc.wp_seq (wp_loadGpu_found hanswers hid hgpu) (fun _ m' hload => ?_)
      fun e m' h => by cases h.1
    obtain ⟨-, htables, -⟩ := hload
    have heval := (eval_benchmarks env plan m'.world.db q hid top).mpr
      ⟨hbind, by rw [htables.db]; exact hf.symm⟩
    rw [bind_assoc]
    exact wp_query_byPlan rfl heval fun _ => rfl

end GpuIndex
