/-
  The calls each handler makes.

  Every handler queries.  The cached ones also read the clock and use their key of the cache; an
  ingest also writes, commits and drops keys.  What holds of these calls holds of the handler's
  (`only_handle_of`).
-/
import GpuIndex.Api.CacheContents

namespace GpuIndex

/-- The calls of a read through the cache. -/
def CacheCall (op : Op) : Prop :=
  op = .now ∨ (∃ stat, op = .bump stat) ∨ (∃ key, op = .redis (.get key))
    ∨ ∃ key value ex, op = .redis (.set key value ex)

/-- The calls of an ingest. -/
def WriteCall (op : Op) : Prop := StatementCall op ∨ InvalidationCall op

variable {A : Op → Prop}

/-- A read of the tables. -/
theorem queryCall_of {stmt : Statement} (hcommit : stmt ≠ .commit)
    (hinsert : ∀ rows, stmt ≠ .insertPrices rows) : QueryCall (.db stmt) :=
  ⟨stmt, rfl, hcommit, hinsert⟩

/-- The producers take the time and query. -/
theorem only_producePrices_of (hnow : A .now) (hquery : ∀ op, QueryCall op → A op)
    (q : PricesQuery) : (producePrices q).Only A :=
  Svc.only_bind (Svc.only_bind (Svc.only_call hnow) fun _ =>
    Svc.only_bind (only_ofExcept _ _) fun _ =>
      Svc.only_query (hquery _ (queryCall_of nofun nofun))) fun _ => Svc.only_pure

theorem only_produceIndex_of (hnow : A .now) (hquery : ∀ op, QueryCall op → A op) (q : IndexQuery) :
    (produceIndex q).Only A :=
  Svc.only_bind (Svc.only_bind (Svc.only_call hnow) fun _ =>
    Svc.only_bind (only_ofExcept _ _) fun _ =>
      Svc.only_query (hquery _ (queryCall_of nofun nofun))) fun _ => Svc.only_pure

/-- The handler of an ingest. -/
theorem only_ingest_of (hingest : ∀ op, WriteCall op → A op) (payload : List PricePointIn) :
    (ingest payload).Only A := by
  have hdrop (keyPrefix : String) : (invalidatePrefix keyPrefix).Only A :=
    (only_invalidatePrefix keyPrefix).mono fun op h => hingest op (.inr h)
  unfold ingest
  by_cases hlimit : 5000 < payload.length
  · rw [if_pos hlimit]
    exact Svc.only_throw
  · rw [if_neg hlimit]
    exact Svc.only_bind ((only_ingestPrices payload).mono fun op h => hingest op (.inl h)) fun _ =>
      Svc.only_bind (hdrop _) fun _ => Svc.only_bind (hdrop _) fun _ => Svc.only_pure

/-- **The calls of a handler**. -/
theorem only_handle_of (env : Env) {route : Route} (hquery : ∀ op, QueryCall op → A op)
    (hcached : route.Cached → ∀ op, CacheCall op → A op)
    (hingest : ∀ payload, route = .ingest payload → ∀ op, WriteCall op → A op) :
    (handle env route).Only A := by
  have hread (hc : ∀ op, CacheCall op → A op) (key : String) {producer : Svc Json}
      (hproducer : producer.Only A) : (readThrough env key producer none).Only A :=
    only_readThrough_of (hc _ (.inr (.inr (.inl ⟨key, rfl⟩))))
      (fun value ex => hc _ (.inr (.inr (.inr ⟨key, value, ex, rfl⟩))))
      (fun stat => hc _ (.inr (.inl ⟨stat, rfl⟩))) hproducer
  cases route with
  | listGpus q => exact Svc.only_bind ((only_listGpus q).mono hquery) fun _ => Svc.only_pure
  | gpuPriceHistory q =>
    exact Svc.only_bind ((only_gpuPriceHistory env q).mono hquery) fun _ => Svc.only_pure
  | gpuBenchmarks q =>
    exact Svc.only_bind ((only_gpuBenchmarks env q).mono hquery) fun _ => Svc.only_pure
  | ingest payload =>
    exact Svc.only_bind (only_ingest_of (hingest payload rfl) payload) fun _ => Svc.only_pure
  | gpuPrices q =>
    have hc := hcached trivial
    refine Svc.only_bind (Svc.only_bind ((only_loadGpu _).mono hquery) fun _ => ?_)
      fun _ => Svc.only_pure
    exact Svc.only_bind (hread hc _ (only_producePrices_of (hc _ (.inl rfl)) hquery q))
      fun _ => only_ofExcept _ _
  | workloadIndex q =>
    have hc := hcached trivial
    refine Svc.only_bind (Svc.only_bind ?_ fun _ => only_ofExcept _ _) fun _ => Svc.only_pure
    exact hread hc _ (only_produceIndex_of (hc _ (.inl rfl)) hquery q)

end GpuIndex
