/-
  What requests leave in the cache.

  An entry is seen until it dies.  What holds of every entry that is seen, and of the entries the
  route at hand may store, still holds of every entry that is seen after the request
  (`wp_serveRequest_holds`), whatever Redis does in between.
-/
import GpuIndex.Api.RouteSpecs

namespace GpuIndex

open ExpiringStore

/-- Every entry that is seen is as `P` says. -/
def World.CacheHolds (P : String → Entry Cached → Prop) (w : World) : Prop :=
  ∀ key e, w.redis.peek w.now.us key = some e → P key e

/-- The entry a route stores for a value. -/
def World.entryFor (env : Env) (w : World) (value : Json) (born : Nat) : Entry Cached :=
  ⟨⟨.text (dumpsText env value), some w.db⟩, w.now.us + seconds env.settings.cacheTtlSeconds, born⟩

/-! ## Steps -/

section Holds

variable {P : String → Entry Cached → Prop} {m m' : Machine}

theorem World.CacheHolds.of_sameRedis (h : m.world.CacheHolds P)
    (hredis : m'.world.redis = m.world.redis) (hnow : m'.world.now = m.world.now) :
    m'.world.CacheHolds P := by
  intro key e he
  rw [hredis, hnow] at he
  exact h key e he

theorem World.CacheHolds.of_shrinks (h : m.world.CacheHolds P) (hshrinks : m.Shrinks m')
    (hnow : m'.world.now = m.world.now) : m'.world.CacheHolds P := by
  intro key e he
  rw [hnow] at he
  exact h key e (hshrinks _ key e he)

/-- The limiter's counters do not matter to a `P` that says nothing about them. -/
theorem World.CacheHolds.of_sameCache (h : m.world.CacheHolds P)
    (hcounters : ∀ key e, hasPrefix "rl:" key = true → P key e) (hcache : m.SameCache m')
    (hnow : m'.world.now = m.world.now) : m'.world.CacheHolds P := by
  intro key e he
  cases hkey : hasPrefix "rl:" key with
  | true => exact hcounters key e hkey
  | false =>
    rw [hcache.peek _ key hkey, hnow] at he
    exact h key e he

/-- A value was stored, or could not be. -/
theorem World.CacheHolds.of_fill {env : Env} {key : String} {value : Json}
    (h : m.world.CacheHolds P)
    (hfill : CacheFill env key value env.settings.cacheTtlSeconds m m')
    (hsource : m.session.source = some m.world.db)
    (hentry : ∀ born, P key (m.world.entryFor env value born)) : m'.world.CacheHolds P := by
  intro key' e he
  rw [hfill.tables.now] at he
  rcases hfill.redis with hredis | ⟨-, hredis⟩
  · rw [hredis] at he
    exact h key' e he
  · rw [hredis] at he
    by_cases hkey : key' = key
    · subst hkey
      obtain ⟨hvalue, hdeadline, -⟩ := peek_put_self _ he
      obtain ⟨value', deadline', born⟩ := e
      cases hvalue
      cases hdeadline
      rw [hsource]
      exact hentry born
    · rw [peek_put_ne _ _ _ _ hkey] at he
      exact h key' e he

/-- A read through the cache. -/
theorem World.CacheHolds.of_readThrough {ρ : Type} {env : Env} {key : String}
    {select : Calendar.Instant → Database → Plan → Except Exn (List ρ)} {json : List ρ → Json}
    {r : Except Exn (Json × Bool)} (h : m.world.CacheHolds P)
    (hread : ReadThrough env key env.settings.cacheTtlSeconds (Produced select json) m r m')
    (hentry : ∀ plan rows born, select m.world.now m.world.db plan = .ok rows →
      P key (m.world.entryFor env (json rows) born)) : m'.world.CacheHolds P := by
  cases hread with
  | hit _ _ done => exact h.of_sameRedis done.redis done.tables.now
  | raised miss produced =>
    have h₁ := h.of_sameRedis miss.redis miss.tables.now
    cases produced with
    | failed tables redis _ => exact h₁.of_sameRedis redis tables.now
    | overflow _ tables redis => exact h₁.of_sameRedis redis tables.now
  | fresh miss produced fill =>
    have h₁ := h.of_sameRedis miss.redis miss.tables.now
    cases produced with
    | @rows plan rows m₂ selected tables redis source log runs =>
      have hsame := miss.tables.trans tables
      rw [miss.tables.now, miss.tables.db] at selected
      refine (h₁.of_sameRedis redis tables.now).of_fill fill ?_ fun born => ?_
      · rw [source, tables.db]
      · rw [World.entryFor, hsame.now, hsame.db]
        exact hentry plan rows born selected

end Holds

/-! ## Routes -/

theorem exec_now (env : Env) (c : Choice) (op : Op) (m : Machine) :
    (exec env c op m).2.world.now = m.world.now := by
  rcases noStatement_or_db op with hop | ⟨stmt, rfl⟩
  · exact (exec_sameTables hop m).now
  · exact stmt.exec_frame (·.world.now) env c m rfl (fun _ => rfl) fun _ => rfl

/-- A statement that reads. -/
theorem only_reads {stmt : Statement} (hcommit : stmt ≠ .commit)
    (hinsert : ∀ rows, stmt ≠ .insertPrices rows) : (query stmt).Only QueryCall :=
  Svc.only_query ⟨stmt, rfl, hcommit, hinsert⟩

theorem only_listGpus (q : ListGpusQuery) : (listGpus q).Only QueryCall :=
  Svc.only_bind (only_reads nofun nofun) fun _ => Svc.only_pure

theorem only_loadGpu (gpuId : Int) : (loadGpu gpuId).Only QueryCall :=
  Svc.only_bind (only_reads nofun nofun) fun gpu => match gpu with
    | some _ => Svc.only_pure
    | none => Svc.only_throw

theorem only_gpuBenchmarks (env : Env) (q : BenchmarksQuery) :
    (gpuBenchmarks env q).Only QueryCall :=
  Svc.only_bind (only_loadGpu _) fun _ =>
    Svc.only_bind (only_reads nofun nofun) fun _ => Svc.only_pure

theorem only_ofExcept {α : Type} (r : Except Exn α) (A : Op → Prop) : (ofExcept r).Only A :=
  match r with
  | .ok _ => Svc.only_pure
  | .error _ => Svc.only_throw

theorem only_pricePage (env : Env) (gpuModelId : Int) (limit : Nat) (cursor : Option String) :
    (pricePage env gpuModelId limit cursor).Only QueryCall := by
  have hrest (position) : (do
      let rows ← query (.keysetPage gpuModelId position limit)
      return (rows, nextCursor env.fmt rows limit)).Only QueryCall :=
    Svc.only_bind (only_reads nofun nofun) fun _ => Svc.only_pure
  unfold pricePage
  cases truthy cursor with
  | none => exact hrest none
  | some cursor =>
    exact Svc.only_bind (Svc.only_bind (only_ofExcept _ _) fun _ => Svc.only_pure) hrest

theorem only_gpuPriceHistory (env : Env) (q : HistoryQuery) :
    (gpuPriceHistory env q).Only QueryCall :=
  Svc.only_bind (only_loadGpu _) fun _ =>
    Svc.only_bind (only_pricePage _ _ _ _) fun _ => Svc.only_pure

theorem only_ingestPrices (payload : List PricePointIn) :
    (ingestPrices payload).Only StatementCall := by
  unfold ingestPrices
  split
  · exact Svc.only_pure
  · refine Svc.only_bind ?_ fun catalogue => ?_
    · exact Svc.only_bind (Svc.only_query ⟨_, rfl⟩) fun _ =>
        Svc.only_bind (Svc.only_query ⟨_, rfl⟩) fun _ => Svc.only_pure
    · dsimp only
      split
      · exact Svc.only_pure
      · exact Svc.only_bind (Svc.only_query ⟨_, rfl⟩) fun _ =>
          Svc.only_bind (Svc.only_query ⟨_, rfl⟩) fun _ => Svc.only_pure

/-! ## Requests -/

section Requests

variable {env : Env} {C : Choice → Prop} {P : String → Entry Cached → Prop}

/-- A program of statements. -/
theorem wp_statements_holds {α : Type} {p : Svc α} (hp : p.Only StatementCall) {m : Machine}
    (hm : m.world.CacheHolds P) : Svc.wp env C p (fun _ m' => m'.world.CacheHolds P) m := by
  have hnow : Svc.wp env C p (fun _ m' => m'.world.now = m.world.now) m :=
    Svc.wp_of_only (P := fun m' => m'.world.now = m.world.now)
      (fun c op m' _ _ h => (exec_now env c op m').trans h) hp rfl
  exact Svc.wp_mono (Svc.wp_and (wp_sameRedis hp m) hnow) fun _ _ h => hm.of_sameRedis h.1 h.2

/-- What the route at hand may store is as `P` says. -/
structure Route.Stores (env : Env) (w : World) (P : String → Entry Cached → Prop) (route : Route) :
    Prop where
  prices : ∀ q, route = .gpuPrices q → ∀ plan rows born,
    pricesSelected env q w.now w.db plan = .ok rows →
    P (pricesKey q) (w.entryFor env (latestJson rows) born)
  index : ∀ q, route = .workloadIndex q → ∀ plan rows born,
    indexSelected env q w.now w.db plan = .ok rows →
    P (indexKey q) (w.entryFor env (indexJson rows) born)

theorem Route.Stores.of_sameTables {m m' : Machine} {route : Route}
    (h : route.Stores env m.world P) (htables : m.SameTables m') :
    route.Stores env m'.world P := by
  obtain ⟨hprices, hindex⟩ := h
  refine ⟨fun q hq plan rows born => ?_, fun q hq plan rows born => ?_⟩
  · rw [htables.now, htables.db, World.entryFor, htables.now, htables.db]
    exact hprices q hq plan rows born
  · rw [htables.now, htables.db, World.entryFor, htables.now, htables.db]
    exact hindex q hq plan rows born

/-- An ingest stores nothing in the cache. -/
theorem wp_ingest_holds (payload : List PricePointIn) {m : Machine} (hm : m.world.CacheHolds P) :
    Svc.wp env C (ingest payload) (fun _ m' => m'.world.CacheHolds P) m := by
  unfold ingest
  split
  · exact hm
  · refine Svc.wp_seq (wp_statements_holds (only_ingestPrices payload) hm) (fun result m₁ h₁ => ?_)
      (fun _ _ h => h)
    refine Svc.wp_seq (wp_invalidatePrefix env "prices:" m₁) (fun n m₂ h₂ => ?_)
      (fun _ _ h => h₁.of_shrinks h.2.2 h.2.1.now)
    have h₂' := h₁.of_shrinks h₂.2.2 h₂.2.1.now
    refine Svc.wp_seq (wp_invalidatePrefix env "index:" m₂) (fun n m₃ h₃ => ?_)
      (fun _ _ h => h₂'.of_shrinks h.2.2 h.2.1.now)
    exact h₂'.of_shrinks h₃.2.2 h₃.2.1.now

theorem wp_handle_holds {route : Route} {m : Machine} (hroute : route.Stores env m.world P)
    (hm : m.world.CacheHolds P) :
    Svc.wp env C (handle env route) (fun _ m' => m'.world.CacheHolds P) m := by
  have hpure {α : Type} {p : Svc α} (f : α → Response)
      (h : Svc.wp env C p (fun _ m' => m'.world.CacheHolds P) m) :
      Svc.wp env C (p >>= fun a => pure (f a)) (fun _ m' => m'.world.CacheHolds P) m :=
    Svc.wp_seq h (fun _ _ h => h) (fun _ _ h => h)
  have hqueries {α : Type} {p : Svc α} (f : α → Response) (hp : p.Only QueryCall) :
      Svc.wp env C (p >>= fun a => pure (f a)) (fun _ m' => m'.world.CacheHolds P) m :=
    hpure f (wp_statements_holds (hp.mono statementCall_of_queryCall) hm)
  cases route with
  | listGpus q => exact hqueries _ (only_listGpus q)
  | gpuPriceHistory q => exact hqueries _ (only_gpuPriceHistory env q)
  | gpuBenchmarks q => exact hqueries _ (only_gpuBenchmarks env q)
  | ingest payload => exact hpure _ (wp_ingest_holds payload hm)
  | workloadIndex q =>
    refine hpure _ (Svc.wp_mono (wp_workloadIndex q m) ?_)
    rintro r m' ⟨read, hread, -⟩
    exact hm.of_readThrough hread (hroute.index q rfl)
  | gpuPrices q =>
    refine hpure _ (Svc.wp_mono (wp_gpuPrices q m) ?_)
    rintro r m' ⟨loaded, m₁, -, hgpu, h⟩
    have hm₁ := hm.of_sameRedis hgpu.redis hgpu.tables.now
    cases loaded with
    | ok gpu =>
      obtain ⟨read, hread, -⟩ := h
      exact hm₁.of_readThrough hread ((hroute.of_sameTables hgpu.tables).prices q rfl)
    | error e =>
      rw [h.2]
      exact hm₁

theorem wp_requireApiKey (settings : Settings) (key : Option String) (m : Machine) :
    Svc.wp env C (requireApiKey settings key) (fun _ m' => m' = m) m := by
  unfold requireApiKey
  split
  · split <;> rfl
  · rfl

/-- **A request** keeps what holds of the entries that are seen. -/
theorem wp_serveRequest_holds {req : Request} {m : Machine}
    (hcounters : ∀ key e, hasPrefix "rl:" key = true → P key e)
    (hroute : req.route.Stores env m.world P) (hm : m.world.CacheHolds P) :
    Svc.wp env C (serveRequest env req) (fun _ m' => m'.world.CacheHolds P) m := by
  refine Svc.wp_seq (wp_requireApiKey _ _ m) (fun principal m₁ h => ?_) (fun e m₁ h => ?_)
  · subst h
    refine Svc.wp_seq (wp_rateLimit env principal m₁) (fun _ m₂ h => ?_) (fun _ m₂ h => ?_)
    · exact wp_handle_holds (hroute.of_sameTables h.2.1)
        (hm.of_sameCache hcounters h.2.2.1 h.2.1.now)
    · exact hm.of_sameCache hcounters h.2.2.1 h.2.1.now
  · rw [h]
    exact hm

end Requests

/-- The route reads through the cache. -/
def Route.Cached : Route → Prop
  | .gpuPrices _ => True
  | .workloadIndex _ => True
  | _ => False

end GpuIndex
