/-
  Requests at once, and what the cache answers after an ingest.

  The threads of the pool are whole requests.  `amid_ingestRequest` says what an ingest has reached
  when it responds: its rows have settled.  `amid_cachedRequest` says what a cached read answers
  with from then on.  Both rest on what the others store meanwhile: a response that was computed
  before the commit must not be stored after the invalidation has begun.  The code does not see to
  that (`stale_after_ingest`); in every run in which it holds, no read that starts after an ingest
  has responded misses its rows (`fresh_after_ingest`).
-/
import GpuIndex.Api.CacheContents
import GpuIndex.Api.StoredPrices
import GpuIndex.Core.FreshReads

namespace GpuIndex

open Calendar ExpiringStore Trace

/-! ## Which calls are made -/

theorem ownCounter_of_ne {op : Op} (h : ∀ key ex, op ≠ .redis (.incrExpire key ex)) :
    OwnCounter op := fun key ex heq => absurd heq (h key ex)

theorem ownCounter_of_limiterCall (op : Op) (h : LimiterCall op) : OwnCounter op := by
  rcases h with rfl | ⟨key, ex, hkey, rfl⟩
  · exact ownCounter_of_ne nofun
  · intro key' ex' heq
    cases heq
    exact hkey

theorem ownCounter_of_statementCall (op : Op) (h : StatementCall op) : OwnCounter op := by
  obtain ⟨stmt, rfl⟩ := h
  exact ownCounter_of_ne nofun

theorem ownCounter_of_queryCall (op : Op) (h : QueryCall op) : OwnCounter op :=
  ownCounter_of_statementCall op (statementCall_of_queryCall op h)

theorem ownCounter_of_invalidationCall (op : Op) (h : InvalidationCall op) : OwnCounter op := by
  rcases h with ⟨cursor, keyPrefix, rfl⟩ | ⟨key, rfl⟩ | ⟨stat, rfl⟩
  · exact ownCounter_of_ne nofun
  · exact ownCounter_of_ne nofun
  · exact ownCounter_of_ne nofun

theorem only_bump (stat : Stat) : (call (.bump stat)).Only OwnCounter :=
  Svc.only_call (ownCounter_of_ne nofun)

theorem only_readThrough {env : Env} {key : String} {producer : Svc Json} {ttl : Option Int}
    (hproducer : producer.Only OwnCounter) :
    (readThrough env key producer ttl).Only OwnCounter := by
  have hlookup : (lookupCached env key).Only OwnCounter := by
    refine Svc.only_bind (Svc.only_redis (ownCounter_of_ne nofun)) fun cached => ?_
    cases cached with
    | none => exact Svc.only_pure
    | some cached =>
      refine Svc.only_bind (only_bump _) fun _ => ?_
      split
      · exact Svc.only_pure
      · exact Svc.only_throw
  refine Svc.only_bind (Svc.only_tryCatch hlookup fun _ =>
    Svc.only_bind (only_bump _) fun _ => Svc.only_pure) fun cached => ?_
  cases cached with
  | some value => exact Svc.only_pure
  | none =>
    refine Svc.only_bind (only_bump _) fun _ => Svc.only_bind hproducer fun value => ?_
    exact Svc.only_bind (Svc.only_tryCatch (Svc.only_redis (ownCounter_of_ne nofun)) fun _ =>
      only_bump _) fun _ => Svc.only_pure

/-- The calls of a producer: the time, and a query. -/
theorem only_producePrices (q : PricesQuery) : (producePrices q).Only OwnCounter :=
  Svc.only_bind (Svc.only_bind (Svc.only_call (ownCounter_of_ne nofun)) fun _ =>
    Svc.only_bind (only_ofExcept _ _) fun _ => Svc.only_query (ownCounter_of_ne nofun))
    fun _ => Svc.only_pure

theorem only_produceIndex (q : IndexQuery) : (produceIndex q).Only OwnCounter :=
  Svc.only_bind (Svc.only_bind (Svc.only_call (ownCounter_of_ne nofun)) fun _ =>
    Svc.only_bind (only_ofExcept _ _) fun _ => Svc.only_query (ownCounter_of_ne nofun))
    fun _ => Svc.only_pure

theorem only_ingestWithin (payload : List PricePointIn) : (do
    let (accepted, rejected, errors) ← ingestPrices payload
    let invalidated ← invalidatePrefix "prices:"
    let invalidated' ← invalidatePrefix "index:"
    return (⟨accepted, rejected, invalidated + invalidated', errors.take 20⟩ :
      IngestResult)).Only OwnCounter := by
  have hdrop (keyPrefix : String) : (invalidatePrefix keyPrefix).Only OwnCounter :=
    (only_invalidatePrefix keyPrefix).mono ownCounter_of_invalidationCall
  exact Svc.only_bind ((only_ingestPrices payload).mono ownCounter_of_statementCall) fun _ =>
    Svc.only_bind (hdrop _) fun _ => Svc.only_bind (hdrop _) fun _ => Svc.only_pure

theorem only_ingest (payload : List PricePointIn) : (ingest payload).Only OwnCounter := by
  unfold ingest
  by_cases hlimit : 5000 < payload.length
  · rw [if_pos hlimit]
    exact Svc.only_throw
  · rw [if_neg hlimit]
    exact only_ingestWithin payload

/-- A request bumps no counter but the limiter's. -/
theorem only_serveRequest (env : Env) (req : Request) :
    (serveRequest env req).Only OwnCounter := by
  refine Svc.only_bind (only_requireApiKey _ _ _) fun principal => ?_
  refine Svc.only_bind ((only_rateLimit env principal).mono ownCounter_of_limiterCall) fun _ => ?_
  cases req.route with
  | listGpus q =>
    exact Svc.only_bind ((only_listGpus q).mono ownCounter_of_queryCall) fun _ => Svc.only_pure
  | gpuPrices q =>
    refine Svc.only_bind (Svc.only_bind ((only_loadGpu _).mono ownCounter_of_queryCall) fun _ => ?_)
      fun _ => Svc.only_pure
    exact Svc.only_bind (only_readThrough (only_producePrices q)) fun _ => only_ofExcept _ _
  | gpuPriceHistory q =>
    exact Svc.only_bind ((only_gpuPriceHistory env q).mono ownCounter_of_queryCall) fun _ =>
      Svc.only_pure
  | gpuBenchmarks q =>
    exact Svc.only_bind ((only_gpuBenchmarks env q).mono ownCounter_of_queryCall) fun _ =>
      Svc.only_pure
  | workloadIndex q =>
    exact Svc.only_bind (Svc.only_bind (only_readThrough (only_produceIndex q)) fun _ =>
      only_ofExcept _ _) fun _ => Svc.only_pure
  | ingest payload => exact Svc.only_bind (only_ingest payload) fun _ => Svc.only_pure

/-! ## An ingest amid others -/

section Ingest

variable {env : Env} {m : Machine}

/-- The rows a request has committed are in the table. -/
def Machine.Landed (m : Machine) : Prop := ∀ r ∈ m.session.added, r ∈ m.world.db.pricePoints

/-- **Every call** keeps them there. -/
theorem landed_exec (env : Env) (c : Choice) (op : Op) (h : m.Landed) :
    (exec env c op m).2.Landed := by
  rcases noStatement_or_db op with hop | ⟨stmt, rfl⟩
  · have htables : m.SameTables (exec env c op m).2 := exec_sameTables hop m
    rw [Machine.Landed, htables.added, htables.db]
    exact h
  · simp only [exec, perform]
    rcases stmt.exec_cases env c m with hm' | hm' | ⟨_, _, -, -, hm'⟩ | ⟨db, -, hdb, hm'⟩
    · rw [hm']
      exact h
    · rw [hm']
      exact h
    · rw [hm']
      exact h
    · rw [hm']
      intro r hr
      rcases List.mem_append.mp hr with hr | hr
      · exact (Database.insertPrices_ok hdb).1.pricePoints.subset (h r hr)
      · exact List.mem_of_mem_drop hr

/-- What a program that is no commit leaves of what was added. -/
theorem added_of_ne_commit {c : Choice} {op : Op} (hop : op ≠ .db .commit) :
    (exec env c op m).2.session.added = m.session.added := by
  rcases noStatement_or_db op with hstmt | ⟨stmt, rfl⟩
  · exact (exec_sameTables hstmt m).added
  · simp only [exec, perform]
    rcases stmt.exec_cases env c m with h | h | ⟨_, _, -, -, h⟩ | ⟨db, rfl, -, -⟩
    · rw [h]
      rfl
    · rw [h]
      rfl
    · rw [h]
      rfl
    · exact absurd rfl hop

theorem amid_nothing_added {α : Type} {p : Svc α} (hp : p.Only fun op => op ≠ .db .commit)
    (h : m.session.added = []) : Svc.amid env Choice.Healthy Undisturbed p
      (fun _ m' => m'.session.added = []) m :=
  Svc.amid_of_only (P := fun m => m.session.added = []) (fun _ _ h _ => h)
    (fun _ _ _ _ hop h => (added_of_ne_commit hop).trans h) hp h

/-- A batch that raises has committed nothing. -/
theorem amid_ingestPrices (payload : List PricePointIn) (h : m.session.added = []) :
    Svc.amid env Choice.Healthy Undisturbed (ingestPrices payload)
      (fun r m' => (∃ e, r = .error e) → m'.session.added = []) m := by
  have hok (a : Nat × Nat × List String) (m : Machine) :
      Svc.amid env Choice.Healthy Undisturbed (pure a)
        (fun r m' => (∃ e, r = .error e) → m'.session.added = []) m :=
    fun _ _ h => by
      obtain ⟨e, he⟩ := h
      cases he
  have hcommit (a : Nat × Nat × List String) (m : Machine) (h : m.session.added = []) :
      Svc.amid env Choice.Healthy Undisturbed (do query .commit; return a)
        (fun r m' => (∃ e, r = .error e) → m'.session.added = []) m := by
    refine Svc.amid_query fun w _ c _ => ?_
    rcases hexec : Statement.commit.exec env c (m.inWorld w) with ⟨e | r, m'⟩
    · have hm' := Statement.exec_error hexec
      intro w' _ _
      rw [hm']
      exact h
    · exact hok a _
  unfold ingestPrices
  split
  · exact hok _ m
  · have hlookup : resolveLookup.Only fun op => op ≠ .db .commit :=
      Svc.only_bind (Svc.only_query nofun) fun _ =>
        Svc.only_bind (Svc.only_query nofun) fun _ => Svc.only_pure
    refine Svc.amid_seq (amid_nothing_added hlookup h) (fun catalogue m₁ h₁ => ?_)
      fun e m₁ h₁ _ => h₁
    have hadded₁ : m₁.session.added = [] := h₁ m₁.world (.refl _ _)
    dsimp only
    split
    · exact hok _ m₁
    · have hinsert (rows : List PriceParams) :
          (query (.insertPrices rows)).Only fun op => op ≠ .db .commit := Svc.only_query nofun
      refine Svc.amid_seq (amid_nothing_added (hinsert _) hadded₁) (fun _ m₂ h₂ => ?_)
        fun e m₂ h₂ _ => h₂
      exact hcommit _ m₂ (h₂ m₂.world (.refl _ _))

/-- Nothing was added, or both prefixes are swept of what does not have it. -/
def Machine.Swept (m : Machine) : Prop :=
  m.session.added = []
    ∨ Sweep "prices:" m.session.added [] 0 m ∧ Sweep "index:" m.session.added [] 0 m

/-- The handler: its rows are committed, then both prefixes are swept. -/
theorem amid_ingest (payload : List PricePointIn) (h : m.session.added = []) :
    Svc.amid env Choice.Healthy Undisturbed (ingest payload) (fun _ m' => m'.Swept) m := by
  unfold ingest
  by_cases hlimit : 5000 < payload.length
  · rw [if_pos hlimit]
    exact fun w _ => .inl h
  · rw [if_neg hlimit]
    refine Svc.amid_seq (amid_ingestPrices payload h) (fun a m₁ _ => ?_)
      fun e m₁ h₁ => .inl (h₁ ⟨e, rfl⟩)
    refine Svc.amid_seq (amid_invalidatePrefix (by decide) rfl)
      (fun n m₂ h₂ => ?_) fun e m₂ h₂ => ?_
    · obtain ⟨-, hprices⟩ := h₂ m₂.world (.refl _ _)
      -- what the second sweep does keeps the first prefix swept
      refine Svc.amid_seq (Svc.amid_and (amid_invalidatePrefix (by decide) hprices.added)
        (amid_kept (only_invalidatePrefix _) hprices)) (fun n' m₃ h₃ => ?_) fun e m₃ h₃ => ?_
      · obtain ⟨⟨-, hindex⟩, hprices⟩ := h₃ m₃.world (.refl _ _)
        refine fun w hR => .inr ⟨?_, ?_⟩
        · exact hprices.added.symm ▸ hprices.moved hR
        · exact hprices.added.symm ▸ hindex.moved hR
      · obtain ⟨⟨⟨_, he⟩, -⟩, -⟩ := h₃
        cases he
    · obtain ⟨⟨_, he⟩, -⟩ := h₂
      cases he

/-- **An ingest request amid others**: when it responds, its rows have settled. -/
theorem amid_ingestRequest (apiKey : Option String) (payload : List PricePointIn) (w : World) :
    Svc.amid env Choice.Healthy Undisturbed (serveRequest env ⟨apiKey, .ingest payload⟩)
      (fun _ m' => m'.world.Settled m'.session.added) ⟨w, {}⟩ := by
  have hlanded :
      Svc.amid env Choice.Healthy Undisturbed (serveRequest env ⟨apiKey, .ingest payload⟩)
      (fun _ m' => m'.Landed) ⟨w, {}⟩ :=
    Svc.amid_of_only (P := Machine.Landed)
      (fun _ _ h hR r hr => hR.grows.pricePoints.subset (h r hr))
      (fun c op _ _ _ h => landed_exec env c op h) (Prog.only_true (S := svc) _)
      fun r hr => absurd hr List.not_mem_nil
  have hswept : Svc.amid env Choice.Healthy Undisturbed (serveRequest env ⟨apiKey, .ingest payload⟩)
      (fun _ m' => m'.Swept) ⟨w, {}⟩ := by
    refine Svc.amid_seq (amid_nothing_added (only_requireApiKey _ _ _) rfl)
      (fun principal m₁ h₁ => ?_) fun e m₁ h₁ => .inl h₁
    have hlimiter : (rateLimit env principal).Only fun op => op ≠ .db .commit :=
      (only_rateLimit env principal).mono fun op hop heq =>
        noStatement_of_limiterCall op hop .commit heq
    refine Svc.amid_seq (amid_nothing_added hlimiter (h₁ m₁.world (.refl _ _))) (fun _ m₂ h₂ => ?_)
      fun e m₂ h₂ => .inl h₂
    refine Svc.amid_seq (amid_ingest payload (h₂ m₂.world (.refl _ _))) (fun a m₃ h₃ => ?_)
      fun e m₃ h₃ => h₃
    exact fun w hR => h₃ w hR
  refine Svc.amid_mono (Svc.amid_and hlanded hswept) fun r m' h => ?_
  obtain ⟨hlanded, hnone | ⟨hprices, hindex⟩⟩ := h
  · rw [hnone]
    exact ⟨fun r hr => absurd hr List.not_mem_nil,
      fun _ _ _ _ _ _ r hr => absurd hr List.not_mem_nil⟩
  · refine ⟨hlanded, fun keyPrefix hcache => ?_⟩
    rcases List.mem_cons.mp hcache with rfl | hcache
    · exact hprices.covers
    · rw [List.mem_singleton.mp hcache]
      exact hindex.covers

end Ingest

/-! ## A cached read amid others -/

section Read

variable {env : Env} {rows : List PricePoint} {m : Machine}

/-- What programs of other calls keep settled. -/
theorem amid_settled {α : Type} {A : Op → Prop} {p : Svc α}
    (hcall : ∀ c op m, A op → m.world.Settled rows → (exec env c op m).2.world.Settled rows)
    (hp : p.Only A) (h : m.world.Settled rows) :
    Svc.amid env Choice.Healthy (KeepsSettled rows) p (fun _ m' => m'.world.Settled rows) m :=
  Svc.amid_of_only (P := fun m => m.world.Settled rows) (fun _ _ h hR => hR h)
    (fun c op m _ hop h => hcall c op m hop h) hp h

/-- What a handler answers with is what it read. -/
theorem amid_ofExcept {α : Type} (r : Except Exn α) (h : Covers rows m.session.source) :
    Svc.amid env Choice.Healthy (KeepsSettled rows) (ofExcept r) (AnswersWith rows) m := by
  cases r with
  | ok a => exact amid_answer a h
  | error e => exact fun _ _ _ => h

/-- A read of the tables: the rows in hand are those of a database with the rows. -/
theorem amid_read {stmt : Statement}
    (heffect : ∀ m : Machine, stmt.effect env m = .ok m.readRows) (h : m.world.Settled rows) :
    Svc.amid env Choice.Healthy (KeepsSettled rows) (query stmt) (AnswersWith rows) m := by
  rw [← bind_pure (query stmt)]
  refine Svc.amid_query fun w hR c _ => ?_
  rcases hexec : stmt.exec env c (m.inWorld w) with ⟨e | r, m'⟩
  · rintro w' - ⟨a, ha⟩
    cases ha
  · obtain ⟨-, -, heff⟩ := Statement.exec_ok hexec
    rw [heffect] at heff
    have hw : w.Settled rows := hR h
    rw [← Except.ok.inj heff]
    exact amid_answer r hw.covers

/-- What is made of an answer has the rows that the answer has. -/
theorem amid_return {α β : Type} {p : Svc α} {f : α → Svc β}
    (hp : Svc.amid env Choice.Healthy (KeepsSettled rows) p (AnswersWith rows) m)
    (hf : ∀ a m, Covers rows m.session.source →
      Svc.amid env Choice.Healthy (KeepsSettled rows) (f a) (AnswersWith rows) m) :
    Svc.amid env Choice.Healthy (KeepsSettled rows) (p >>= f) (AnswersWith rows) m := by
  refine Svc.amid_seq hp (fun a m' h => hf a m' (h m'.world id ⟨a, rfl⟩)) ?_
  rintro e m' - ⟨b, hb⟩
  cases hb

/-- A program that takes the time and reads from a day on. -/
theorem amid_since {α : Type} {f : Instant → Svc α} (windowDays : Int)
    (hf : ∀ since (m : Machine), m.world.Settled rows →
      Svc.amid env Choice.Healthy (KeepsSettled rows) (f since) (AnswersWith rows) m)
    (h : m.world.Settled rows) :
    Svc.amid env Choice.Healthy (KeepsSettled rows) (do
      let now ← call .now
      let since ← ofExcept (minusDays now windowDays)
      f since) (AnswersWith rows) m := by
  refine Svc.amid_call.mpr fun w hR c _ => ?_
  have hw : w.Settled rows := hR h
  cases hsince : minusDays (exec env c .now (m.inWorld w)).1 windowDays with
  | error e =>
    rintro w' - ⟨a, ha⟩
    cases ha
  | ok since => exact hf since _ hw

theorem amid_producePrices (q : PricesQuery) (h : m.world.Settled rows) :
    Svc.amid env Choice.Healthy (KeepsSettled rows) (producePrices q) (AnswersWith rows) m :=
  amid_return (amid_since q.windowDays (fun _ _ h => amid_read (fun _ => rfl) h) h)
    fun _ _ h => amid_answer _ h

theorem amid_produceIndex (q : IndexQuery) (h : m.world.Settled rows) :
    Svc.amid env Choice.Healthy (KeepsSettled rows) (produceIndex q) (AnswersWith rows) m :=
  amid_return (amid_since 30 (fun _ _ h => amid_read (fun _ => rfl) h) h)
    fun _ _ h => amid_answer _ h

/-- **A cached read amid others**: what it answers with has the rows that have settled. -/
theorem amid_cachedRequest (apiKey : Option String) {route : Route} (hroute : route.Cached)
    (h : m.world.Settled rows) :
    Svc.amid env Choice.Healthy (KeepsSettled rows) (serveRequest env ⟨apiKey, route⟩)
      (AnswersWith rows) m := by
  have herror {α : Type} (e : Exn) (m : Machine) :
      AnswersWith rows (.error e : Except Exn α) m := by
    rintro ⟨a, ha⟩
    cases ha
  have hauth := only_requireApiKey env.settings apiKey LimiterCall
  have hlimiter (c : Choice) (op : Op) (m : Machine) (hop : LimiterCall op)
      (h : m.world.Settled rows) : (exec env c op m).2.world.Settled rows :=
    settled_of_limiterCall hop h
  refine Svc.amid_seq (amid_settled hlimiter hauth h) (fun principal m₁ h₁ => ?_)
    fun e m₁ _ => herror e m₁
  refine Svc.amid_seq (amid_settled hlimiter (only_rateLimit env principal) (h₁ m₁.world id))
    (fun _ m₂ h₂ => ?_) fun e m₂ _ => herror e m₂
  have hm₂ := h₂ m₂.world id
  cases route with
  | gpuPrices q =>
    have hquery (c : Choice) (op : Op) (m : Machine) (hop : QueryCall op)
        (h : m.world.Settled rows) : (exec env c op m).2.world.Settled rows :=
      settled_of_statementCall (statementCall_of_queryCall op hop) h
    refine amid_return ?_ fun _ _ h => amid_answer _ h
    refine Svc.amid_seq (amid_settled hquery (only_loadGpu q.gpuId) hm₂) (fun gpu m₃ h₃ => ?_)
      fun e m₃ _ => herror e m₃
    exact amid_return (amid_readThrough (by decide) (hasPrefix_pricesKey q) none
      (fun m h => amid_producePrices q h) (h₃ m₃.world id)) fun _ _ h => amid_ofExcept _ h
  | workloadIndex q =>
    refine amid_return ?_ fun _ _ h => amid_answer _ h
    exact amid_return (amid_readThrough (by decide) (hasPrefix_indexKey q) none
      (fun m h => amid_produceIndex q h) hm₂) fun _ _ h => amid_ofExcept _ h
  | listGpus q => cases hroute
  | gpuPriceHistory q => cases hroute
  | gpuBenchmarks q => cases hroute
  | ingest payload => cases hroute

end Read

/-! ## Requests at once -/

/-- Requests, and the process that serves each. -/
structure Traffic (ι : Type) where
  env : ι → Env
  request : ι → Request

variable {ι : Type} [DecidableEq ι]

namespace Traffic

variable (t : Traffic ι)

/-- The state of the requests. -/
abbrev Threads (ι : Type) := Pool.State svc ι World Session (Except Exn Response)

/-- A request takes a step, or time passes. -/
abbrev Move (ι : Type) := Pool.Move ι Choice World

/-- Every request before its first call. -/
def start (w : World) : Threads ι where
  shared := w
  own _ := {}
  prog i := (serveRequest (t.env i) (t.request i)).run

/-- Take a move. -/
def step (s : Threads ι) (m : Move ι) : Threads ι := s.step (fun i => handler (t.env i)) m

/-- The requests after some moves. -/
def after (w : World) (trace : List (Move ι)) : Threads ι := run t.step (t.start w) trace

/-- Redis answers, and from outside nothing changes but the time. -/
def NoFailure (s : Threads ι) : Move ι → Prop
  | .call _ c => c.Healthy
  | .outside w => ∃ now : Instant, s.shared.now.us ≤ now.us ∧ w = { s.shared with now := now }

/-- What a request stores was computed from a database with the rows of every ingest that has begun
    to drop the prefix of its key. -/
def StoresFresh (s : Threads ι) : Move ι → Prop
  | .call i _ => ∀ key value ex k, s.prog i = .call (.redis (.set key value ex)) k →
      ∀ j, ∀ keyPrefix ∈ cachePrefixes, (s.own j).Dropping keyPrefix →
        hasPrefix keyPrefix key = true → Covers (s.own j).added (s.own i).source
  | .outside _ => True

end Traffic

section Traffic

variable {t : Traffic ι} {w : World}

theorem Traffic.after_append (before mid : List (Traffic.Move ι)) :
    t.after w (before ++ mid) = run t.step (t.after w before) mid := run_append ..

/-- A move leaves the ingests of the others undisturbed. -/
theorem undisturbed_move {s : Traffic.Threads ι} (honly : ∀ i, (s.prog i).Only OwnCounter)
    {m : Traffic.Move ι} (hm : Traffic.NoFailure s m) (hfresh : Traffic.StoresFresh s m) (j : ι) :
    Undisturbed (s.own j) s.shared (t.step s m).shared := by
  cases m with
  | outside w =>
    obtain ⟨now, hnow, rfl⟩ := hm
    exact ⟨hnow, .refl _, fun _ _ _ _ _ _ _ h => .inr h⟩
  | call i c =>
    cases hprog : s.prog i with
    | pure r =>
      have hstep : t.step s (.call i c) = s := by simp only [Traffic.step, Pool.State.step, hprog]
      rw [hstep]
      exact .refl _ _
    | call op k =>
      have hstep : (t.step s (.call i c)).shared
          = (exec (t.env i) c op ⟨s.shared, s.own i⟩).2.world := by
        simp only [Traffic.step, Pool.State.step, hprog]
        rfl
      have hop := honly i
      rw [hprog] at hop
      rw [hstep]
      refine exec_undisturbed (m := ⟨s.shared, s.own i⟩) (s.own j) hm hop.1 ?_
      rintro key value ex rfl
      exact hfresh key value ex k hprog j

/-- The moves of a run without failures that stores nothing stale, as an ingest sees them. -/
theorem moves_ingest {trace : List (Traffic.Move ι)}
    (hfailure : Guarded t.step Traffic.NoFailure (t.start w) trace)
    (hfresh : Guarded t.step Traffic.StoresFresh (t.start w) trace) (j : ι) :
    Guarded t.step (Pool.Moves (fun i => handler (t.env i)) Choice.Healthy Undisturbed j)
      (t.start w) trace := by
  refine (hfailure.and hfresh).imp (P := fun s => ∀ i, (s.prog i).Only OwnCounter)
    (fun s m honly _ => Pool.only_step honly m) (fun s m honly hm => ⟨fun c heq => ?_, fun _ => ?_⟩)
    fun i => only_serveRequest _ _
  · subst heq
    exact hm.1
  · exact undisturbed_move honly hm.1 hm.2 j

/-- **Once an ingest has responded**, its rows have settled, for good. -/
theorem settled_of_responded {before mid : List (Traffic.Move ι)}
    (hfailure : Guarded t.step Traffic.NoFailure (t.start w) (before ++ mid))
    (hfresh : Guarded t.step Traffic.StoresFresh (t.start w) (before ++ mid)) {j : ι}
    {payload : List PricePointIn} (hingest : (t.request j).route = .ingest payload)
    {r : Except Exn Response} (hresponded : (t.after w before).prog j = .pure r) :
    (t.after w (before ++ mid)).shared.Settled ((t.after w before).own j).added := by
  have hstart : Pool.Amid (S := svc) Choice.Healthy (handler (t.env j)) Undisturbed
      (fun _ w l => w.Settled l.added) ((t.start w).prog j) (t.start w).shared
      ((t.start w).own j) := by
    have hrequest : t.request j = ⟨(t.request j).apiKey, .ingest payload⟩ := by rw [← hingest]
    show Pool.Amid _ _ _ _ (serveRequest (t.env j) (t.request j)).run _ _
    rw [hrequest]
    exact amid_ingestRequest _ payload w
  -- the ingest is followed to its response, and on to the end of `mid`
  have hrun := Pool.amid_run (h := fun i => handler (t.env i)) Undisturbed.refl Undisturbed.trans
    hstart (moves_ingest hfailure hfresh j)
  obtain ⟨hown, hprog⟩ : (t.after w (before ++ mid)).own j = (t.after w before).own j
      ∧ (t.after w (before ++ mid)).prog j = .pure r := by
    rw [Traffic.after_append]
    exact Pool.run_ended hresponded
  have hended := Pool.Amid.ended (s := t.after w (before ++ mid))
    (h := fun i => handler (t.env i)) hrun hprog (Undisturbed.refl _ _)
  rwa [hown] at hended

/-- **Freshness after an ingest**: in every run in which no request stores what was computed before
    an ingest that has begun to drop its prefix, a cached read that starts after an ingest has
    responded answers with what was computed from a database with the rows of the ingest. -/
theorem fresh_after_ingest (t : Traffic ι) (w : World) (before later : List (Traffic.Move ι))
    (hfailure : Guarded t.step Traffic.NoFailure (t.start w) (before ++ later))
    (hfresh : Guarded t.step Traffic.StoresFresh (t.start w) (before ++ later)) (i j : ι)
    (payload : List PricePointIn) (hingest : (t.request j).route = .ingest payload)
    (hread : (t.request i).route.Cached)
    (hresponded : ∃ r, (t.after w before).prog j = .pure r)
    (hstarts : ∀ m ∈ before, ∀ c, m ≠ .call i c) (response : Response)
    (hanswer : (t.after w (before ++ later)).prog i = .pure (.ok response)) :
    Covers ((t.after w before).own j).added ((t.after w (before ++ later)).own i).source := by
  obtain ⟨r, hr⟩ := hresponded
  -- from the response on the rows stay settled, whoever moves
  have hsettled (mid rest : List (Traffic.Move ι)) (hsplit : later = mid ++ rest) :
      (run t.step (t.after w before) mid).shared.Settled ((t.after w before).own j).added := by
    rw [hsplit, ← List.append_assoc] at hfailure hfresh
    have h := settled_of_responded (guarded_append.mp hfailure).1 (guarded_append.mp hfresh).1
      hingest hr
    rwa [Traffic.after_append] at h
  -- the read has made no call yet, so its whole program runs amid what the others do
  obtain ⟨hown, hprog⟩ := Pool.run_other (s := t.start w) (h := fun i => handler (t.env i)) hstarts
  have hstart : Pool.Amid (S := svc) Choice.Healthy (handler (t.env i))
      (KeepsSettled ((t.after w before).own j).added)
      (fun r w' l => AnswersWith ((t.after w before).own j).added r ⟨w', l⟩)
      ((t.after w before).prog i) (t.after w before).shared ((t.after w before).own i) := by
    have hrequest : Svc.amid (t.env i) Choice.Healthy
        (KeepsSettled ((t.after w before).own j).added) (serveRequest (t.env i) (t.request i))
        (AnswersWith ((t.after w before).own j).added) ⟨(t.after w before).shared, {}⟩ :=
      amid_cachedRequest _ hread (hsettled [] later rfl)
    have hown' : (t.after w before).own i = {} := hown
    have hprog' : (t.after w before).prog i = (serveRequest (t.env i) (t.request i)).run := hprog
    rw [hown', hprog']
    exact hrequest
  have hmoves : Guarded t.step (Pool.Moves (fun i => handler (t.env i)) Choice.Healthy
      (KeepsSettled ((t.after w before).own j).added) i) (t.after w before) later := by
    refine guarded_iff.mpr fun mid m rest hsplit => ⟨fun c heq => ?_, fun _ _ => ?_⟩
    · subst heq
      exact guarded_iff.mp (guarded_append.mp hfailure).2 mid _ rest hsplit
    · have h := hsettled (mid ++ [m]) rest (by rw [hsplit, List.append_assoc]; rfl)
      rwa [run_append] at h
  have hrun := Pool.amid_run (h := fun i => handler (t.env i)) (fun _ _ h => h)
    (fun _ _ _ _ h h' hs => h' (h hs)) hstart hmoves
  rw [Traffic.after_append] at hanswer ⊢
  exact Pool.Amid.ended (s := run t.step (t.after w before) later)
    (h := fun i => handler (t.env i)) hrun hanswer (fun h => h) ⟨response, rfl⟩

end Traffic

/-! ## Three requests -/

/-- A read of the prices of GPU 1. -/
def readPrices : Request := ⟨some "local-dev-key", .gpuPrices (pricesOfOne none)⟩

/-- Two reads, and an ingest of one observation. -/
def readIngestRead : Traffic Nat where
  env _ := env
  request i := if i = 1 then ⟨some "local-dev-key", .ingest [oneItem]⟩ else readPrices

/-- Calls of these requests, all of them answered. -/
def calls (requests : List Nat) : List (Traffic.Move Nat) := requests.map (.call · .calm)

/-- The requests after these calls, from an empty price table on. -/
def afterCalls (requests : List Nat) : Traffic.Threads Nat :=
  readIngestRead.after (worldOf (catalogue ⟨1, one_range⟩)) (calls requests)

theorem noFailure_calls (s : Traffic.Threads Nat) (requests : List Nat) :
    Guarded readIngestRead.step Traffic.NoFailure s (calls requests) := by
  refine guarded_iff.mpr fun before m after h => ?_
  have hmem : m ∈ calls requests := h ▸ List.mem_append_right _ List.mem_cons_self
  obtain ⟨i, -, rfl⟩ := List.mem_map.mp hmem
  rfl

/-- The first read has computed its answer, then comes the ingest. -/
def untilResponse : List Nat := [0, 0, 0, 0, 0, 0, 0, 1, 1, 1, 1, 1, 1, 1, 1]

/-- The first read stores its answer, then comes the second. -/
def sinceResponse : List Nat := [0, 2, 2, 2, 2, 2]

theorem stale_after_ingest :
    Guarded readIngestRead.step Traffic.NoFailure
        (readIngestRead.start (worldOf (catalogue ⟨1, by decide⟩)))
        (calls (untilResponse ++ sinceResponse))
      ∧ (∃ r, (afterCalls untilResponse).prog 1 = .pure r)
      ∧ (∃ response, (afterCalls (untilResponse ++ sinceResponse)).prog 2 = .pure (.ok response))
      ∧ ¬ Covers ((afterCalls untilResponse).own 1).added
        ((afterCalls (untilResponse ++ sinceResponse)).own 2).source := by
  refine ⟨noFailure_calls _ _, ⟨.ok ⟨202, .ingest ⟨1, 0, 0, []⟩, []⟩, by with_unfolding_all rfl⟩,
    ⟨⟨200, .summary (emptySummary "H100 SXM"), []⟩, by with_unfolding_all rfl⟩, fun h => ?_⟩
  have hadded :
      ((afterCalls untilResponse).own 1).added = [pricePoint ⟨1, by decide⟩ available] := by
    with_unfolding_all rfl
  have hsource : ((afterCalls (untilResponse ++ sinceResponse)).own 2).source
      = some (catalogue ⟨1, by decide⟩) := by
    with_unfolding_all rfl
  rw [hadded, hsource] at h
  obtain ⟨db, hdb, hmem⟩ := h _ List.mem_cons_self
  cases hdb
  cases hmem

/-- The next call of the program stores an entry. -/
def isStore {α : Type} : Prog svc α → Bool
  | .call (.redis (.set _ _ _)) _ => true
  | _ => false

/-- None of the calls stores an entry. -/
def noStores (s : Traffic.Threads Nat) : List Nat → Bool
  | [] => true
  | i :: requests => !isStore (s.prog i)
      && noStores (readIngestRead.step s (.call i .calm)) requests

theorem storesFresh_of_noStores {s : Traffic.Threads Nat} {requests : List Nat}
    (h : noStores s requests = true) :
    Guarded readIngestRead.step Traffic.StoresFresh s (calls requests) := by
  induction requests generalizing s with
  | nil => trivial
  | cons i requests ih =>
    obtain ⟨hstore, hrest⟩ := Bool.and_eq_true_iff.mp h
    refine ⟨fun key value ex k hprog => ?_, ih hrest⟩
    rw [hprog] at hstore
    cases hstore

/-- The ingest is served. -/
def firstTurn : List Nat := [1, 1, 1, 1, 1, 1, 1, 1]

/-- The second read, up to what it stores. -/
def secondTurn : List Nat := [2, 2, 2, 2, 2, 2, 2]

theorem covers_inTurn (j : Nat) : Covers ((afterCalls (firstTurn ++ secondTurn)).own j).added
    ((afterCalls (firstTurn ++ secondTurn)).own 2).source := by
  have hsource : ((afterCalls (firstTurn ++ secondTurn)).own 2).source
      = some (afterCalls firstTurn).shared.db := by
    with_unfolding_all rfl
  have htable : (afterCalls firstTurn).shared.db.pricePoints
      = [pricePoint ⟨1, by decide⟩ available] := by
    with_unfolding_all rfl
  have hadded : ((afterCalls (firstTurn ++ secondTurn)).own j).added
      = if j = 1 then [pricePoint ⟨1, by decide⟩ available] else [] := by
    by_cases h1 : j = 1
    · subst h1
      with_unfolding_all rfl
    · by_cases h2 : j = 2
      · subst h2
        with_unfolding_all rfl
      · rw [if_neg h1]
        have hother : ∀ m ∈ calls (firstTurn ++ secondTurn), ∀ c, m ≠ .call j c := by
          rintro m hm c rfl
          obtain ⟨i, hi, heq⟩ := List.mem_map.mp hm
          obtain ⟨rfl, -⟩ := Pool.Move.call.inj heq
          simp only [firstTurn, secondTurn, List.cons_append, List.nil_append, List.mem_cons,
            List.not_mem_nil, or_false] at hi
          omega
        have hown := Pool.run_other (s := readIngestRead.start (worldOf (catalogue ⟨1, by decide⟩)))
          (h := fun i => handler (readIngestRead.env i)) hother
        exact congrArg Session.added hown.1
  rw [hsource, hadded]
  intro r hr
  refine ⟨_, rfl, ?_⟩
  rw [htable]
  split at hr
  · exact hr
  · cases hr

theorem storesFresh_inTurn : Guarded readIngestRead.step Traffic.StoresFresh
    (readIngestRead.start (worldOf (catalogue ⟨1, by decide⟩)))
    (calls firstTurn ++ calls (secondTurn ++ [2])) := by
  have hsplit : calls firstTurn ++ calls (secondTurn ++ [2])
      = calls (firstTurn ++ secondTurn) ++ calls [2] := rfl
  rw [hsplit]
  exact guarded_append.mpr ⟨storesFresh_of_noStores (by with_unfolding_all rfl),
    fun _ _ _ _ _ j _ _ _ _ => covers_inTurn j, trivial⟩

theorem fresh_after_ingest_inTurn : Covers ((afterCalls firstTurn).own 1).added
    ((readIngestRead.after (worldOf (catalogue ⟨1, by decide⟩))
      (calls firstTurn ++ calls (secondTurn ++ [2]))).own 2).source :=
  fresh_after_ingest readIngestRead (worldOf (catalogue ⟨1, by decide⟩)) (calls firstTurn)
    (calls (secondTurn ++ [2])) (noFailure_calls _ (firstTurn ++ (secondTurn ++ [2])))
    storesFresh_inTurn 2 1 [oneItem] rfl trivial
    ⟨.ok ⟨202, .ingest ⟨1, 0, 0, []⟩, []⟩, by with_unfolding_all rfl⟩
    (by
      rintro m hm c rfl
      obtain ⟨i, hi, heq⟩ := List.mem_map.mp hm
      obtain ⟨rfl, -⟩ := Pool.Move.call.inj heq
      simp [firstTurn] at hi)
    _ (by with_unfolding_all rfl)

end GpuIndex
