/-
  Requests while Redis fails.

  Any Redis command may fail, before or after it took effect.  `redis_failure_never_fails` says what
  a request by a valid key still does then.  A read answers as `RowsAnswered` says; an ingest is a
  program of statements, which never see what becomes of the commands around them.
-/
import GpuIndex.Api.Answers
import GpuIndex.Api.Exceptions

namespace GpuIndex

open Calendar

/-! ## Ingest -/

/-- Two sequences of choices under which the database decides alike. -/
def SameDatabase (choices choices' : Nat → Choice) : Prop :=
  ∀ n, (choices n).dbError = (choices' n).dbError ∧ (choices n).plan = (choices' n).plan

/-- Two results of an ingest that report the same of their items. -/
inductive SameReport : Except Exn Response → Except Exn Response → Prop where
  | raised (e : Exn) : SameReport (.error e) (.error e)
  | reported (accepted rejected invalidated invalidated' : Nat) (errors : List String) :
      SameReport (.ok ⟨202, .ingest ⟨accepted, rejected, invalidated, errors⟩, []⟩)
        (.ok ⟨202, .ingest ⟨accepted, rejected, invalidated', errors⟩, []⟩)

section Statements

variable (env : Env)

/-- What a statement leaves behind depends on the tables and the transaction only. -/
theorem Statement.effect_sameTables {m m' : Machine} (h : m.SameTables m') (stmt : Statement) :
    (∃ e, stmt.effect env m = .error e ∧ stmt.effect env m' = .error e)
      ∨ ∃ n n', stmt.effect env m = .ok n ∧ stmt.effect env m' = .ok n' ∧ n.SameTables n' := by
  obtain ⟨hdb, hnow, hpending, hadded⟩ := h
  cases stmt with
  | insertPrices rows =>
    simp only [Statement.effect]
    cases bindRows env rows with
    | error e => exact .inl ⟨e, rfl, rfl⟩
    | ok values =>
      refine .inr ⟨_, _, rfl, rfl, hdb, hnow, ?_, hadded⟩
      rw [Machine.insert, Machine.insert, hpending]
  | commit =>
    simp only [Statement.effect]
    rw [hdb, hpending]
    cases m.world.db.insertPrices m.session.pending with
    | error e => exact .inl ⟨e, rfl, rfl⟩
    | ok db =>
      refine .inr ⟨_, _, rfl, rfl, rfl, hnow, rfl, ?_⟩
      simp only [Machine.commit]
      rw [hadded, hdb]
  | _ => exact .inr ⟨_, _, rfl, rfl, hdb, hnow, hpending, hadded⟩

/-- A statement answers alike on the same tables. -/
theorem Statement.exec_sameTables {c c' : Choice} (herror : c.dbError = c'.dbError)
    (hplan : c.plan = c'.plan) {m m' : Machine} (h : m.SameTables m') (stmt : Statement) :
    (stmt.exec env c m).1 = (stmt.exec env c' m').1
      ∧ (stmt.exec env c m).2.SameTables (stmt.exec env c' m').2 := by
  unfold Statement.exec
  rw [← herror, ← hplan, h.db]
  cases c.dbError with
  | some e => exact ⟨rfl, h⟩
  | none =>
    dsimp only
    cases stmt.eval env c.plan m.world.db with
    | error e => exact ⟨rfl, h⟩
    | ok r =>
      rcases Statement.effect_sameTables env h stmt with
        ⟨e, he, he'⟩ | ⟨n, n', hn, hn', hsame⟩
      · rw [he, he']
        exact ⟨rfl, h⟩
      · rw [hn, hn']
        exact ⟨rfl, hsame⟩

/-- A program of statements runs alike on the same tables, when the database decides alike. -/
theorem go_statements {α : Type} {choices choices' : Nat → Choice}
    (hchoices : SameDatabase choices choices') {p : Svc α} (hp : p.Only StatementCall)
    {m m' : Machine} (n : Nat) (h : m.SameTables m') :
    (p.go env choices (m, n)).1 = (p.go env choices' (m', n)).1
      ∧ (p.go env choices (m, n)).2.1.SameTables (p.go env choices' (m', n)).2.1 := by
  have hstep (op : Op) (s t : Machine × Nat) (hop : StatementCall op)
      (hst : s.1.SameTables t.1 ∧ s.2 = t.2) :
      (Prog.answer (S := svc) (exec env) choices op s).1
          = (Prog.answer (S := svc) (exec env) choices' op t).1
        ∧ (Prog.answer (S := svc) (exec env) choices op s).2.1.SameTables
            (Prog.answer (S := svc) (exec env) choices' op t).2.1
        ∧ s.2 + 1 = t.2 + 1 := by
    obtain ⟨stmt, rfl⟩ := hop
    obtain ⟨m₁, k⟩ := s
    obtain ⟨m₂, k'⟩ := t
    obtain ⟨hsame, rfl : k = k'⟩ := hst
    obtain ⟨herror, hplan⟩ := hchoices k
    obtain ⟨hans, hdb, hnow, hpending, hadded⟩ :=
      Statement.exec_sameTables env herror hplan hsame stmt
    exact ⟨hans, ⟨hdb, hnow, hpending, hadded⟩, rfl⟩
  have hrun := Prog.run_related hstep hp (s := (m, n)) (t := (m', n)) ⟨h, rfl⟩
  exact ⟨hrun.1, hrun.2.1⟩

end Statements

section Ingest

variable (env : Env) (choices : Nat → Choice)

/-- The pipeline is one call, and ends with a count or without. -/
theorem go_count (key : String) (ex : Int) (s : Machine × Nat) :
    ∃ count s', Svc.go env choices
        (tryCatch (some <$> redis (.incrExpire key ex)) fun _ => pure none) s = (.ok count, s')
      ∧ s'.2 = s.2 + 1 := by
  have hmap : (some <$> redis (.incrExpire key ex) : Svc (Option Int))
      = redis (.incrExpire key ex) >>= fun n => pure (some n) := rfl
  rw [hmap, Svc.go_tryCatch, Svc.go_bind, Svc.go_redis]
  rcases (RedisCmd.incrExpire key ex).exec (choices s.2) s.1 with ⟨e | n, m'⟩
  · exact ⟨none, _, rfl, rfl⟩
  · exact ⟨some n, _, rfl, rfl⟩

/-- The limiter makes two calls, however they fare. -/
theorem go_rateLimit_calls (hwindow : env.settings.rateLimitWindowSeconds ≠ 0)
    (principal : Principal) (s : Machine × Nat) :
    ((rateLimit env principal).go env choices s).2.2 = s.2 + 2 := by
  unfold rateLimit
  dsimp only
  rw [Svc.go_bind, Svc.go_call]
  dsimp only
  rw [if_neg hwindow, Svc.go_bind]
  obtain ⟨count, s', hcount, hcalls⟩ := go_count env choices
    (windowBucket (principal.bucketId env.strHash) (exec env (choices s.2) .time s.1).1
      env.settings.rateLimitWindowSeconds) (env.settings.rateLimitWindowSeconds * 2)
    ((exec env (choices s.2) .time s.1).2, s.2 + 1)
  rw [hcount]
  cases count with
  | none => exact hcalls
  | some n =>
    dsimp only
    split <;> exact hcalls

/-- An invalidation reports a number and leaves the tables alone. -/
theorem go_invalidatePrefix (keyPrefix : String) (s : Machine × Nat) :
    ∃ removed s', (invalidatePrefix keyPrefix).go env choices s = (.ok removed, s')
      ∧ s.1.SameTables s'.1 := by
  have h := Svc.go_of_wp (C := fun _ => True) choices (fun _ => trivial) s.2
    (wp_invalidatePrefix env keyPrefix s.1)
  obtain ⟨⟨removed, hremoved⟩, htables, -⟩ := h
  exact ⟨removed, _, Prod.ext hremoved rfl, htables⟩

/-- An ingest reports what `ingest_prices` reports. -/
theorem go_ingest {payload : List PricePointIn} (hlength : ¬ 5000 < payload.length)
    (s : Machine × Nat) :
    match (ingestPrices payload).go env choices s with
    | (.error e, s₁) => (handle env (.ingest payload)).go env choices s = (.error e, s₁)
    | (.ok (accepted, rejected, errors), s₁) => ∃ invalidated s',
      (handle env (.ingest payload)).go env choices s
          = (.ok ⟨202, .ingest ⟨accepted, rejected, invalidated, errors.take 20⟩, []⟩, s')
        ∧ s₁.1.SameTables s'.1 := by
  rw [handle, Svc.go_bind, ingest, if_neg hlength, Svc.go_bind]
  rcases (ingestPrices payload).go env choices s with ⟨e | ⟨accepted, rejected, errors⟩, s₁⟩
  · rfl
  · obtain ⟨removed, s₂, hremoved, htables⟩ := go_invalidatePrefix env choices "prices:" s₁
    obtain ⟨removed', s₃, hremoved', htables'⟩ := go_invalidatePrefix env choices "index:" s₂
    refine ⟨removed + removed', s₃, ?_, htables.trans htables'⟩
    dsimp only
    rw [Svc.go_bind, hremoved]
    dsimp only
    rw [Svc.go_bind, hremoved']
    rfl

/-- **An ingest** stores and reports the same, whatever Redis does. -/
theorem go_ingest_same {choices' : Nat → Choice} (hchoices : SameDatabase choices choices')
    (payload : List PricePointIn) {m m' : Machine} (n : Nat) (h : m.SameTables m') :
    SameReport ((handle env (.ingest payload)).go env choices (m, n)).1
        ((handle env (.ingest payload)).go env choices' (m', n)).1
      ∧ ((handle env (.ingest payload)).go env choices (m, n)).2.1.SameTables
          ((handle env (.ingest payload)).go env choices' (m', n)).2.1 := by
  by_cases hlength : 5000 < payload.length
  · have hraise (choices : Nat → Choice) (m : Machine) :
        (handle env (.ingest payload)).go env choices (m, n)
          = (.error (.http 413 "Batch limit is 5000 observations." []), (m, n)) := by
      rw [handle, Svc.go_bind, ingest, if_pos hlength]
      rfl
    rw [hraise choices, hraise choices']
    exact ⟨.raised _, h⟩
  -- `ingest_prices` makes statements only, so it ends alike; the invalidations after it only count
  · have hsame := go_statements env hchoices (only_ingestPrices payload) n h
    have hone := go_ingest env choices hlength (m, n)
    have htwo := go_ingest env choices' hlength (m', n)
    rcases hrun : (ingestPrices payload).go env choices (m, n) with
      ⟨e | ⟨accepted, rejected, errors⟩, s₁⟩
    · rw [hrun] at hsame hone
      rcases hrun' : (ingestPrices payload).go env choices' (m', n) with ⟨e' | result, s₁'⟩
      · rw [hrun'] at hsame htwo
        cases hsame.1
        rw [hone, htwo]
        exact ⟨.raised e, hsame.2⟩
      · rw [hrun'] at hsame
        cases hsame.1
    · rw [hrun] at hsame hone
      rcases hrun' : (ingestPrices payload).go env choices' (m', n) with ⟨e' | result, s₁'⟩
      · rw [hrun'] at hsame
        cases hsame.1
      · rw [hrun'] at hsame htwo
        cases hsame.1
        obtain ⟨invalidated, s₂, hgo, htables⟩ := hone
        obtain ⟨invalidated', s₂', hgo', htables'⟩ := htwo
        rw [hgo, hgo']
        exact ⟨.reported _ _ _ _ _, htables.symm.trans (hsame.2.trans htables')⟩

end Ingest

/-! ## Requests -/

/-- What a request does, whatever becomes of its Redis commands. -/
structure WithstandsRedis (env : Env) (choices : Nat → Choice) (req : Request) (w : World) :
    Prop where
  contained : ∀ e, (served env choices req w).1 ≠ .error (.redis e)
  refused : (respond (served env choices req w).1).status = 429 → ∃ key ex count,
    ⟨.redis (.incrExpire key ex), .ok count⟩ ∈ (served env choices req w).2.session.log
      ∧ env.settings.rateLimitRequests < count
  prices : ∀ q id gpu, req.route = .gpuPrices q → Integer.ofInt? q.gpuId = some id →
    w.db.gpuModel? id = some gpu → (respond (served env choices req w).1).status ≠ 429 →
    ¬ (served env choices req w).2.DbFailed → ∃ rows,
      RowsAnswered env (pricesKey q) (pricesSelected env q) storedLatest w
          (served env choices req w).2.session.log rows
        ∧ (served env choices req w).1 = .ok ⟨200, .summary (summaryOf gpu.modelName.val rows), []⟩
  index : ∀ q, req.route = .workloadIndex q →
    (respond (served env choices req w).1).status ≠ 429 →
    ¬ (served env choices req w).2.DbFailed → ∃ rows,
      RowsAnswered env (indexKey q) (indexSelected env q) indexJson w
          (served env choices req w).2.session.log rows
        ∧ (served env choices req w).1 = .ok ⟨200, .index (pageOf rows), []⟩
  ingest : ∀ payload, req.route = .ingest payload → ∀ healthy : Nat → Choice,
    (∀ n, (healthy n).fault = .none) → SameDatabase choices healthy →
    (respond (served env choices req w).1).status ≠ 429 →
    (respond (served env healthy req w).1).status ≠ 429 →
    SameReport (served env choices req w).1 (served env healthy req w).1
      ∧ (served env choices req w).2.world.db = (served env healthy req w).2.world.db

section Requests

variable {env : Env} {req : Request} {w : World} {choices : Nat → Choice}

theorem respond_tooManyRequests :
    (respond (.error (tooManyRequests env.settings))).status = 429 := rfl

/-- The limiter leaves a machine ready for a read through the cache. -/
theorem ready_of_limiter (key : String) {m₁ : Machine} (hsound : env.Sound w)
    (hcache : CacheWritten env w) (htables : (⟨w, {}⟩ : Machine).SameTables m₁)
    (hsame : (⟨w, {}⟩ : Machine).SameCache m₁) (hlog : (⟨w, {}⟩ : Machine).Logs LimiterCall m₁) :
    m₁.Ready env key := by
  have hready : (⟨w, {}⟩ : Machine).Ready env key :=
    ⟨hsound, hcache, fun _ h => absurd h List.not_mem_nil, rfl⟩
  refine hready.of_logs htables
    (hcache.of_sameCache (m := ⟨w, {}⟩) (writtenEntry_counter env) hsame htables.now) hlog ?_
  rintro op h
  refine ⟨?_, not_selectsRows_limiter op h⟩
  rcases h with rfl | ⟨_, _, -, rfl⟩
  · exact fun h => nomatch h
  · exact fun h => nomatch h

/-- What was answered after the limiter was answered in the world. -/
theorem RowsAnswered.of_limiter {ρ : Type} {key : String} {c : Char}
    {select : Instant → Database → Plan → Except Exn (List ρ)} {stored : List ρ → Json}
    {m₁ : Machine} {log : List Event} {rows : List ρ} (hkey : key.toList.head? = some c)
    (hc : c ≠ 'r') (htables : (⟨w, {}⟩ : Machine).SameTables m₁)
    (hsame : (⟨w, {}⟩ : Machine).SameCache m₁)
    (h : RowsAnswered env key select stored m₁.world log rows) :
    RowsAnswered env key select stored w log rows := by
  have hcounter : hasPrefix "rl:" key = false := by
    by_contra hp
    rw [Bool.not_eq_false] at hp
    rw [hasPrefix_head (c := 'r') hp rfl] at hkey
    exact hc (Option.some.inj hkey).symm
  cases h with
  | stored entry decoded got runs =>
    rw [hsame.peek _ key hcounter, htables.now] at entry
    exact .stored entry decoded got runs
  | fresh selected runs =>
    rw [htables.now, htables.db] at selected
    exact .fresh selected runs

theorem served_contained :
    (∀ e, (served env choices req w).1 ≠ .error (.redis e))
      ∧ ((respond (served env choices req w).1).status = 429 → ∃ key ex count,
        ⟨.redis (.incrExpire key ex), .ok count⟩ ∈ (served env choices req w).2.session.log
          ∧ env.settings.rateLimitRequests < count) := by
  have h := served_of_handle env req w choices
    fun m₁ _ _ _ => wp_handle_contained env req.route m₁
  generalize served env choices req w = run at h
  obtain ⟨r, m'⟩ := run
  cases h with
  | unauthorized _ => exact ⟨(fun e h => nomatch h), fun h => nomatch h⟩
  | refused _ counted exceeded => exact ⟨(fun e h => nomatch h),
      fun _ => ⟨_, _, _, counted, exceeded⟩⟩
  | noWindow _ _ => exact ⟨(fun e h => nomatch h), fun h => nomatch h⟩
  | admitted _ _ _ handled =>
    exact ⟨fun e he => handled.mild _ he, fun h => absurd h handled.status⟩

/-- A request is answered with rows, if its route is once the limiter has let it through. -/
theorem served_rows {ρ : Type} {key : String} {first : Char}
    {select : Instant → Database → Plan → Except Exn (List ρ)} {stored : List ρ → Json}
    (response : List ρ → Response) (hkey : ValidKey env req) (hsound : env.Sound w)
    (hcache : CacheWritten env w) (hwindow : env.settings.rateLimitWindowSeconds ≠ 0)
    (hfirst : key.toList.head? = some first) (hcounter : first ≠ 'r')
    (hhandle : ∀ m₁, m₁.Ready env key → m₁.world.db = w.db →
      Svc.wp env (fun _ => True) (handle env req.route) (fun r m' => ¬ m'.DbFailed → ∃ rows,
        RowsAnswered env key select stored m₁.world m'.session.log rows
          ∧ r = .ok (response rows)) m₁)
    (hstatus : (respond (served env choices req w).1).status ≠ 429)
    (hdb : ¬ (served env choices req w).2.DbFailed) :
    ∃ rows, RowsAnswered env key select stored w (served env choices req w).2.session.log rows
      ∧ (served env choices req w).1 = .ok (response rows) := by
  have h := served_of_handle env req w choices fun m₁ htables hsame hlog =>
    hhandle m₁ (ready_of_limiter key hsound hcache htables hsame hlog) htables.db
  generalize served env choices req w = run at h hstatus hdb ⊢
  obtain ⟨r, m'⟩ := run
  cases h with
  | unauthorized invalid => exact absurd hkey invalid
  | refused _ _ _ => exact absurd respond_tooManyRequests hstatus
  | noWindow _ zero => exact absurd zero hwindow
  | admitted htables hsame _ handled =>
    obtain ⟨rows, hrows, hr⟩ := handled hdb
    exact ⟨rows, hrows.of_limiter hfirst hcounter htables hsame, hr⟩

theorem served_prices (hkey : ValidKey env req) (hsound : env.Sound w)
    (hcache : CacheWritten env w) (hwindow : env.settings.rateLimitWindowSeconds ≠ 0)
    {q : PricesQuery} {id : Integer} {gpu : GpuModel} (hroute : req.route = .gpuPrices q)
    (hid : Integer.ofInt? q.gpuId = some id) (hgpu : w.db.gpuModel? id = some gpu)
    (hstatus : (respond (served env choices req w).1).status ≠ 429)
    (hdb : ¬ (served env choices req w).2.DbFailed) :
    ∃ rows, RowsAnswered env (pricesKey q) (pricesSelected env q) storedLatest w
        (served env choices req w).2.session.log rows
      ∧ (served env choices req w).1
          = .ok ⟨200, .summary (summaryOf gpu.modelName.val rows), []⟩ := by
  refine served_rows (fun rows => ⟨200, .summary (summaryOf gpu.modelName.val rows), []⟩)
    hkey hsound hcache hwindow (hasPrefix_head (hasPrefix_pricesKey q) rfl) (by decide)
    (fun m₁ hready hdb₁ => ?_) hstatus hdb
  rw [← hdb₁] at hgpu
  rw [hroute, handle]
  refine Svc.wp_seq (wp_gpuPrices_answered hready hid hgpu) (fun summary m' h hdb => ?_)
    (fun e m' h hdb => ?_)
  · obtain ⟨rows, hrows, hsummary⟩ := h hdb
    exact ⟨rows, hrows, by rw [Except.ok.inj hsummary]⟩
  · obtain ⟨_, _, hr⟩ := h hdb
    cases hr

theorem served_index (hkey : ValidKey env req) (hsound : env.Sound w)
    (hcache : CacheWritten env w) (hwindow : env.settings.rateLimitWindowSeconds ≠ 0)
    {q : IndexQuery} (hroute : req.route = .workloadIndex q)
    (hstatus : (respond (served env choices req w).1).status ≠ 429)
    (hdb : ¬ (served env choices req w).2.DbFailed) :
    ∃ rows, RowsAnswered env (indexKey q) (indexSelected env q) indexJson w
        (served env choices req w).2.session.log rows
      ∧ (served env choices req w).1 = .ok ⟨200, .index (pageOf rows), []⟩ := by
  refine served_rows (fun rows => ⟨200, .index (pageOf rows), []⟩) hkey hsound hcache hwindow
    (hasPrefix_head (hasPrefix_indexKey q) rfl) (by decide) (fun m₁ hready _ => ?_)
    hstatus hdb
  rw [hroute, handle]
  refine Svc.wp_seq (wp_workloadIndex q m₁) (fun page m' h hdb => ?_) (fun e m' h hdb => ?_)
  · obtain ⟨rows, hrows, hpage⟩ := indexRoute_answered hready h hdb
    exact ⟨rows, hrows, by rw [Except.ok.inj hpage]⟩
  · obtain ⟨_, _, hr⟩ := indexRoute_answered hready h hdb
    cases hr

/-- A request that is not refused goes on, after two calls, from tables that are as before. -/
theorem go_admitted (hkey : ValidKey env req) (hwindow : env.settings.rateLimitWindowSeconds ≠ 0)
    (choices : Nat → Choice) (m : Machine)
    (hstatus : (respond (runSvc env choices (serveRequest env req) m).1).status ≠ 429) :
    ∃ m₁, m.SameTables m₁ ∧ (serveRequest env req).go env choices (m, 0)
      = (handle env req.route).go env choices (m₁, 2) := by
  obtain ⟨key, hkey, hreq⟩ := hkey
  have hlimit := Svc.go_of_wp (C := fun _ => True) choices (fun _ => trivial) 0
    (wp_rateLimit env ⟨key⟩ m)
  have hcalls := go_rateLimit_calls env choices hwindow ⟨key⟩ (m, 0)
  have hgo : (serveRequest env req).go env choices (m, 0)
      = ((rateLimit env ⟨key⟩) >>= fun _ => handle env req.route).go env choices (m, 0) := by
    unfold serveRequest
    rw [hreq, requireApiKey_eq hkey, pure_bind]
  rw [runSvc, hgo, Svc.go_bind] at hstatus
  rw [hgo, Svc.go_bind]
  generalize (rateLimit env ⟨key⟩).go env choices (m, 0) = run at hlimit hcalls hstatus ⊢
  obtain ⟨r, m₁, n⟩ := run
  obtain ⟨hlimited, htables, -⟩ := hlimit
  dsimp only at hcalls hlimited htables
  subst hcalls
  cases hlimited with
  | refused _ _ => exact absurd respond_tooManyRequests hstatus
  | noWindow zero => exact absurd zero hwindow
  | admitted => exact ⟨m₁, htables, rfl⟩

theorem served_ingest (hkey : ValidKey env req)
    (hwindow : env.settings.rateLimitWindowSeconds ≠ 0) {payload : List PricePointIn}
    (hroute : req.route = .ingest payload) {choices' : Nat → Choice}
    (hchoices : SameDatabase choices choices')
    (hstatus : (respond (served env choices req w).1).status ≠ 429)
    (hstatus' : (respond (served env choices' req w).1).status ≠ 429) :
    SameReport (served env choices req w).1 (served env choices' req w).1
      ∧ (served env choices req w).2.world.db = (served env choices' req w).2.world.db := by
  obtain ⟨m₁, htables, hgo⟩ := go_admitted hkey hwindow choices ⟨w, {}⟩ hstatus
  obtain ⟨m₁', htables', hgo'⟩ := go_admitted hkey hwindow choices' ⟨w, {}⟩ hstatus'
  have hsame := go_ingest_same env choices hchoices payload 2 (htables.symm.trans htables')
  rw [hroute] at hgo hgo'
  rw [served, served, runSvc, runSvc, hgo, hgo']
  exact ⟨hsame.1, hsame.2.db.symm⟩

end Requests

/-- **Redis never fails a request**: whatever becomes of its commands, no Redis error comes out, a
    refusal was counted, a read answers with the stored rows or with freshly selected ones, and an
    ingest stores and reports what it does on a healthy Redis. -/
theorem redis_failure_never_fails (env : Env) (choices : Nat → Choice) (req : Request) (w : World)
    (hkey : ValidKey env req) (hsound : env.Sound w) (hcache : CacheWritten env w)
    (hwindow : env.settings.rateLimitWindowSeconds ≠ 0) : WithstandsRedis env choices req w where
  contained := served_contained.1
  refused := served_contained.2
  prices _ _ _ hroute hid hgpu hstatus hdb :=
    served_prices hkey hsound hcache hwindow hroute hid hgpu hstatus hdb
  index _ hroute hstatus hdb := served_index hkey hsound hcache hwindow hroute hstatus hdb
  ingest _ hroute _ _ hchoices hstatus hstatus' :=
    served_ingest hkey hwindow hroute hchoices hstatus hstatus'

/-- A Redis that answers nothing. -/
def refusing : Nat → Choice := fun _ => { Choice.calm with fault := .refused }

theorem redis_failure_never_fails_tiny :
    WithstandsRedis env refusing ⟨some "local-dev-key", .gpuPrices (pricesOfOne none)⟩
      (worldOf tinyDb) :=
  redis_failure_never_fails _ _ _ _ ⟨"local-dev-key", by decide, rfl⟩ (sound_worldOf tinyDb)
    (cacheWritten_empty _ rfl) (by decide)

end GpuIndex
