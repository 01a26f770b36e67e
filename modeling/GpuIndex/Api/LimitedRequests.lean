/-
  The limit of a key, over the whole service.

  `Core.SharedLimiter` runs the limiter alone and takes it for granted that the rest of the service
  leaves the counters alone.  Here the requests are whole: SPECIFICATION (`limit_before_data`): in
  every run of them, however their handlers interleave, at most `rate_limit_requests` requests of a
  key and a window reach the tables or the cache.

  The crux is that a run of whole requests, seen by the limiter, is a run of the limiter
  (`Traffic.follows_run`): once a request has been counted it makes no other call of the limiter and
  spares the counters (`sparing_serveRequest`), so it belongs to the outside.
-/
import GpuIndex.Api.GatedCalls
import GpuIndex.Api.HandlerCalls
import GpuIndex.Core.CounterLife
import GpuIndex.Lib.PoolFront

namespace GpuIndex

open ExpiringStore Trace

/-! ## What spares the counters -/

/-- The counters of the limiter and the time are as before. -/
structure Machine.SparesCounters (m m' : Machine) : Prop where
  now : m'.world.now = m.world.now
  peek : ∀ now key, hasPrefix "rl:" key = true →
    m'.world.redis.peek now key = m.world.redis.peek now key

/-- The request has been counted. -/
def HasBumped (log : List Event) : Prop :=
  ∃ key ex ans, (⟨.redis (.incrExpire key ex), ans⟩ : Event) ∈ log

/-- The call is none of the limiter, and writes to none of its keys. -/
structure SparingCall (op : Op) : Prop where
  time : op ≠ .time
  incr : ∀ key ex, op ≠ .redis (.incrExpire key ex)
  set : ∀ key value ex, op = .redis (.set key value ex) → hasPrefix "rl:" key = false
  delete : ∀ key, op = .redis (.delete key) → hasPrefix "rl:" key = false

/-- What every call of a request promises: once it has been counted, the call is none of the limiter
    and spares the counters. -/
def Sparing (m m' : Machine) : Prop :=
  ∃ e : Event, m'.session.log = e :: m.session.log
    ∧ (HasBumped m.session.log → ¬ LimiterCall e.op ∧ m.SparesCounters m')

section Sparing

variable {env : Env} {m : Machine} {op : Op}

theorem SparingCall.limiter (h : SparingCall op) : ¬ LimiterCall op := by
  rintro (rfl | ⟨key, ex, -, rfl⟩)
  · exact h.time rfl
  · exact h.incr key ex rfl

theorem sparingCall_bump (stat : Stat) : SparingCall (.bump stat) :=
  ⟨nofun, nofun, nofun, nofun⟩

theorem sparingCall_scan (cursor : Nat) (keyPrefix : String) :
    SparingCall (.redis (.scan cursor keyPrefix)) :=
  ⟨nofun, nofun, nofun, nofun⟩

theorem sparingCall_delete {key : String} (hkey : hasPrefix "rl:" key = false) :
    SparingCall (.redis (.delete key)) := by
  refine ⟨nofun, nofun, nofun, fun key' h => ?_⟩
  cases h
  exact hkey

/-- A command on another key. -/
theorem serve_sparesCounters {c : Choice} {cmd : RedisCmd} (hop : SparingCall (.redis cmd))
    (m : Machine) : m.SparesCounters (cmd.serve c m).2 := by
  have hne {key key' : String} (hkey : hasPrefix "rl:" key = false)
      (hkey' : hasPrefix "rl:" key' = true) : key' ≠ key := by
    rintro rfl
    exact Bool.noConfusion (hkey.symm.trans hkey')
  cases cmd with
  | get key =>
    simp only [RedisCmd.serve]
    split
    · exact ⟨rfl, fun _ _ _ => rfl⟩
    · exact ⟨rfl, fun _ _ _ => rfl⟩
  | set key value ex =>
    simp only [RedisCmd.serve]
    split
    · exact ⟨rfl, fun _ _ _ => rfl⟩
    · exact ⟨rfl, fun now key' h => peek_put_ne _ _ _ _ (hne (hop.set key value ex rfl) h)⟩
  | incrExpire key ex => exact absurd rfl (hop.incr key ex)
  | scan cursor keyPrefix => exact ⟨rfl, fun _ _ _ => rfl⟩
  | delete key => exact ⟨rfl, fun now key' h => peek_remove_ne _ (hne (hop.delete key rfl) h)⟩

theorem exec_sparesCounters {c : Choice} (hop : SparingCall op) (m : Machine) :
    m.SparesCounters (exec env c op m).2 := by
  cases op with
  | time => exact ⟨rfl, fun _ _ _ => rfl⟩
  | now => exact ⟨rfl, fun _ _ _ => rfl⟩
  | bump stat => exact ⟨rfl, fun _ _ _ => rfl⟩
  | redis cmd =>
    have hcmd : m.SparesCounters (cmd.exec c m).2 := by
      unfold RedisCmd.exec
      split
      · exact serve_sparesCounters hop m
      · exact ⟨rfl, fun _ _ _ => rfl⟩
      · exact serve_sparesCounters hop m
    exact ⟨hcmd.now, hcmd.peek⟩
  | db stmt =>
    have hnow : (stmt.exec env c m).2.world.now = m.world.now :=
      stmt.exec_frame (·.world.now) env c m rfl (fun _ => rfl) fun _ => rfl
    have hredis : (stmt.exec env c m).2.world.redis = m.world.redis :=
      stmt.exec_frame (·.world.redis) env c m rfl (fun _ => rfl) fun _ => rfl
    exact ⟨hnow, fun now key _ => congrArg (fun r : Redis => r.peek now key) hredis⟩

/-- A call that spares the counters keeps the promise. -/
theorem exec_sparing {c : Choice} (hop : SparingCall op) (m : Machine) :
    Sparing m (exec env c op m).2 :=
  ⟨_, exec_log env c op m, fun _ => ⟨hop.limiter, exec_sparesCounters hop m⟩⟩

/-- Every call of the program keeps the promise, however the world moves. -/
abbrev Svc.sparing {α : Type} (env : Env) (p : Svc α) (Q : Except Exn α → Machine → Prop)
    (m : Machine) : Prop :=
  Svc.complies env (fun _ _ _ => True) (fun _ _ => True) Sparing p Q m

/-- A program of such calls. -/
theorem sparing_of_only {α : Type} {p : Svc α} (hp : p.Only SparingCall) (m : Machine) :
    Svc.sparing env p (fun _ _ => True) m :=
  Svc.complies_of_only (P := fun _ => True) (fun _ _ _ _ => trivial)
    (fun _ _ m _ hop _ => ⟨exec_sparing hop m, trivial⟩) hp trivial

/-! ## An invalidation -/

/-- The same of a program that cannot raise, and of how it leaves the session. -/
abbrev SparingProg {α : Type} (env : Env) (p : Prog svc α) (Q : α → Session → Prop) (m : Machine) :
    Prop :=
  Pool.Complies (S := svc) (fun _ _ _ _ => True) (handler env) (fun _ _ => True)
    (fun x y => Sparing ⟨x.1, x.2⟩ ⟨y.1, y.2⟩) (fun a _ l => Q a l) p m.world m.session

/-- A command that is answered, or fails. -/
theorem sparing_redis {cmd : RedisCmd} (hop : SparingCall (.redis cmd))
    {Q : Except Exn cmd.Reply → Session → Prop}
    (hQ : ∀ c w, Q ((cmd.exec c (m.inWorld w)).1.mapError Exn.redis)
      ((cmd.exec c (m.inWorld w)).2.record (.redis cmd) (cmd.exec c (m.inWorld w)).1).session) :
    SparingProg env (redis cmd).run Q m := by
  intro w _ c _
  have hw := hQ c w
  refine ⟨exec_sparing hop (m.inWorld w), ?_⟩
  simp only [handler, exec, perform]
  unfold Machine.inWorld at hw
  generalize cmd.exec c ⟨w, m.session⟩ = answer at hw
  rcases answer with ⟨e | r, m'⟩
  · exact fun w' _ => hw
  · exact fun w' _ => hw

/-- Keys of another prefix are deleted. -/
theorem sparing_deleteKeys (keys : List String) (hkeys : ∀ key ∈ keys, hasPrefix "rl:" key = false)
    (removed : Nat) (m : Machine) :
    SparingProg env (deleteKeys keys removed) (fun _ l => l.owed = m.session.owed) m := by
  induction keys generalizing removed m with
  | nil => exact fun _ _ => rfl
  | cons key keys ih =>
    obtain ⟨hkey, hrest⟩ := List.forall_mem_cons.mp hkeys
    have hdelete : SparingProg env (redis (.delete key)).run
        (fun _ l => l.owed = m.session.owed) m :=
      sparing_redis (sparingCall_delete hkey) fun c w => by
        unfold RedisCmd.exec
        split <;> rfl
    refine Pool.complies_bind hdelete fun r w l h => ?_
    have howed : l.owed = m.session.owed := h w trivial
    cases r with
    | error e => exact fun _ _ => howed
    | ok r =>
      exact Pool.complies_mono (ih hrest (removed + 1) ⟨w, l⟩) fun _ _ _ h' => h'.trans howed

variable {keyPrefix : String}

/-- One batch of a prefix that is not the limiter's. -/
theorem sparing_scanThen (hother : ∀ key, hasPrefix keyPrefix key = true →
    hasPrefix "rl:" key = false)
    {cursor removed : Nat} {next : Nat → Nat → Prog svc Removal}
    (howed : cursor = 0 ∨ m.OwesUnder keyPrefix)
    (hnext : ∀ after removed m', m'.OwesUnder keyPrefix →
      SparingProg env (next after removed) (fun _ _ => True) m') :
    SparingProg env (scanThen keyPrefix cursor removed next) (fun _ _ => True) m := by
  have hscan : SparingProg env (redis (.scan cursor keyPrefix)).run (fun r l =>
      ∀ after keys, r = .ok (after, keys) → (∀ key ∈ keys, hasPrefix keyPrefix key = true)
        ∧ ∀ o ∈ l.owed, hasPrefix keyPrefix o.1 = true) m := by
    refine sparing_redis (sparingCall_scan cursor keyPrefix) fun c w after keys hreply => ?_
    have hunder := scanBatch_under c w.redis w.now.us howed
    cases hfault : c.fault with
    | none =>
      simp only [RedisCmd.exec, hfault, RedisCmd.serve] at hreply ⊢
      obtain ⟨-, rfl⟩ := Prod.mk.inj (Except.ok.inj hreply)
      exact hunder
    | refused =>
      simp only [RedisCmd.exec, hfault] at hreply
      cases hreply
    | lost =>
      simp only [RedisCmd.exec, hfault] at hreply
      cases hreply
  refine Pool.complies_bind hscan fun r w l h => ?_
  rcases r with e | ⟨after, keys⟩
  · exact fun _ _ => trivial
  · obtain ⟨hkeys, howed₁⟩ := h w trivial after keys rfl
    refine Pool.complies_bind (sparing_deleteKeys keys (fun key hkey => hother key (hkeys key hkey))
      removed ⟨w, l⟩) fun r w₂ l₂ h₂ => ?_
    rcases r with ⟨e | _, n⟩
    · exact fun _ _ => trivial
    · refine hnext after n ⟨w₂, l₂⟩ fun o ho => howed₁ o ?_
      rwa [show l₂.owed = l.owed from h₂ w₂ trivial] at ho

theorem sparing_scanRest (hother : ∀ key, hasPrefix keyPrefix key = true →
    hasPrefix "rl:" key = false)
    {cursor removed : Nat} (howed : m.OwesUnder keyPrefix) :
    SparingProg env (scanRest keyPrefix cursor removed) (fun _ _ => True) m := by
  induction cursor generalizing removed m with
  | zero => exact fun _ _ => trivial
  | succ cursor ih => exact sparing_scanThen hother (.inr howed) fun _ _ _ h => ih h

/-- **An invalidation** of a prefix that is not the limiter's spares the counters, though it deletes
    whatever a SCAN reports. -/
theorem sparing_invalidatePrefix
    (hother : ∀ key, hasPrefix keyPrefix key = true → hasPrefix "rl:" key = false) (m : Machine) :
    Svc.sparing env (invalidatePrefix keyPrefix) (fun _ _ => True) m := by
  have hscan : SparingProg env (scanDelete keyPrefix) (fun _ _ => True) m :=
    sparing_scanThen hother (.inl rfl) fun _ _ _ h => sparing_scanRest hother h
  have hlift :
      Svc.sparing env (ExceptT.lift (scanDelete keyPrefix)) (fun r _ => ∃ a, r = .ok a) m :=
    Pool.complies_bind hscan fun a _ _ _ _ _ => ⟨a, rfl⟩
  refine Svc.complies_seq hlift (fun r m₁ _ => sparing_of_only ?_ m₁) fun _ _ _ => trivial
  rcases r with ⟨e | _, removed⟩
  · exact Svc.only_bind (Svc.only_call (sparingCall_bump _)) fun _ => Svc.only_pure
  · exact Svc.only_pure

/-! ## A request -/

theorem sparingCall_of_statementCall (op : Op) (h : StatementCall op) : SparingCall op := by
  obtain ⟨stmt, rfl⟩ := h
  exact ⟨nofun, nofun, nofun, nofun⟩

theorem sparingCall_of_queryCall (op : Op) (h : QueryCall op) : SparingCall op :=
  sparingCall_of_statementCall op (statementCall_of_queryCall op h)

/-- A key that begins otherwise is none of the limiter's. -/
theorem not_limiter_of_head {keyPrefix key : String} {c : Char}
    (hhead : keyPrefix.toList.head? = some c) (hne : c ≠ 'r')
    (h : hasPrefix keyPrefix key = true) : hasPrefix "rl:" key = false := by
  refine Bool.eq_false_iff.mpr fun hlimiter => hne ?_
  have hr := (hasPrefix_head hlimiter rfl).symm.trans (hasPrefix_head h hhead)
  exact (Option.some.inj hr).symm

/-- A read through the cache under such a key. -/
theorem only_readThrough_sparing {key : String} {producer : Svc Json}
    (hkey : hasPrefix "rl:" key = false) (hproducer : producer.Only SparingCall) :
    (readThrough env key producer none).Only SparingCall := by
  refine only_readThrough_of ⟨nofun, nofun, nofun, nofun⟩ (fun value ex => ?_) sparingCall_bump
    hproducer
  refine ⟨nofun, nofun, fun key' value' ex' h => ?_, nofun⟩
  cases h
  exact hkey

/-- **A handler** spares the counters, whatever it calls. -/
theorem sparing_handle (env : Env) (route : Route) (m : Machine) :
    Svc.sparing env (handle env route) (fun _ _ => True) m := by
  have hquery := sparingCall_of_queryCall
  have hnow : SparingCall .now := ⟨nofun, nofun, nofun, nofun⟩
  cases route with
  | listGpus q =>
    exact sparing_of_only (Svc.only_bind ((only_listGpus q).mono hquery) fun _ => Svc.only_pure) m
  | gpuPriceHistory q =>
    exact sparing_of_only
      (Svc.only_bind ((only_gpuPriceHistory env q).mono hquery) fun _ => Svc.only_pure) m
  | gpuBenchmarks q =>
    exact sparing_of_only
      (Svc.only_bind ((only_gpuBenchmarks env q).mono hquery) fun _ => Svc.only_pure) m
  | gpuPrices q =>
    have hkey := not_limiter_of_head (c := 'p') rfl (by decide) (hasPrefix_pricesKey q)
    refine sparing_of_only (Svc.only_bind (Svc.only_bind ((only_loadGpu _).mono hquery) fun _ => ?_)
      fun _ => Svc.only_pure) m
    exact Svc.only_bind (only_readThrough_sparing hkey (only_producePrices_of hnow hquery q))
      fun _ => only_ofExcept _ _
  | workloadIndex q =>
    have hkey := not_limiter_of_head (c := 'i') rfl (by decide) (hasPrefix_indexKey q)
    refine sparing_of_only (Svc.only_bind (Svc.only_bind ?_ fun _ => only_ofExcept _ _)
      fun _ => Svc.only_pure) m
    exact only_readThrough_sparing hkey (only_produceIndex_of hnow hquery q)
  | ingest payload =>
    have hdone {α : Type} {a : α} (m : Machine) : Svc.sparing env (pure a) (fun _ _ => True) m :=
      fun _ _ => trivial
    have hdrop (keyPrefix : String) {c : Char} (hhead : keyPrefix.toList.head? = some c)
        (hne : c ≠ 'r') (m : Machine) :
        Svc.sparing env (invalidatePrefix keyPrefix) (fun _ _ => True) m :=
      sparing_invalidatePrefix (fun _ h => not_limiter_of_head hhead hne h) m
    have hingest : Svc.sparing env (ingest payload) (fun _ _ => True) m := by
      unfold ingest
      by_cases hlimit : 5000 < payload.length
      · rw [if_pos hlimit]
        exact fun _ _ => trivial
      · rw [if_neg hlimit]
        refine Svc.complies_seq (sparing_of_only ((only_ingestPrices payload).mono
          sparingCall_of_statementCall) m) (fun _ m₁ _ => ?_) fun _ _ _ => trivial
        refine Svc.complies_seq (hdrop "prices:" (c := 'p') rfl (by decide) m₁) (fun _ m₂ _ => ?_)
          fun _ _ _ => trivial
        exact Svc.complies_seq (hdrop "index:" (c := 'i') rfl (by decide) m₂)
          (fun _ m₃ _ => hdone m₃) fun _ _ _ => trivial
    exact Svc.complies_seq hingest (fun _ m₁ _ => hdone m₁) fun _ _ _ => trivial

/-- **A request** keeps the promise, whatever it is and however it ends. -/
theorem sparing_serveRequest (req : Request) (hlog : m.session.log = []) :
    Svc.sparing env (serveRequest env req) (fun _ _ => True) m := by
  unfold serveRequest
  by_cases hvalid : ValidKey env req
  · obtain ⟨key, hkey, hreq⟩ := hvalid
    rw [hreq, requireApiKey_eq hkey, pure_bind]
    have hlimiter := complies_rateLimit (G := Sparing) hkey hreq hlog
      (fun c m h => ⟨_, exec_log env c _ m, fun hb => ?_⟩)
      fun c m time bucket ex h _ => ⟨_, exec_log env c _ m, fun hb => ?_⟩
    · exact Svc.complies_seq hlimiter (fun _ m₁ _ => sparing_handle env req.route m₁)
        fun _ _ _ => trivial
    -- before it is counted the promise asks nothing
    · obtain ⟨_, _, _, hmem⟩ := h ▸ hb
      cases hmem
    · obtain ⟨_, _, _, hmem⟩ := h ▸ hb
      simp at hmem
  · rw [requireApiKey_invalid hvalid]
    exact fun _ _ => trivial

end Sparing

/-! ## What the limiter sees of the service -/

section Seen

variable {ι : Type}

namespace Traffic

/-- The limiter of the requests, alone. -/
def limiter (t : Traffic ι) (settings : Settings) (hsame : ∀ i, (t.env i).settings = settings) :
    Deployment ι ι where
  settings := settings
  process := t.env
  sameSettings := hsame
  server i := i
  principal i := ⟨((t.request i).apiKey).getD ""⟩

/-- What a request does with the verdict. -/
def goOn (t : Traffic ι) (i : ι) : Except Exn Principal → Prog svc (Except Exn Response)
  | .ok _ => (handle (t.env i) (t.request i).route).run
  | .error e => .pure (.error e)

/-- The request has read its clock. -/
def ReadClock (s : Threads ι) (i : ι) (time : Int) : Prop :=
  (⟨.time, time⟩ : Event) ∈ (s.own i).log

/-- A request is counted in the window it has read, or in the next one, by the clock of Redis. -/
def CountedInTime (settings : Settings) (s : Threads ι) : Move ι → Prop
  | .call i _ => ∀ key ex k, s.prog i = .call (.redis (.incrExpire key ex)) k → ∀ time,
      ReadClock s i time → InTime settings.rateLimitWindowSeconds
        (time.fdiv settings.rateLimitWindowSeconds) s.shared.now.us
  | .outside _ => True

/-- What a request does beyond the limiter: calls of its own. -/
def Since (_ : ι) (l l' : Session) : Prop :=
  ∃ events : List Event, l'.log = events ++ l.log ∧ ∀ e ∈ events, ¬ LimiterCall e.op

end Traffic

variable {t : Traffic ι} {s : Traffic.Threads ι} {f : Deployment.Requests ι} {i : ι}

theorem Traffic.Since.refl (i : ι) (l : Session) : Traffic.Since i l l :=
  ⟨[], rfl, fun _ h => absurd h List.not_mem_nil⟩

/-- What the limiter has on record the request has on record. -/
theorem mem_log_of_follows (hs : Pool.Follows Traffic.Since t.goOn s f) {e : Event}
    (he : e ∈ (f.own i).log) : e ∈ (s.own i).log := by
  cases hs.thread i with
  | together _ own => rwa [own]
  | beyond _ _ _ past =>
    obtain ⟨events, hlog, -⟩ := past
    rw [hlog]
    exact List.mem_append_right events he
  | idle _ _ own => rwa [own]

/-- Before the first call. -/
theorem follows_start {settings : Settings}
    (hsame : ∀ i, (t.env i).settings = settings) (w : World) :
    Pool.Follows Traffic.Since t.goOn (t.start w) ((t.limiter settings hsame).start w) := by
  refine ⟨rfl, fun i => ?_⟩
  by_cases hvalid : ValidKey (t.env i) (t.request i)
  · obtain ⟨key, hkey, hreq⟩ := hvalid
    refine .together ?_ rfl
    show (serveRequest (t.env i) (t.request i)).run
      = (rateLimit (t.env i) ⟨((t.request i).apiKey).getD ""⟩).run >>= t.goOn i
    rw [serveRequest, hreq, requireApiKey_eq hkey, pure_bind, ExceptT.run_bind]
    refine bind_congr fun r => ?_
    cases r <;> rfl
  · refine .idle (.error (.http 401 "Missing or invalid API key." [])) ?_ rfl
    show (serveRequest (t.env i) (t.request i)).run = _
    rw [serveRequest, requireApiKey_invalid hvalid]
    rfl

/-- A request that goes on was let through, and has been counted. -/
theorem admitted_of_live {env : Env} {principal : Principal} {a : Except Exn Principal}
    {log : List Event} (hphase : LimiterPhase env principal (.pure a) log)
    (hlive : ∀ b, t.goOn i a ≠ .pure b) : (∃ p, a = .ok p) ∧ HasBumped log := by
  have hok : ∃ p, a = .ok p := by
    cases a with
    | ok p => exact ⟨p, rfl⟩
    | error e => exact absurd rfl (hlive (.error e))
  obtain ⟨p, rfl⟩ := hok
  refine ⟨⟨p, rfl⟩, ?_⟩
  generalize hprog : (Prog.pure (.ok p) : Prog svc (Except Exn Principal)) = prog at hphase
  cases hphase with
  | begun =>
    rw [rateLimit_run] at hprog
    cases hprog
  | noWindow => cases hprog
  | timed => cases hprog
  | counted time r => exact ⟨_, _, r, List.mem_cons_self⟩

/-- A move of the service: nothing fails, the request is counted in time, and the call keeps its
    promise. -/
structure Traffic.Watched (t : Traffic ι) (settings : Settings) (s : Traffic.Threads ι)
    (m : Traffic.Move ι) : Prop where
  noFailure : Traffic.NoFailure s m
  inTime : Traffic.CountedInTime settings s m
  kept : Pool.Kept (fun i => handler (t.env i))
    (fun _ x y => Sparing ⟨x.1, x.2⟩ ⟨y.1, y.2⟩) s m

/-- A call beyond the limiter is none of its calls, and spares the counters. -/
theorem spares_of_live {d : Deployment ι ι} (hs : Pool.Follows Traffic.Since t.goOn s f)
    (hphase : ∀ i, LimiterPhase (d.env i) (d.principal i) (f.prog i) (f.own i).log) {c : Choice}
    (hm : t.Watched settings s (.call i c)) {op : Op} {r : op.Ans → Prog svc (Except Exn Response)}
    {a : Except Exn Principal} (hq : s.prog i = .call op r) (hp : f.prog i = .pure a)
    (hlive : ∀ b, t.goOn i a ≠ .pure b) :
    ∃ e : Event, (handler (t.env i) c op (s.shared, s.own i)).2.2.log = e :: (s.own i).log
      ∧ ¬ LimiterCall e.op
      ∧ (⟨s.shared, s.own i⟩ : Machine).SparesCounters
        ⟨(handler (t.env i) c op (s.shared, s.own i)).2.1,
          (handler (t.env i) c op (s.shared, s.own i)).2.2⟩ := by
  have hi := hphase i
  rw [hp] at hi
  obtain ⟨key, ex, ans, hbump⟩ := (admitted_of_live hi hlive).2
  obtain ⟨e, hlog, hfree⟩ := hm.kept op r hq
  exact ⟨e, hlog, hfree ⟨key, ex, ans, mem_log_of_follows hs hbump⟩⟩

variable {settings : Settings} {hsame : ∀ i, (t.env i).settings = settings}

/-- What a request does beyond the limiter stays beyond it. -/
theorem goesOn_of_watched (hs : Pool.Follows Traffic.Since t.goOn s f)
    (hphase : ∀ i, LimiterPhase ((t.limiter settings hsame).env i)
      ((t.limiter settings hsame).principal i) (f.prog i) (f.own i).log)
    {m : Traffic.Move ι} (hm : t.Watched settings s m) :
    Pool.GoesOn (fun i => handler (t.env i)) Traffic.Since t.goOn s f m := by
  cases m with
  | outside w => trivial
  | call i c =>
    intro op r a hq hp hlive hpast
    obtain ⟨events, hlog, hevents⟩ := hpast
    obtain ⟨e, hlog', he, -⟩ := spares_of_live hs hphase hm hq hp hlive
    refine ⟨e :: events, ?_, List.forall_mem_cons.mpr ⟨he, hevents⟩⟩
    rw [List.cons_append, ← hlog]
    exact hlog'

/-- The request has made a call that is none of the limiter: it has reached the tables or the
    cache. -/
def Traffic.ReachedData (s : Traffic.Threads ι) (i : ι) : Prop :=
  ∃ e ∈ (s.own i).log, ¬ LimiterCall e.op

/-- The limiter's own record holds its calls only. -/
theorem limiterOnly_of_phase {env : Env} {principal : Principal}
    {prog : Prog svc (Except Exn Principal)} {log : List Event}
    (h : LimiterPhase env principal prog log) : LimiterOnly log := by
  have hbump (time : Int) (ex : Int) : LimiterCall (.redis (.incrExpire
      (windowBucket (principal.bucketId env.strHash) time
        env.settings.rateLimitWindowSeconds) ex)) :=
    .inr ⟨_, ex, hasPrefix_windowBucket env principal time _, rfl⟩
  cases h with
  | begun => exact fun _ h => absurd h List.not_mem_nil
  | noWindow time => exact List.forall_mem_singleton.mpr (.inl rfl)
  | timed time => exact List.forall_mem_singleton.mpr (.inl rfl)
  | counted time r =>
    exact List.forall_mem_cons.mpr ⟨hbump time _, List.forall_mem_singleton.mpr (.inl rfl)⟩

/-- Who has reached the data was let through, and read the clock in the limiter. -/
theorem admitted_of_reachedData {d : Deployment ι ι} (hs : Pool.Follows Traffic.Since t.goOn s f)
    (hphase : LimiterPhase (d.env i) (d.principal i) (f.prog i) (f.own i).log)
    (hreached : Traffic.ReachedData s i) :
    Admitted f i ∧ ∀ time, Traffic.ReadClock s i time → ReadClock f i time := by
  have honly := limiterOnly_of_phase hphase
  obtain ⟨e, he, hdata⟩ := hreached
  cases hs.thread i with
  | together _ own => exact absurd (honly e (own ▸ he)) hdata
  | idle _ _ own => exact absurd (honly e (own ▸ he)) hdata
  | beyond a ended live past =>
    rw [ended] at hphase
    obtain ⟨p, rfl⟩ := (admitted_of_live hphase live).1
    refine ⟨⟨p, ended⟩, fun time hclock => ?_⟩
    obtain ⟨events, hlog, hevents⟩ := past
    unfold Traffic.ReadClock at hclock
    rw [hlog] at hclock
    exact (List.mem_append.mp hclock).resolve_left fun h => hevents _ h (.inl rfl)

/-- A configured key is that of the request. -/
theorem apiKey_of_principal {settings : Settings} {hsame : ∀ i, (t.env i).settings = settings}
    {key : String} (hkey : key ∈ settings.apiKeySet)
    (hi : (t.limiter settings hsame).principal i = ⟨key⟩) : (t.request i).apiKey = some key := by
  have hget : ((t.request i).apiKey).getD "" = key := congrArg Principal.apiKey hi
  cases hreq : (t.request i).apiKey with
  | none =>
    rw [hreq] at hget
    exact absurd hget.symm (ne_empty_of_mem_apiKeySet hkey)
  | some key' =>
    rw [hreq] at hget
    exact congrArg some hget

variable [DecidableEq ι]

/-- **A move of the service**, seen by the limiter: its calls, time, and nothing else. -/
theorem limiter_move (hs : Pool.Follows Traffic.Since t.goOn s f)
    (hphase : ∀ i, LimiterPhase ((t.limiter settings hsame).env i)
      ((t.limiter settings hsame).principal i) (f.prog i) (f.own i).log)
    {m : Traffic.Move ι} (hm : t.Watched settings s m) :
    Deployment.NoFailure f (Pool.frontMove (fun i => handler (t.env i)) s f m)
      ∧ (t.limiter settings hsame).CountedInTime f
        (Pool.frontMove (fun i => handler (t.env i)) s f m) := by
  cases m with
  | outside w =>
    obtain ⟨now, hnow, rfl⟩ := hm.noFailure
    refine ⟨⟨?_, fun at' key _ => ?_⟩, trivial⟩
    · rw [hs.shared]
      exact hnow
    · rw [hs.shared]
  | call i c =>
    cases hq : s.prog i with
    | pure b =>
      have hfront : Pool.frontMove (fun i => handler (t.env i)) s f (.call i c)
          = .outside s.shared := by simp only [Pool.frontMove, Pool.State.step, hq]
      rw [hfront]
      refine ⟨⟨?_, fun at' key _ => ?_⟩, trivial⟩
      · rw [hs.shared]
      · rw [hs.shared]
    | call op r =>
      cases hp : f.prog i with
      | pure a =>
        have hfront : Pool.frontMove (fun i => handler (t.env i)) s f (.call i c)
            = .outside (handler (t.env i) c op (s.shared, s.own i)).2.1 := by
          simp only [Pool.frontMove, Pool.State.step, Pool.State.answer, hq, hp]
        have hlive : ∀ b, t.goOn i a ≠ .pure b := by
          cases hs.thread i with
          | together prog _ =>
            intro b hb
            rw [hp] at prog
            cases (hq.symm.trans prog).trans hb
          | beyond a' ended live _ =>
            obtain rfl := Prog.pure.inj (hp.symm.trans ended)
            exact live
          | idle b ended => cases hq.symm.trans ended
        obtain ⟨e, -, -, hspares⟩ := spares_of_live hs hphase hm hq hp hlive
        rw [hfront]
        refine ⟨⟨?_, fun at' key hkey => ?_⟩, trivial⟩
        · rw [hs.shared, show (handler (t.env i) c op (s.shared, s.own i)).2.1.now = _ from
            hspares.now]
        · rw [hs.shared]
          exact hspares.peek at' key hkey
      | call op' r' =>
        have hfront : Pool.frontMove (fun i => handler (t.env i)) s f (.call i c) = .call i c := by
          simp only [Pool.frontMove, hq, hp]
        have hcall : ∃ r'', s.prog i = .call op' r'' := by
          cases hs.thread i with
          | together prog _ => exact ⟨_, prog.trans (by rw [hp]; rfl)⟩
          | beyond a ended => cases hp.symm.trans ended
          | idle b ended => cases hq.symm.trans ended
        obtain ⟨r'', hcall⟩ := hcall
        rw [hfront]
        refine ⟨hm.noFailure, fun key ex k hk time hclock => ?_⟩
        obtain rfl := (Prog.call.inj (hp.symm.trans hk)).1
        rw [hs.shared]
        exact hm.inTime key ex r'' hcall time (mem_log_of_follows hs hclock)

/-- **The service, seen by the limiter**: a run of whole requests is a run of the limiter. -/
theorem Traffic.follows_run (t : Traffic ι) {settings : Settings}
    (hsame : ∀ i, (t.env i).settings = settings) {w : World} {trace : List (Traffic.Move ι)}
    (htrace : Guarded t.step (t.Watched settings) (t.start w) trace) :
    ∃ seen : List (Deployment.LimiterMove ι),
      Guarded (t.limiter settings hsame).step
        (fun f m => Deployment.NoFailure f m ∧ (t.limiter settings hsame).CountedInTime f m)
        ((t.limiter settings hsame).start w) seen
      ∧ Pool.Follows Traffic.Since t.goOn (t.after w trace)
        (run (t.limiter settings hsame).step ((t.limiter settings hsame).start w) seen) := by
  have hrun := Pool.Follows.run (h := fun i => handler (t.env i)) (t.Watched settings)
    (fun f m => Deployment.NoFailure f m ∧ (t.limiter settings hsame).CountedInTime f m)
    (fun f => ∀ i, LimiterPhase ((t.limiter settings hsame).env i)
      ((t.limiter settings hsame).principal i) (f.prog i) (f.own i).log)
    (follows_start hsame w) Traffic.Since.refl (fun f m hphase hm => phase_step hphase hm.1)
    (fun s f m hs hphase hm => goesOn_of_watched hs hphase hm)
    (fun s f m hs hphase hm => limiter_move hs hphase hm) (fun _ => .begun) htrace
  exact ⟨_, hrun.1, hrun.2⟩

/-- Every call of a run keeps its promise. -/
theorem Traffic.watched (t : Traffic ι) {settings : Settings} {w : World}
    {trace : List (Traffic.Move ι)} (hfailure : Guarded t.step Traffic.NoFailure (t.start w) trace)
    (hinTime : Guarded t.step (Traffic.CountedInTime settings) (t.start w) trace) :
    Guarded t.step (t.Watched settings) (t.start w) trace := by
  have hfit : Pool.Compatible (fun (_ : ι) (_ _ : World) => True)
      (fun (_ : ι) (x y : World × Session) => Sparing ⟨x.1, x.2⟩ ⟨y.1, y.2⟩) :=
    ⟨fun _ _ => trivial, fun _ _ _ _ _ _ => trivial, fun _ _ _ _ _ _ => trivial⟩
  have hstart : Pool.AllComply (fun (_ : ι) (_ : Choice) (_ : Op) (_ : World) (_ : Session) => True)
      (fun i => handler (t.env i)) (fun (_ : ι) (_ _ : World) => True)
      (fun (_ : ι) (x y : World × Session) => Sparing ⟨x.1, x.2⟩ ⟨y.1, y.2⟩)
      (fun _ _ _ _ => True) (t.start w) :=
    fun i => sparing_serveRequest (m := ⟨w, {}⟩) (t.request i) rfl
  exact ((hfailure.and hinTime).and (Pool.kept_run hfit hstart
    (t.allowed_all (t.start w) trace))).imp
    (P := fun _ => True) (fun _ _ _ _ => trivial) (fun _ _ _ hm => ⟨hm.1.1, hm.1.2, hm.2⟩) trivial

/-! ## The limit -/

omit [DecidableEq ι] in
/-- Requests of a key that were let through in one window are within the limit. -/
theorem Deployment.OneCounter.card_le {π : Type} {d : Deployment π ι} {p : Principal}
    (hone : d.OneCounter p f) (hcounting : d.Counting f) (hlimit : 0 ≤ d.settings.rateLimitRequests)
    (window : Int) {admitted : Finset ι}
    (hadmitted : ∀ i ∈ admitted, d.principal i = p ∧ Admitted f i ∧ ∃ time, ReadClock f i time
      ∧ time.fdiv d.settings.rateLimitWindowSeconds = window) :
    (admitted.card : Int) ≤ d.settings.rateLimitRequests := by
  rcases admitted.eq_empty_or_nonempty with rfl | ⟨i₀, hi₀⟩
  · exact hlimit
  · obtain ⟨hp₀, hadm₀, time₀, hclock₀, hwindow₀⟩ := hadmitted i₀ hi₀
    obtain ⟨key₀, hkey₀, hb₀⟩ := Admitted.bumped hcounting hadm₀
    obtain ⟨bumpers, -, -, hbound⟩ := hcounting.tally key₀ hkey₀
    refine hbound admitted fun i hi => ?_
    obtain ⟨hp, hadm, time, hclock, hwindow⟩ := hadmitted i hi
    obtain ⟨key, -, hb⟩ := Admitted.bumped hcounting hadm
    have hkey := hone i i₀ time time₀ key key₀ hp hp₀ hclock hclock₀ (hwindow.trans hwindow₀.symm)
      hb hb₀
    exact ⟨hkey ▸ hb, hadm⟩

/-- **The limit of a key, over the whole service**: in every run of whole requests that are counted
    in time, at most the limit of the requests of a key and a window reach the tables or the cache,
    if their processes give the key one bucket. -/
theorem limit_before_data (t : Traffic ι) (settings : Settings)
    (hsame : ∀ i, (t.env i).settings = settings) (hlimit : 0 ≤ settings.rateLimitRequests)
    (hwidth : 0 < settings.rateLimitWindowSeconds) (key : String) (hkey : key ∈ settings.apiKeySet)
    (hbucket : ∀ i j, (t.request i).apiKey = some key → (t.request j).apiKey = some key →
      Principal.bucketId (t.env i).strHash ⟨key⟩ = Principal.bucketId (t.env j).strHash ⟨key⟩)
    (w : World) (hw : w.CountersOnly) (trace : List (Traffic.Move ι))
    (hfailure : Guarded t.step Traffic.NoFailure (t.start w) trace)
    (hinTime : Guarded t.step (Traffic.CountedInTime settings) (t.start w) trace)
    (window : Int) (reached : Finset ι)
    (hreached : ∀ i ∈ reached, (t.request i).apiKey = some key
      ∧ Traffic.ReachedData (t.after w trace) i
      ∧ ∃ time, Traffic.ReadClock (t.after w trace) i time
        ∧ time.fdiv settings.rateLimitWindowSeconds = window) :
    (reached.card : Int) ≤ settings.rateLimitRequests := by
  obtain ⟨seen, hseen, hfollows⟩ := t.follows_run hsame (t.watched hfailure hinTime)
  -- the limiter's own run bounds those that were let through
  have hquiet : Guarded (t.limiter settings hsame).step Deployment.NoFailure
      ((t.limiter settings hsame).start w) seen :=
    hseen.imp (P := fun _ => True) (fun _ _ _ _ => trivial) (fun _ _ _ hm => hm.1) trivial
  have hpunctual : Guarded (t.limiter settings hsame).step
      (t.limiter settings hsame).CountedInTime ((t.limiter settings hsame).start w) seen :=
    hseen.imp (P := fun _ => True) (fun _ _ _ _ => trivial) (fun _ _ _ hm => hm.2) trivial
  have hlast :=
    countersLast_of_inTime (d := t.limiter settings hsame) hlimit hwidth hw hquiet hpunctual
  have halike := (t.limiter settings hsame).bumpsAlike_of_sameBucket ⟨key⟩ (fun i j hi hj =>
    hbucket i j (apiKey_of_principal hkey hi) (apiKey_of_principal hkey hj)) w hquiet
  have hinv := ((hquiet.and hlast).and halike).inv
    (P := fun f => (t.limiter settings hsame).Counting f
      ∧ (t.limiter settings hsame).OneCounter ⟨key⟩ f)
    (fun f m h hm => ⟨h.1.step hm.1.1 hm.1.2, h.2.step h.1 hm.1.1 hm.2⟩)
    ⟨(t.limiter settings hsame).counting_start hlimit hw, fun i _ _ _ key _ _ _ _ _ _ hb =>
      absurd hb (not_bumped_start (t.limiter settings hsame) w i key)⟩
  refine hinv.2.card_le hinv.1 hlimit window fun i hi => ?_
  obtain ⟨hreq, hdata, time, hclock, hwindow⟩ := hreached i hi
  obtain ⟨hadmitted, hread⟩ := admitted_of_reachedData hfollows (hinv.1.phase i) hdata
  refine ⟨?_, hadmitted, time, hread time hclock, hwindow⟩
  show (⟨((t.request i).apiKey).getD ""⟩ : Principal) = ⟨key⟩
  rw [hreq, Option.getD_some]

end Seen

/-! ## Three requests -/

theorem listing_range : 1 ≤ 50 ∧ 50 ≤ 500 := by decide

/-- Two requests a minute. -/
def twoPerMinute : Env := { env with settings := { rateLimitRequests := 2 } }

/-- Three requests for the catalogue. -/
def threeListings : Traffic (Fin 3) where
  env _ := twoPerMinute
  request _ := ⟨some devKey.apiKey, .listGpus ⟨none, none, 50, listing_range⟩⟩

/-- They read their clocks, are counted, and the first two query; the third is refused. -/
def interleaved : List (Traffic.Move (Fin 3)) :=
  [0, 1, 2, 0, 1, 2, 0, 1].map (.call · .calm)

/-- The requests after some of the moves. -/
def listingsAfter (n : Nat) : Traffic.Threads (Fin 3) :=
  threeListings.after (worldOf tinyDb) (interleaved.take n)

/-- The records of the first two, latest first. -/
theorem listings_log {i : Fin 3} (hi : i ≠ 2) : ((listingsAfter 8).own i).log.map Event.op
    = [.db (.listGpus none none 50), .redis (.incrExpire
        (windowBucket (devKey.bucketId twoPerMinute.strHash) (unixSeconds newYear) 60) 120),
        .time] := by
  obtain rfl | rfl : i = 0 ∨ i = 1 := by omega
  · with_unfolding_all rfl
  · with_unfolding_all rfl

/-- The third has been counted, and is refused. -/
theorem listing_refused :
    (listingsAfter 8).prog 2 = .pure (.error (tooManyRequests twoPerMinute.settings)) := by
  with_unfolding_all rfl

theorem listings_clock (i : Fin 3) :
    ((listingsAfter 8).own i).log.getLast? = some ⟨.time, unixSeconds newYear⟩ := by
  obtain rfl | rfl | rfl : i = 0 ∨ i = 1 ∨ i = 2 := by omega
  all_goals with_unfolding_all rfl

theorem inTime_listings : Guarded threeListings.step
    (Traffic.CountedInTime twoPerMinute.settings)
    (threeListings.start (worldOf tinyDb)) interleaved := by
  have hcount {s : Traffic.Threads (Fin 3)} {i : Fin 3}
      (hlog : (s.own i).log = [⟨.time, unixSeconds newYear⟩]) (hnow : s.shared.now = newYear) :
      Traffic.CountedInTime twoPerMinute.settings s (.call i .calm) := by
    intro key ex k _ time hclock
    have hclock' : _ ∈ (s.own i).log := hclock
    rw [hlog, List.mem_singleton] at hclock'
    cases hclock'
    rw [hnow]
    exact ⟨by decide, by decide⟩
  have hother {s : Traffic.Threads (Fin 3)} {i : Fin 3} {op : Op}
      {k : op.Ans → Prog svc (Except Exn Response)} (hprog : s.prog i = .call op k)
      (hop : ∀ key ex, op ≠ .redis (.incrExpire key ex)) :
      Traffic.CountedInTime twoPerMinute.settings s (.call i .calm) := by
    intro key ex k' hincr
    obtain ⟨rfl, -⟩ := Prog.call.inj (hprog.symm.trans hincr)
    exact absurd rfl (hop key ex)
  exact ⟨hother rfl (fun _ _ h => nomatch h), hother rfl (fun _ _ h => nomatch h),
    hother rfl (fun _ _ h => nomatch h), hcount rfl rfl, hcount rfl rfl, hcount rfl rfl,
    hother rfl (fun _ _ h => nomatch h), hother rfl (fun _ _ h => nomatch h), trivial⟩

theorem limit_before_data_three :
    (listingsAfter 8).prog 2 = .pure (.error (tooManyRequests twoPerMinute.settings))
    ∧ (({0, 1} : Finset (Fin 3)).card : Int) ≤ twoPerMinute.settings.rateLimitRequests := by
  refine ⟨listing_refused, ?_⟩
  refine limit_before_data threeListings twoPerMinute.settings (fun _ => rfl)
    (by decide) (by decide) devKey.apiKey (by decide) (fun _ _ _ _ => rfl) (worldOf tinyDb)
    (fun _ _ _ _ h => nomatch h)
    interleaved ⟨rfl, rfl, rfl, rfl, rfl, rfl, rfl, rfl, trivial⟩ inTime_listings
    ((unixSeconds newYear).fdiv twoPerMinute.settings.rateLimitWindowSeconds) {0, 1} fun i hi => ?_
  have hi : i ≠ 2 := by
    rintro rfl
    revert hi
    decide
  refine ⟨rfl, ?_, unixSeconds newYear, List.mem_of_getLast? (listings_clock i), rfl⟩
  have hquery : Op.db (.listGpus none none 50)
      ∈ ((listingsAfter 8).own i).log.map Event.op := by
    rw [listings_log hi]
    exact List.mem_cons_self
  obtain ⟨e, he, hop⟩ := List.mem_map.mp hquery
  refine ⟨e, he, fun h => ?_⟩
  rw [hop] at h
  rcases h with h | ⟨_, _, _, h⟩ <;> cases h

end GpuIndex
