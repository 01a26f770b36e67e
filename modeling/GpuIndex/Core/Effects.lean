/-
  What the parts of the service leave alone.

  The limiter, the cache and its invalidation ask Redis, the clock and the counters, never the
  database.  Such calls leave the tables and the open transaction as they are, so by
  `Svc.wp_of_only` whole programs made of them do.
-/
import GpuIndex.Core.Cache
import GpuIndex.Core.Security

namespace GpuIndex

/-- The call is no database statement. -/
def NoStatement (op : Op) : Prop := ∀ stmt, op ≠ .db stmt

theorem noStatement_redis (cmd : RedisCmd) : NoStatement (.redis cmd) := fun _ h => nomatch h

theorem noStatement_bump (stat : Stat) : NoStatement (.bump stat) := fun _ h => nomatch h

theorem noStatement_time : NoStatement .time := fun _ h => nomatch h

/-- A call is a statement or it is none. -/
theorem noStatement_or_db (op : Op) : NoStatement op ∨ ∃ stmt, op = .db stmt := by
  cases op with
  | db stmt => exact .inr ⟨stmt, rfl⟩
  | time => exact .inl noStatement_time
  | now => exact .inl fun _ h => nomatch h
  | bump stat => exact .inl (noStatement_bump stat)
  | redis cmd => exact .inl (noStatement_redis cmd)

/-! ## Which calls are made -/

theorem only_requireApiKey (settings : Settings) (key : Option String) (A : Op → Prop) :
    (requireApiKey settings key).Only A := by
  unfold requireApiKey
  split
  · split
    · exact Svc.only_throw
    · exact Svc.only_pure
  · exact Svc.only_throw

/-- The calls of the limiter: the time, and a count under its own prefix. -/
def LimiterCall (op : Op) : Prop :=
  op = .time ∨ ∃ key ex, hasPrefix "rl:" key ∧ op = .redis (.incrExpire key ex)

theorem noStatement_of_limiterCall (op : Op) (h : LimiterCall op) : NoStatement op := by
  rcases h with rfl | ⟨key, ex, -, rfl⟩
  · exact noStatement_time
  · exact noStatement_redis _

theorem hasPrefix_windowBucket (env : Env) (principal : Principal) (time window : Int) :
    hasPrefix "rl:" (windowBucket (principal.bucketId env.strHash) time window) = true := by
  rw [windowBucket, Principal.bucketId, String.append_assoc, String.append_assoc]
  exact hasPrefix_append _ _

theorem only_rateLimit (env : Env) (principal : Principal) :
    (rateLimit env principal).Only LimiterCall := by
  unfold rateLimit
  refine Svc.only_bind (Svc.only_call (.inl rfl)) fun time => ?_
  dsimp only
  split
  · exact Svc.only_throw
  · refine Svc.only_bind (Svc.only_tryCatch ?_ fun _ => Svc.only_pure) fun count => ?_
    · refine Svc.only_bind (Svc.only_redis (.inr ⟨_, _, ?_, rfl⟩)) fun _ => Svc.only_pure
      exact hasPrefix_windowBucket env principal _ _
    · split
      · exact Svc.only_pure
      · split
        · exact Svc.only_throw
        · exact Svc.only_pure

/-- The calls of an invalidation. -/
def InvalidationCall (op : Op) : Prop :=
  (∃ cursor keyPrefix, op = .redis (.scan cursor keyPrefix)) ∨ (∃ key, op = .redis (.delete key))
    ∨ ∃ stat, op = .bump stat

theorem noStatement_of_invalidationCall (op : Op) (h : InvalidationCall op) : NoStatement op := by
  rcases h with ⟨_, _, rfl⟩ | ⟨_, rfl⟩ | ⟨_, rfl⟩
  · exact noStatement_redis _
  · exact noStatement_redis _
  · exact noStatement_bump _

theorem only_deleteKeys (keys : List String) (removed : Nat) :
    Prog.Only (S := svc) InvalidationCall (deleteKeys keys removed) := by
  induction keys generalizing removed with
  | nil => trivial
  | cons key keys ih =>
    refine Prog.only_bind (Svc.only_redis (.inr (.inl ⟨key, rfl⟩))) fun r => ?_
    cases r with
    | ok _ => exact ih _
    | error e => trivial

theorem only_scanThen {keyPrefix : String} {next : Nat → Nat → Prog svc Removal}
    (hnext : ∀ cursor removed, Prog.Only (S := svc) InvalidationCall (next cursor removed))
    (cursor removed : Nat) :
    Prog.Only (S := svc) InvalidationCall (scanThen keyPrefix cursor removed next) := by
  refine Prog.only_bind (Svc.only_redis (.inl ⟨_, _, rfl⟩)) fun r => ?_
  rcases r with e | ⟨cursor, keys⟩
  · trivial
  · refine Prog.only_bind (only_deleteKeys keys removed) fun r => ?_
    rcases r with ⟨e | _, removed⟩
    · trivial
    · exact hnext cursor removed

theorem only_scanRest (keyPrefix : String) (cursor removed : Nat) :
    Prog.Only (S := svc) InvalidationCall (scanRest keyPrefix cursor removed) := by
  induction cursor generalizing removed with
  | zero => trivial
  | succ cursor ih => exact only_scanThen (fun _ removed => ih removed) _ _

theorem only_invalidatePrefix (keyPrefix : String) :
    (invalidatePrefix keyPrefix).Only InvalidationCall := by
  have hscan : Prog.Only (S := svc) InvalidationCall (scanDelete keyPrefix) :=
    only_scanThen (only_scanRest keyPrefix) 0 0
  refine Svc.only_bind (Prog.only_bind hscan fun _ => trivial) fun r => ?_
  rcases r with ⟨e | _, removed⟩
  · exact Svc.only_bind (Svc.only_call (.inr (.inr ⟨_, rfl⟩))) fun _ => Svc.only_pure
  · exact Svc.only_pure

/-! ## What is on record -/

/-- From `m` to `m'` only calls in `A` were made. -/
def Machine.Logs (A : Op → Prop) (m m' : Machine) : Prop :=
  ∃ events : List Event, m'.session.log = events ++ m.session.log ∧ ∀ e ∈ events, A e.op

theorem Machine.Logs.refl (A : Op → Prop) (m : Machine) : m.Logs A m :=
  ⟨[], rfl, fun _ h => absurd h List.not_mem_nil⟩

theorem Machine.Logs.trans {A : Op → Prop} {a b c : Machine} (h₁ : a.Logs A b) (h₂ : b.Logs A c) :
    a.Logs A c := by
  obtain ⟨events₁, hlog₁, hA₁⟩ := h₁
  obtain ⟨events₂, hlog₂, hA₂⟩ := h₂
  refine ⟨events₂ ++ events₁, by rw [hlog₂, hlog₁, List.append_assoc], fun e he => ?_⟩
  exact (List.mem_append.mp he).elim (hA₂ e) (hA₁ e)

theorem Machine.Logs.mono {A B : Op → Prop} {a b : Machine} (h : a.Logs A b)
    (hAB : ∀ op, A op → B op) : a.Logs B b := by
  obtain ⟨events, hlog, hA⟩ := h
  exact ⟨events, hlog, fun e he => hAB e.op (hA e he)⟩

/-- What was made outside `A` was made before. -/
theorem Machine.Logs.mem_of_not {A : Op → Prop} {a b : Machine} (h : a.Logs A b) {e : Event}
    (he : e ∈ b.session.log) (hA : ¬ A e.op) : e ∈ a.session.log := by
  obtain ⟨events, hlog, hall⟩ := h
  rw [hlog] at he
  exact (List.mem_append.mp he).resolve_left fun hmem => hA (hall e hmem)

theorem Machine.Logs.mem {A : Op → Prop} {a b : Machine} (h : a.Logs A b) {e : Event}
    (he : e ∈ a.session.log) : e ∈ b.session.log := by
  obtain ⟨events, hlog, -⟩ := h
  rw [hlog]
  exact List.mem_append_right _ he

theorem perform_log (env : Env) (c : Choice) (op : Op) (m : Machine) :
    (perform env c op m).2.session.log = m.session.log := by
  cases op with
  | time => rfl
  | now => rfl
  | bump stat => rfl
  | redis cmd =>
    obtain ⟨_, _, _, hcmd⟩ := cmd.exec_eq c m
    rw [perform, hcmd]
  | db stmt => exact stmt.exec_frame (·.session.log) env c m rfl (fun _ => rfl) fun _ => rfl

theorem exec_logs {env : Env} {c : Choice} {A : Op → Prop} {op : Op} (hop : A op) (m : Machine) :
    m.Logs A (exec env c op m).2 :=
  ⟨[_], by rw [List.singleton_append, ← perform_log env c op m]; rfl,
    fun _ he => by rw [List.mem_singleton.mp he]; exact hop⟩

/-- A program leaves its calls on record. -/
theorem wp_logs {α : Type} {env : Env} {C : Choice → Prop} {A : Op → Prop} {p : Svc α}
    (hp : p.Only A) (m : Machine) : Svc.wp env C p (fun _ m' => m.Logs A m') m :=
  Svc.wp_of_only (fun _ _ m' _ hop h => h.trans (exec_logs hop m')) hp (.refl A m)

/-! ## What such calls leave alone -/

/-- The tables, the time and the open transaction are as before. -/
structure Machine.SameTables (m m' : Machine) : Prop where
  db : m'.world.db = m.world.db
  now : m'.world.now = m.world.now
  pending : m'.session.pending = m.session.pending
  added : m'.session.added = m.session.added

theorem Machine.SameTables.refl (m : Machine) : m.SameTables m := ⟨rfl, rfl, rfl, rfl⟩

theorem Machine.SameTables.trans {a b c : Machine} (h₁ : a.SameTables b) (h₂ : b.SameTables c) :
    a.SameTables c :=
  ⟨h₂.db.trans h₁.db, h₂.now.trans h₁.now, h₂.pending.trans h₁.pending, h₂.added.trans h₁.added⟩

theorem Machine.SameTables.symm {a b : Machine} (h : a.SameTables b) : b.SameTables a :=
  ⟨h.db.symm, h.now.symm, h.pending.symm, h.added.symm⟩

theorem exec_sameTables {env : Env} {c : Choice} {op : Op} (hop : NoStatement op) (m : Machine) :
    m.SameTables (exec env c op m).2 := by
  cases op with
  | time => exact ⟨rfl, rfl, rfl, rfl⟩
  | now => exact ⟨rfl, rfl, rfl, rfl⟩
  | bump stat => exact ⟨rfl, rfl, rfl, rfl⟩
  | redis cmd =>
    obtain ⟨_, _, _, hcmd⟩ := cmd.exec_eq c m
    rw [exec, perform, hcmd]
    exact ⟨rfl, rfl, rfl, rfl⟩
  | db stmt => exact absurd rfl (hop stmt)

/-- A program without statements leaves the tables alone. -/
theorem wp_sameTables {α : Type} {env : Env} {C : Choice → Prop} {p : Svc α}
    (hp : p.Only NoStatement) (m : Machine) :
    Svc.wp env C p (fun _ m' => m.SameTables m') m :=
  Svc.wp_of_only (fun _ _ m' _ hop h => h.trans (exec_sameTables hop m')) hp (.refl m)

/-- The program asks nothing but the database. -/
def StatementCall (op : Op) : Prop := ∃ stmt, op = .db stmt

theorem exec_sameRedis {env : Env} {c : Choice} {op : Op} (hop : StatementCall op) (m : Machine) :
    (exec env c op m).2.world.redis = m.world.redis := by
  obtain ⟨stmt, rfl⟩ := hop
  exact stmt.exec_frame (·.world.redis) env c m rfl (fun _ => rfl) fun _ => rfl

/-- A program of statements leaves the key space alone. -/
theorem wp_sameRedis {α : Type} {env : Env} {C : Choice → Prop} {p : Svc α}
    (hp : p.Only StatementCall) (m : Machine) :
    Svc.wp env C p (fun _ m' => m'.world.redis = m.world.redis) m :=
  Svc.wp_of_only (P := fun m' => m'.world.redis = m.world.redis)
    (fun _ _ m' _ hop h => (exec_sameRedis hop m').trans h) hp rfl

/-- The program only reads the database. -/
def QueryCall (op : Op) : Prop :=
  ∃ stmt, op = .db stmt ∧ stmt ≠ .commit ∧ ∀ rows, stmt ≠ .insertPrices rows

theorem statementCall_of_queryCall (op : Op) (h : QueryCall op) : StatementCall op := by
  obtain ⟨stmt, rfl, -⟩ := h
  exact ⟨stmt, rfl⟩

theorem exec_query_sameTables {env : Env} {c : Choice} {op : Op} (hop : QueryCall op)
    (m : Machine) : m.SameTables (exec env c op m).2 := by
  obtain ⟨stmt, rfl, hcommit, hinsert⟩ := hop
  refine Machine.SameTables.trans (b := (stmt.exec env c m).2) ?_ ⟨rfl, rfl, rfl, rfl⟩
  rcases stmt.exec_cases env c m with h | h | ⟨rows, _, rfl, -, -⟩ | ⟨_, rfl, -, -⟩
  · rw [h]
    exact .refl m
  · rw [h]
    exact ⟨rfl, rfl, rfl, rfl⟩
  · exact absurd rfl (hinsert rows)
  · exact absurd rfl hcommit

/-- A program of queries leaves the tables alone. -/
theorem wp_query_sameTables {α : Type} {env : Env} {C : Choice → Prop} {p : Svc α}
    (hp : p.Only QueryCall) (m : Machine) :
    Svc.wp env C p (fun _ m' => m.SameTables m') m :=
  Svc.wp_of_only (fun _ _ m' _ hop h => h.trans (exec_query_sameTables hop m')) hp (.refl m)

/-! ## Invalidation -/

/-- Keys may be gone, the others are as before. -/
def Machine.Shrinks (m m' : Machine) : Prop :=
  ∀ now key e, m'.world.redis.peek now key = some e → m.world.redis.peek now key = some e

theorem shrinks_remove (redis : Redis) (key : String) (now : Nat) (key' : String)
    (e : ExpiringStore.Entry Cached) (h : (redis.remove key).peek now key' = some e) :
    redis.peek now key' = some e := by
  by_cases hkey : key' = key
  · rw [hkey, ExpiringStore.peek_remove_self] at h
    cases h
  · rwa [ExpiringStore.peek_remove_ne _ hkey] at h

theorem exec_shrinks {env : Env} {c : Choice} {op : Op} (hop : InvalidationCall op) (m : Machine) :
    m.Shrinks (exec env c op m).2 := by
  rcases hop with ⟨cursor, keyPrefix, rfl⟩ | ⟨key, rfl⟩ | ⟨stat, rfl⟩
  · intro now key e h
    simp only [exec, perform, RedisCmd.exec, Machine.record_world] at h
    split at h <;> exact h
  · intro now key' e h
    simp only [exec, perform, RedisCmd.exec, Machine.record_world] at h
    split at h
    · exact shrinks_remove _ _ _ _ _ h
    · exact h
    · exact shrinks_remove _ _ _ _ _ h
  · exact fun _ _ _ h => h

/-- **The invalidation** never raises, leaves the tables alone, and adds no key. -/
theorem wp_invalidatePrefix (env : Env) {C : Choice → Prop} (keyPrefix : String) (m : Machine) :
    Svc.wp env C (invalidatePrefix keyPrefix)
      (fun r m' => (∃ n, r = .ok n) ∧ m.SameTables m' ∧ m.Shrinks m') m := by
  have honly := only_invalidatePrefix keyPrefix
  refine Svc.wp_and ?_ (Svc.wp_and (wp_sameTables (honly.mono noStatement_of_invalidationCall) m)
    (Svc.wp_of_only (P := m.Shrinks)
      (fun _ _ m' _ hop h now key e he => h now key e (exec_shrinks hop m' now key e he)) honly
      fun _ _ _ h => h))
  rw [invalidatePrefix, Svc.wp_bind, Svc.wp_lift]
  refine Prog.wp_mono (Prog.wp_true _ _) fun r m' _ => ?_
  rcases r with ⟨e | _, removed⟩
  · intro c _
    exact ⟨removed, rfl⟩
  · exact ⟨removed, rfl⟩

/-! ## The limiter -/

/-- The key space is the same but for the limiter's counters, and the rows in hand are the same. -/
structure Machine.SameCache (m m' : Machine) : Prop where
  source : m'.session.source = m.session.source
  peek : ∀ now key, hasPrefix "rl:" key = false →
    m'.world.redis.peek now key = m.world.redis.peek now key

theorem Machine.SameCache.refl (m : Machine) : m.SameCache m := ⟨rfl, fun _ _ _ => rfl⟩

theorem Machine.SameCache.trans {a b c : Machine} (h₁ : a.SameCache b) (h₂ : b.SameCache c) :
    a.SameCache c :=
  ⟨h₂.source.trans h₁.source, fun now key hkey =>
    (h₂.peek now key hkey).trans (h₁.peek now key hkey)⟩

theorem peek_incrCounter_ne (redis : Redis) (now : Nat) {key key' : String} (ex : Int) (later : Nat)
    (h : key' ≠ key) :
    (incrCounter redis now key ex).2.peek later key' = redis.peek later key' := by
  unfold incrCounter
  split
  · rfl
  · dsimp only
    split
    · exact ExpiringStore.peek_remove_ne _ h
    · exact ExpiringStore.peek_put_ne _ _ _ _ h

theorem exec_sameCache {env : Env} {c : Choice} {op : Op} (hop : LimiterCall op) (m : Machine) :
    m.SameCache (exec env c op m).2 := by
  rcases hop with rfl | ⟨key, ex, hkey, rfl⟩
  · exact ⟨rfl, fun _ _ _ => rfl⟩
  · have hserve : m.SameCache ((RedisCmd.incrExpire key ex).serve c m).2 := by
      refine ⟨rfl, fun now key' hkey' => peek_incrCounter_ne _ _ _ _ ?_⟩
      rintro rfl
      rw [hkey] at hkey'
      cases hkey'
    refine Machine.SameCache.trans (b := ((RedisCmd.incrExpire key ex).exec c m).2) ?_
      ⟨rfl, fun _ _ _ => rfl⟩
    unfold RedisCmd.exec
    split
    · exact hserve
    · exact .refl m
    · exact hserve

/-- How the limiter can end. -/
inductive Limited (env : Env) (principal : Principal) (m' : Machine) :
    Except Exn Principal → Prop where
  | admitted : Limited env principal m' (.ok principal)
  | refused {key : String} {ex count : Int}
      (counted : ⟨.redis (.incrExpire key ex), .ok count⟩ ∈ m'.session.log)
      (exceeded : env.settings.rateLimitRequests < count) :
      Limited env principal m' (.error (tooManyRequests env.settings))
  | noWindow (zero : env.settings.rateLimitWindowSeconds = 0) :
      Limited env principal m' (.error .zeroDivisionError)

/-- The count of the pipeline, or nothing when it fails. -/
theorem wp_count {env : Env} {C : Choice → Prop} (key : String) (ex : Int) (m : Machine) :
    Svc.wp env C (tryCatch (some <$> redis (.incrExpire key ex)) fun _ => pure none)
      (fun r m' => r = .ok none
        ∨ ∃ n, r = .ok (some n) ∧ ⟨.redis (.incrExpire key ex), .ok n⟩ ∈ m'.session.log) m := by
  have hmap : (some <$> redis (.incrExpire key ex) : Svc (Option Int))
      = redis (.incrExpire key ex) >>= fun n => pure (some n) := rfl
  rw [hmap, Svc.wp_tryCatch, Svc.wp_bind, Svc.wp_redis]
  intro c _
  split
  · exact .inr ⟨_, rfl, List.mem_cons_self⟩
  · exact .inl rfl

/-- **The limiter** touches its own counters only, and refuses only on a count over the limit. -/
theorem wp_rateLimit (env : Env) {C : Choice → Prop} (principal : Principal) (m : Machine) :
    Svc.wp env C (rateLimit env principal) (fun r m' => Limited env principal m' r
      ∧ m.SameTables m' ∧ m.SameCache m' ∧ m.Logs LimiterCall m') m := by
  have honly := only_rateLimit env principal
  refine Svc.wp_and ?_ (Svc.wp_and (wp_sameTables (honly.mono noStatement_of_limiterCall) m)
    (Svc.wp_and (Svc.wp_of_only (fun _ _ m' _ hop h => h.trans (exec_sameCache hop m')) honly
      (Machine.SameCache.refl m)) (wp_logs honly m)))
  unfold rateLimit
  rw [Svc.wp_bind, Svc.wp_call]
  intro c _
  dsimp only
  split
  · rename_i hzero
    exact .noWindow hzero
  · refine Svc.wp_seq (wp_count _ _ _) (fun count m₁ h => ?_) (fun e m₁ h => ?_)
    · cases count with
      | none => exact .admitted
      | some n =>
        obtain ⟨n', hn, hlog⟩ := h.resolve_left fun h => nomatch h
        cases hn
        dsimp only
        split
        · rename_i hover
          exact .refused hlog hover
        · exact .admitted
    · rcases h with h | ⟨_, h, -⟩ <;> cases h

end GpuIndex
