/-
  What a read through the cache does.

  `wp_readThrough` is the specification of `read_through` for any producer: the entry of the key is
  decoded, or the producer runs once and its value may be stored.  Whatever Redis does, its errors
  stay inside.
-/
import GpuIndex.Core.Effects

namespace GpuIndex

open ExpiringStore
open JsonText (loads)

/-! ## Steps -/

/-- The calls of the lookup. -/
def LookupCall (key : String) (op : Op) : Prop := op = .redis (.get key) ∨ ∃ stat, op = .bump stat

/-- The calls that store a value. -/
def FillCall (key : String) (op : Op) : Prop :=
  (∃ value ex, op = .redis (.set key value ex)) ∨ ∃ stat, op = .bump stat

/-- The entry was there and was decoded. -/
structure CacheHit (key : String) (e : Entry Cached) (m m' : Machine) : Prop where
  tables : m.SameTables m'
  redis : m'.world.redis = m.world.redis
  source : m'.session.source = e.value.source
  log : m'.session.log = ⟨.bump .hits, ()⟩
    :: ⟨.redis (.get key), .ok (some e.value.cell.show)⟩ :: m.session.log

/-- Nothing was there, or it could not be had. -/
structure CacheMiss (key : String) (m m' : Machine) : Prop where
  tables : m.SameTables m'
  redis : m'.world.redis = m.world.redis
  log : m.Logs (LookupCall key) m'

/-- The value was stored, or could not be. -/
structure CacheFill (env : Env) (key : String) (value : Json) (ttl : Int) (m m' : Machine) :
    Prop where
  tables : m.SameTables m'
  redis : m'.world.redis = m.world.redis
    ∨ 0 < ttl ∧ m'.world.redis = m.world.redis.put m.world.now.us key
        ⟨.text (dumpsText env value), m.session.source⟩ (m.world.now.us + seconds ttl)
  source : m'.session.source = m.session.source
  log : m.Logs (FillCall key) m'

/-- The calls of a read are those of the lookup, the producer and the store. -/
theorem only_readThrough_of {A : Op → Prop} {env : Env} {key : String} {producer : Svc Json}
    {ttl : Option Int} (hget : A (.redis (.get key)))
    (hset : ∀ value ex, A (.redis (.set key value ex))) (hbump : ∀ stat, A (.bump stat))
    (hproducer : producer.Only A) : (readThrough env key producer ttl).Only A := by
  have hlookup : (lookupCached env key).Only A := by
    refine Svc.only_bind (Svc.only_redis hget) fun cached => ?_
    cases cached with
    | none => exact Svc.only_pure
    | some cached =>
      refine Svc.only_bind (Svc.only_call (hbump _)) fun _ => ?_
      split
      · exact Svc.only_pure
      · exact Svc.only_throw
  refine Svc.only_bind (Svc.only_tryCatch hlookup fun _ =>
    Svc.only_bind (Svc.only_call (hbump _)) fun _ => Svc.only_pure) fun cached => ?_
  cases cached with
  | some value => exact Svc.only_pure
  | none =>
    refine Svc.only_bind (Svc.only_call (hbump _)) fun _ => Svc.only_bind hproducer fun value => ?_
    exact Svc.only_bind (Svc.only_tryCatch (Svc.only_redis (hset _ _)) fun _ =>
      Svc.only_call (hbump _)) fun _ => Svc.only_pure

/-! ## The lookup -/

/-- What a `GET` that is answered shows. -/
theorem exec_get_ok {c : Choice} {key : String} {m m' : Machine} {r : Option String}
    (h : (RedisCmd.get key).exec c m = (.ok r, m')) :
    (r = none ∧ m' = m)
      ∨ ∃ e, m.world.redis.peek m.world.now.us key = some e ∧ r = some e.value.cell.show
          ∧ m' = { m with session.source := e.value.source } := by
  unfold RedisCmd.exec at h
  split at h
  · simp only [RedisCmd.serve] at h
    split at h
    · rename_i e he
      cases h
      exact .inr ⟨e, he, rfl, rfl⟩
    · cases h
      exact .inl ⟨rfl, rfl⟩
  · cases h
  · cases h

/-- A `GET` changes nothing but what the session has in hand. -/
theorem exec_get_redis (c : Choice) (key : String) (m : Machine) :
    ((RedisCmd.get key).exec c m).2.world.redis = m.world.redis := by
  have hserve : ((RedisCmd.get key).serve c m).2.world.redis = m.world.redis := by
    simp only [RedisCmd.serve]
    split <;> rfl
  unfold RedisCmd.exec
  split
  · exact hserve
  · rfl
  · exact hserve

theorem sameTables_redis (env : Env) (c : Choice) (cmd : RedisCmd) (m : Machine) :
    m.SameTables (exec env c (.redis cmd) m).2 := exec_sameTables (noStatement_redis cmd) m

/-- **The lookup**: the decoded entry, or nothing. -/
theorem wp_lookupCached {env : Env} {C : Choice → Prop} (key : String) (m : Machine) :
    Svc.wp env C (lookupCached env key) (fun r m' =>
      (∃ e value, m.world.redis.peek m.world.now.us key = some e
          ∧ loads env.fmt e.value.cell.show.toList = some value ∧ r = .ok (some value)
          ∧ CacheHit key e m m')
        ∨ ((∀ value, r ≠ .ok (some value)) ∧ CacheMiss key m m')) m := by
  rw [lookupCached, Svc.wp_bind, Svc.wp_redis]
  intro c _
  have htables := sameTables_redis env c (.get key) m
  have hlogs : m.Logs (LookupCall key) (exec env c (.redis (.get key)) m).2 :=
    exec_logs (.inl rfl) m
  have hredis := exec_get_redis c key m
  simp only [exec, perform] at htables hlogs
  split
  · rename_i r m' hexec
    rw [hexec] at htables hlogs hredis
    rcases exec_get_ok hexec with ⟨rfl, -⟩ | ⟨e, he, rfl, rfl⟩
    · exact .inr ⟨(fun _ h => by cases h), ⟨htables, hredis, hlogs⟩⟩
    · dsimp only
      rw [Svc.wp_bind, Svc.wp_call]
      intro c' _
      cases hloads : loads env.fmt e.value.cell.show.toList with
      | some value => exact .inl ⟨e, value, he, hloads, rfl, ⟨⟨rfl, rfl, rfl, rfl⟩, rfl, rfl, rfl⟩⟩
      | none =>
        refine .inr ⟨(fun _ h => by cases h), ⟨⟨rfl, rfl, rfl, rfl⟩, rfl, ?_⟩⟩
        exact hlogs.trans (exec_logs (.inr ⟨.hits, rfl⟩) _)
  · rename_i e m' hexec
    rw [hexec] at htables hlogs hredis
    exact .inr ⟨(fun _ h => by cases h), ⟨htables, hredis, hlogs⟩⟩

theorem CacheMiss.bump {key : String} {m m' : Machine} (h : CacheMiss key m m') (env : Env)
    (c : Choice) (stat : Stat) : CacheMiss key m (exec env c (.bump stat) m').2 where
  tables := h.tables.trans (exec_sameTables (noStatement_bump stat) m')
  redis := h.redis
  log := h.log.trans (exec_logs (.inr ⟨stat, rfl⟩) m')

/-- The first `try`: whatever is raised counts as a miss. -/
theorem wp_tryLookup {env : Env} {C : Choice → Prop} (key : String) (m : Machine) :
    Svc.wp env C (tryCatch (lookupCached env key) fun _ => do
        call (.bump .errors)
        return none)
      (fun r m' => (∃ e value, m.world.redis.peek m.world.now.us key = some e
          ∧ loads env.fmt e.value.cell.show.toList = some value ∧ r = .ok (some value)
          ∧ CacheHit key e m m')
        ∨ (r = .ok none ∧ CacheMiss key m m')) m := by
  refine Svc.wp_try (wp_lookupCached key m) (fun a m' h => ?_) (fun e m' h => ?_)
  · rcases h with hit | ⟨hne, hmiss⟩
    · exact .inl hit
    · cases a with
      | none => exact .inr ⟨rfl, hmiss⟩
      | some value => exact absurd rfl (hne value)
  · rcases h with ⟨_, _, -, -, h, -⟩ | ⟨-, hmiss⟩
    · cases h
    · rw [Svc.wp_bind, Svc.wp_call]
      intro c _
      exact .inr ⟨rfl, hmiss.bump env c .errors⟩

/-! ## Storing -/

/-- What a `SET` makes of the key space. -/
theorem exec_set_redis (env : Env) (c : Choice) (key value : String) (ex : Int) (m : Machine) :
    (exec env c (.redis (.set key value ex)) m).2.world.redis = m.world.redis
      ∨ 0 < ex ∧ (exec env c (.redis (.set key value ex)) m).2.world.redis
        = m.world.redis.put m.world.now.us key ⟨.text value, m.session.source⟩
            (m.world.now.us + seconds ex) := by
  have hserve : ((RedisCmd.set key value ex).serve c m).2.world.redis = m.world.redis
      ∨ 0 < ex ∧ ((RedisCmd.set key value ex).serve c m).2.world.redis
        = m.world.redis.put m.world.now.us key ⟨.text value, m.session.source⟩
            (m.world.now.us + seconds ex) := by
    simp only [RedisCmd.serve]
    split
    · exact .inl rfl
    · rename_i hex
      exact .inr ⟨not_le.mp hex, rfl⟩
  simp only [exec, perform, RedisCmd.exec, Machine.record_world]
  cases c.fault with
  | none => exact hserve
  | refused => exact .inl rfl
  | lost => exact hserve

theorem exec_set_source (env : Env) (c : Choice) (key value : String) (ex : Int) (m : Machine) :
    (exec env c (.redis (.set key value ex)) m).2.session.source = m.session.source := by
  have hserve : ((RedisCmd.set key value ex).serve c m).2.session.source = m.session.source := by
    simp only [RedisCmd.serve]
    split <;> rfl
  simp only [exec, perform, RedisCmd.exec, Machine.record_source]
  cases c.fault with
  | none => exact hserve
  | refused => rfl
  | lost => exact hserve

/-- The second `try`: the value is stored, or it is not, and nothing is raised. -/
theorem wp_fill {env : Env} {C : Choice → Prop} (key : String) (value : Json) (ttl : Int)
    (m : Machine) :
    Svc.wp env C
      (tryCatch (redis (.set key (dumpsText env value) ttl)) fun _ => call (.bump .errors))
      (fun r m' => r = .ok () ∧ CacheFill env key value ttl m m') m := by
  rw [Svc.wp_tryCatch, Svc.wp_redis]
  intro c _
  have hfill : CacheFill env key value ttl m
      (exec env c (.redis (.set key (dumpsText env value) ttl)) m).2 :=
    ⟨sameTables_redis env c _ m, exec_set_redis env c key _ ttl m,
      exec_set_source env c key _ ttl m, exec_logs (.inl ⟨_, _, rfl⟩) m⟩
  simp only [exec, perform] at hfill
  split
  · rename_i r m' hexec
    rw [hexec] at hfill
    exact ⟨rfl, hfill⟩
  · rename_i e m' hexec
    rw [hexec] at hfill
    rw [Svc.wp_call]
    intro c' _
    exact ⟨rfl, hfill.tables.trans (exec_sameTables (noStatement_bump _) _),
      hfill.redis, hfill.source, hfill.log.trans (exec_logs (.inr ⟨.errors, rfl⟩) _)⟩

/-! ## The whole read -/

/-- How a read through the cache can end, for a producer that ends as `R` says. -/
inductive ReadThrough (env : Env) (key : String) (ttl : Int)
    (R : Machine → Except Exn Json → Machine → Prop) (m : Machine) :
    Except Exn (Json × Bool) → Machine → Prop where
  | hit {e : Entry Cached} {value : Json} {m' : Machine}
      (entry : m.world.redis.peek m.world.now.us key = some e)
      (decoded : loads env.fmt e.value.cell.show.toList = some value) (done : CacheHit key e m m') :
      ReadThrough env key ttl R m (.ok (value, true)) m'
  | raised {e : Exn} {m₁ m' : Machine} (miss : CacheMiss key m m₁) (produced : R m₁ (.error e) m') :
      ReadThrough env key ttl R m (.error e) m'
  | fresh {value : Json} {m₁ m₂ m' : Machine} (miss : CacheMiss key m m₁)
      (produced : R m₁ (.ok value) m₂) (fill : CacheFill env key value ttl m₂ m') :
      ReadThrough env key ttl R m (.ok (value, false)) m'

/-- **A read through the cache**: a hit, or one run of the producer. -/
theorem wp_readThrough {env : Env} {C : Choice → Prop} {key : String} {producer : Svc Json}
    {ttl : Option Int} {R : Machine → Except Exn Json → Machine → Prop}
    (hproducer : ∀ m, Svc.wp env C producer (R m) m) (m : Machine) :
    Svc.wp env C (readThrough env key producer ttl)
      (ReadThrough env key (ttl.getD env.settings.cacheTtlSeconds) R m) m := by
  unfold readThrough
  refine Svc.wp_seq (wp_tryLookup key m) (fun cached m₁ h => ?_) (fun e m₁ h => ?_)
  -- no error leaves the first `try`: an entry was decoded, or the producer runs
  · rcases h with ⟨e, value, he, hvalue, hcached, hit⟩ | ⟨hcached, hmiss⟩
    · cases hcached
      exact .hit he hvalue hit
    · cases hcached
      dsimp only
      rw [Svc.wp_bind, Svc.wp_call]
      intro c _
      have hmiss := hmiss.bump env c .misses
      refine Svc.wp_seq (hproducer _) (fun value m₂ hvalue => ?_) (fun e m₂ he => .raised hmiss he)
      refine Svc.wp_seq (wp_fill key value _ m₂) (fun _ m₃ h => .fresh hmiss hvalue h.2) ?_
      intro e m₃ h
      cases h.1
  · rcases h with ⟨_, _, -, -, h, -⟩ | ⟨h, -⟩ <;> cases h

end GpuIndex
