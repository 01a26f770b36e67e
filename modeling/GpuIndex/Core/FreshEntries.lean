/-
  An invalidation amid others.

  While one request drops the keys under a prefix, others may store entries there.  As long as those
  come from a database that has the rows the request has committed (`Undisturbed`), an entry without
  them has been there since before, so the SCAN iteration still owes it or has reported it.  `Sweep`
  is this invariant; at the end no such entry is left (`amid_invalidatePrefix`).
-/
import GpuIndex.Core.Amid
import GpuIndex.Core.Invalidation
import GpuIndex.Core.ReadThrough

namespace GpuIndex

open ExpiringStore
open Pool (Amid)

/-- The rows are among those of the database something was computed from. -/
def Covers (rows : List PricePoint) (source : Option Database) : Prop :=
  ∀ r ∈ rows, ∃ db, source = some db ∧ r ∈ db.pricePoints

/-- The request has begun to drop the keys under the prefix. -/
def Session.Dropping (l : Session) (keyPrefix : String) : Prop :=
  ∃ cursor ans, (⟨.redis (.scan cursor keyPrefix), ans⟩ : Event) ∈ l.log

/-- The prefixes of the cache. -/
def cachePrefixes : List String := ["prices:", "index:"]

/-- Time goes on and the table grows; under a prefix that the session has begun to drop, whatever is
    new comes from a database with the session's rows. -/
structure Undisturbed (l : Session) (w w' : World) : Prop where
  later : w.now.us ≤ w'.now.us
  grows : w.db.Grows w'.db
  entries : ∀ keyPrefix ∈ cachePrefixes, l.Dropping keyPrefix → ∀ now key e,
    hasPrefix keyPrefix key = true → w'.redis.peek now key = some e →
      Covers l.added e.value.source ∨ w.redis.peek now key = some e

theorem Undisturbed.refl (l : Session) (w : World) : Undisturbed l w w :=
  ⟨le_rfl, .refl _, fun _ _ _ _ _ _ _ h => .inr h⟩

theorem Undisturbed.trans (l : Session) (w₁ w₂ w₃ : World) (h : Undisturbed l w₁ w₂)
    (h' : Undisturbed l w₂ w₃) : Undisturbed l w₁ w₃ := by
  refine ⟨h.later.trans h'.later, h.grows.trans h'.grows,
    fun keyPrefix hcache hdrop now key e hunder he => ?_⟩
  rcases h'.entries keyPrefix hcache hdrop now key e hunder he with hcovers | he'
  · exact .inl hcovers
  · exact h.entries keyPrefix hcache hdrop now key e hunder he'

/-! ## The sweep -/

/-- An entry under the prefix covers the rows, or its key is in hand, or the SCAN iteration owes
    it. -/
structure Sweep (keyPrefix : String) (rows : List PricePoint) (keys : List String) (cursor : Nat)
    (m : Machine) : Prop where
  cache : keyPrefix ∈ cachePrefixes
  dropping : m.session.Dropping keyPrefix
  added : m.session.added = rows
  left : ∀ key e, m.world.redis.peek m.world.now.us key = some e → hasPrefix keyPrefix key = true →
    Covers rows e.value.source ∨ key ∈ keys ∨ cursor ≠ 0 ∧ (key, e.born) ∈ m.session.owed

section Sweep

variable {env : Env} {keyPrefix : String} {rows : List PricePoint} {keys : List String}
  {cursor : Nat} {m : Machine}

/-- The moves of others keep it. -/
theorem Sweep.moved (h : Sweep keyPrefix rows keys cursor m) {w : World}
    (hR : Undisturbed m.session m.world w) : Sweep keyPrefix rows keys cursor (m.inWorld w) where
  cache := h.cache
  dropping := h.dropping
  added := h.added
  left := by
    intro key e he hunder
    -- an entry that others have stored since has the rows; one that was there is accounted for
    rcases hR.entries keyPrefix h.cache h.dropping w.now.us key e hunder he with hcovers | he'
    · exact .inl (h.added ▸ hcovers)
    · exact h.left key e (peek_of_le he' hR.later) hunder

theorem Session.Dropping.cons {l : Session} (h : l.Dropping keyPrefix) (e : Event) :
    ({ l with log := e :: l.log } : Session).Dropping keyPrefix := by
  obtain ⟨cursor, ans, hmem⟩ := h
  exact ⟨cursor, ans, List.mem_cons_of_mem _ hmem⟩

/-- At the end every entry has the rows. -/
theorem Sweep.covers (h : Sweep keyPrefix rows [] 0 m) (key : String) (e : Entry Cached)
    (he : m.world.redis.peek m.world.now.us key = some e)
    (hunder : hasPrefix keyPrefix key = true) : Covers rows e.value.source := by
  rcases h.left key e he hunder with hcovers | hmem | ⟨hzero, -⟩
  · exact hcovers
  · cases hmem
  · exact absurd rfl hzero

/-- A `DELETE` takes a key out of hand. -/
theorem Sweep.delete {key : String} (env : Env) (h : Sweep keyPrefix rows (key :: keys) cursor m)
    {c : Choice} (hc : c.Healthy) :
    (exec env c (.redis (.delete key)) m).1 = .ok ()
      ∧ Sweep keyPrefix rows keys cursor (exec env c (.redis (.delete key)) m).2 := by
  simp only [exec, perform, exec_healthy hc, RedisCmd.serve]
  refine ⟨trivial, h.cache, h.dropping.cons _, h.added, fun key' e he hunder => ?_⟩
  have hne : key' ≠ key := by
    rintro rfl
    rw [Machine.record_world, peek_remove_self] at he
    cases he
  rw [Machine.record_world, peek_remove_ne _ hne] at he
  rcases h.left key' e he hunder with hcovers | hmem | howed
  · exact .inl hcovers
  · exact .inr (.inl ((List.mem_cons.mp hmem).resolve_left hne))
  · exact .inr (.inr howed)

/-- A batch of the SCAN brings keys in hand. -/
theorem Sweep.scan (env : Env) (hcache : keyPrefix ∈ cachePrefixes)
    (hadded : m.session.added = rows) (h : cursor = 0 ∨ Sweep keyPrefix rows [] cursor m)
    {c : Choice} (hc : c.Healthy) :
    ∃ after keys, (exec env c (.redis (.scan cursor keyPrefix)) m).1 = .ok (after, keys)
      ∧ (cursor ≠ 0 → after = cursor - 1)
      ∧ Sweep keyPrefix rows keys after (exec env c (.redis (.scan cursor keyPrefix)) m).2 := by
  simp only [exec, perform, exec_healthy hc, RedisCmd.serve]
  refine ⟨_, _, rfl, fun hcursor => ?_, hcache, ⟨cursor, _, List.mem_cons_self⟩,
    hadded, fun key e he hunder => ?_⟩
  · rw [scanBatch_cursor, batchesAfter, if_neg hcursor]
  · rw [scanBatch_cursor]
    have howed : Covers rows e.value.source ∨ cursor = 0 ∨ (key, e.born) ∈ m.session.owed := by
      rcases h with hzero | hsweep
      · exact .inr (.inl hzero)
      · rcases hsweep.left key e he hunder with hcovers | hmem | howed
        · exact .inl hcovers
        · cases hmem
        · exact .inr (.inr howed.2)
    exact howed.imp id fun howed => scanBatch_covers he hunder howed

/-- Deleting the keys in hand, one after the other. -/
theorem amid_deleteKeys (removed : Nat) (h : Sweep keyPrefix rows keys cursor m) :
    Amid (S := svc) Choice.Healthy (handler env) Undisturbed
      (fun r w l => (∃ n, r = (.ok (), n)) ∧ Sweep keyPrefix rows [] cursor ⟨w, l⟩)
      (deleteKeys keys removed) m.world m.session := by
  induction keys generalizing removed m with
  | nil => exact fun w hR => ⟨⟨removed, rfl⟩, h.moved hR⟩
  | cons key keys ih =>
    have hprog : deleteKeys (key :: keys) removed = .call (.redis (.delete key)) fun r =>
        match r with
        | .ok _ => deleteKeys keys (removed + 1)
        | .error e => pure (.error (.redis e), removed) := by
      show Prog.call _ _ = _
      congr 1
      funext r
      cases r <;> rfl
    rw [hprog]
    intro w hR c hc
    obtain ⟨hans, hsweep⟩ := (h.moved hR).delete env hc
    show Amid _ _ _ _ (match (exec env c (.redis (.delete key)) (m.inWorld w)).1 with
      | .ok _ => deleteKeys keys (removed + 1)
      | .error e => pure (.error (.redis e), removed)) _ _
    rw [hans]
    exact ih (removed + 1) hsweep

/-- How `scanThen` goes on from the reply. -/
def scanReply (removed : Nat) (next : Nat → Nat → Prog svc Removal) :
    Except RedisError (Nat × List String) → Prog svc Removal
  | .error e => pure (.error (.redis e), removed)
  | .ok (after, keys) => deleteKeys keys removed >>= fun r => match r with
    | (.error e, removed) => pure (.error e, removed)
    | (.ok _, removed) => next after removed

theorem scanThen_eq (removed : Nat) (next : Nat → Nat → Prog svc Removal) :
    scanThen keyPrefix cursor removed next
      = .call (.redis (.scan cursor keyPrefix)) (scanReply removed next) := by
  show Prog.call _ _ = _
  congr 1
  funext r
  cases r <;> rfl

/-- One batch: an entry without the rows is deleted, or still owed. -/
theorem amid_scanThen (removed : Nat) {next : Nat → Nat → Prog svc Removal}
    {Q : Removal → World → Session → Prop} (hcache : keyPrefix ∈ cachePrefixes)
    (hadded : m.session.added = rows) (h : cursor = 0 ∨ Sweep keyPrefix rows [] cursor m)
    (hnext : ∀ after removed m', (cursor ≠ 0 → after = cursor - 1) →
      Sweep keyPrefix rows [] after m' →
      Amid (S := svc) Choice.Healthy (handler env) Undisturbed Q (next after removed) m'.world
        m'.session) :
    Amid (S := svc) Choice.Healthy (handler env) Undisturbed Q
      (scanThen keyPrefix cursor removed next) m.world m.session := by
  rw [scanThen_eq]
  intro w hR c hc
  obtain ⟨after, keys, hans, hafter, hsweep⟩ :=
    Sweep.scan (m := m.inWorld w) env hcache hadded (h.imp id fun h => h.moved hR) hc
  show Amid _ _ _ _ (scanReply removed next
    (exec env c (.redis (.scan cursor keyPrefix)) (m.inWorld w)).1) _ _
  rw [hans, scanReply]
  refine Pool.amid_bind (amid_deleteKeys removed hsweep) fun r w' l' hdeleted => ?_
  obtain ⟨⟨n, rfl⟩, hswept⟩ := hdeleted w' (.refl l' w')
  exact hnext after n ⟨w', l'⟩ hafter hswept

theorem amid_scanRest (removed : Nat) (h : Sweep keyPrefix rows [] cursor m) :
    Amid (S := svc) Choice.Healthy (handler env) Undisturbed
      (fun _ w l => Sweep keyPrefix rows [] 0 ⟨w, l⟩) (scanRest keyPrefix cursor removed) m.world
      m.session := by
  induction cursor generalizing removed m with
  | zero => exact fun w hR => h.moved hR
  | succ cursor ih =>
    refine amid_scanThen removed h.cache h.added (.inr h)
      fun after removed m' hafter hsweep => ih removed ?_
    rw [hafter (Nat.succ_ne_zero cursor)] at hsweep
    exact hsweep

/-- What is swept stays swept while other keys are dropped. -/
theorem Sweep.kept (h : Sweep keyPrefix rows [] 0 m) {c : Choice} {op : Op}
    (hop : InvalidationCall op) : Sweep keyPrefix rows [] 0 (exec env c op m).2 := by
  have htables : m.SameTables (exec env c op m).2 :=
    exec_sameTables (noStatement_of_invalidationCall op hop) m
  have hlogs : m.Logs InvalidationCall (exec env c op m).2 := exec_logs hop m
  obtain ⟨events, hlog, -⟩ := hlogs
  refine ⟨h.cache, ?_, htables.added.trans h.added, fun key e he hunder => ?_⟩
  · obtain ⟨cursor, ans, hmem⟩ := h.dropping
    exact ⟨cursor, ans, hlog ▸ List.mem_append_right _ hmem⟩
  · rw [htables.now] at he
    rcases h.left key e (exec_shrinks hop m _ key e he) hunder with hcovers | hmem | ⟨hzero, -⟩
    · exact .inl hcovers
    · cases hmem
    · exact absurd rfl hzero

theorem amid_kept {α : Type} {p : Svc α} (hp : p.Only InvalidationCall)
    (h : Sweep keyPrefix rows [] 0 m) :
    Svc.amid env Choice.Healthy Undisturbed p (fun _ m' => Sweep keyPrefix rows [] 0 m') m :=
  Svc.amid_of_only (fun _ _ h hR => h.moved hR) (fun _ _ _ _ hop h => h.kept hop) hp h

/-- **An invalidation amid others** leaves no entry without the rows. -/
theorem amid_invalidatePrefix (hcache : keyPrefix ∈ cachePrefixes)
    (hadded : m.session.added = rows) :
    Svc.amid env Choice.Healthy Undisturbed (invalidatePrefix keyPrefix)
      (fun r m' => (∃ n, r = .ok n) ∧ Sweep keyPrefix rows [] 0 m') m := by
  have hscan : Amid (S := svc) Choice.Healthy (handler env) Undisturbed
      (fun _ w l => Sweep keyPrefix rows [] 0 ⟨w, l⟩) (scanDelete keyPrefix) m.world m.session :=
    amid_scanThen 0 hcache hadded (.inl rfl) fun after removed m' _ h => amid_scanRest removed h
  refine Svc.amid_seq (Svc.amid_lift hscan) (fun r m' h => ?_) fun e m' h => ?_
  · obtain ⟨_, -, hsweep⟩ := h m'.world (.refl _ _)
    have hreturn (n : Nat) (m' : Machine) (hsweep : Sweep keyPrefix rows [] 0 m') :
        Svc.amid env Choice.Healthy Undisturbed (pure n)
          (fun r m' => (∃ n, r = .ok n) ∧ Sweep keyPrefix rows [] 0 m') m' :=
      Svc.amid_pure.mpr fun w hR => ⟨⟨n, rfl⟩, hsweep.moved hR⟩
    rcases r with ⟨e | _, removed⟩
    · exact Svc.amid_call.mpr fun w hR c hc =>
        hreturn removed _ ((hsweep.moved hR).kept (.inr (.inr ⟨.errors, rfl⟩)))
    · exact hreturn removed m' hsweep
  · obtain ⟨_, h, -⟩ := h
    cases h

end Sweep

/-! ## What others do -/

/-- A counter that is bumped is the limiter's. -/
def OwnCounter (op : Op) : Prop :=
  ∀ key ex, op = .redis (.incrExpire key ex) → hasPrefix "rl:" key = true

/-- A counter of the limiter is under no prefix of the cache. -/
theorem not_cache_of_limiter {keyPrefix key : String} (hcache : keyPrefix ∈ cachePrefixes)
    (hkey : hasPrefix "rl:" key = true) : hasPrefix keyPrefix key = false := by
  have hhead := hasPrefix_head (c := 'r') hkey (by decide)
  by_contra hunder
  have hunder := Bool.of_not_eq_false hunder
  simp only [cachePrefixes, List.mem_cons, List.not_mem_nil, or_false] at hcache
  rcases hcache with rfl | rfl
  · have hother := hasPrefix_head (c := 'p') hunder (by decide)
    rw [hhead] at hother
    exact absurd hother (by decide)
  · have hother := hasPrefix_head (c := 'i') hunder (by decide)
    rw [hhead] at hother
    exact absurd hother (by decide)

/-- Every call grows the table. -/
theorem exec_grows (env : Env) (c : Choice) (op : Op) (m : Machine) :
    m.world.db.Grows (exec env c op m).2.world.db
    ∧ (exec env c op m).2.world.now = m.world.now := by
  rcases noStatement_or_db op with hop | ⟨stmt, rfl⟩
  · have htables : m.SameTables (exec env c op m).2 := exec_sameTables hop m
    rw [htables.db]
    exact ⟨.refl _, htables.now⟩
  · simp only [exec, perform, Machine.record_world]
    rcases stmt.exec_cases env c m with h | h | ⟨_, _, -, -, h⟩ | ⟨db, -, hdb, h⟩
    · rw [h]
      exact ⟨.refl _, rfl⟩
    · rw [h]
      exact ⟨.refl _, rfl⟩
    · rw [h]
      exact ⟨.refl _, rfl⟩
    · rw [h]
      exact ⟨(Database.insertPrices_ok hdb).1, rfl⟩

/-- **A call of another request** leaves an invalidation undisturbed, if whatever it stores has the
    rows. -/
theorem exec_undisturbed {env : Env} {c : Choice} {op : Op} {m : Machine} (l : Session)
    (hc : c.Healthy) (hop : OwnCounter op)
    (hfresh : ∀ key value ex, op = .redis (.set key value ex) →
      ∀ keyPrefix ∈ cachePrefixes, l.Dropping keyPrefix → hasPrefix keyPrefix key = true →
        Covers l.added m.session.source) :
    Undisturbed l m.world (exec env c op m).2.world := by
  obtain ⟨hgrows, hnow⟩ := exec_grows env c op m
  refine ⟨by rw [hnow], hgrows, fun keyPrefix hcache hdrop now key e hunder he => ?_⟩
  -- an entry under a cache prefix was there already, unless the call is the `SET` that made it
  cases op with
  | time => exact .inr he
  | now => exact .inr he
  | bump stat => exact .inr he
  | db stmt =>
    rw [exec_sameRedis ⟨stmt, rfl⟩] at he
    exact .inr he
  | redis cmd =>
    simp only [exec, perform, exec_healthy hc, Machine.record_world] at he
    cases cmd with
    | get key' =>
      rw [← exec_healthy hc, exec_get_redis] at he
      exact .inr he
    | set key' value ex =>
      simp only [RedisCmd.serve] at he
      split at he
      · exact .inr he
      · by_cases hkey : key = key'
        · subst hkey
          rw [(peek_put_self _ he).1]
          exact .inl (hfresh key value ex rfl keyPrefix hcache hdrop hunder)
        · rw [peek_put_ne _ _ _ _ hkey] at he
          exact .inr he
    | incrExpire key' ex =>
      have hne : key ≠ key' := by
        rintro rfl
        rw [not_cache_of_limiter hcache (hop key ex rfl)] at hunder
        cases hunder
      simp only [RedisCmd.serve] at he
      rw [peek_incrCounter_ne _ _ _ _ hne] at he
      exact .inr he
    | scan cursor keyPrefix' => exact .inr he
    | delete key' => exact .inr (shrinks_remove _ _ _ _ _ he)

end GpuIndex
