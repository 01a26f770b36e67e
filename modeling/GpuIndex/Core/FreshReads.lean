/-
  A read through the cache, once some rows have settled.

  Rows have settled in a world when they are in the table and in the source of every cache entry
  (`World.Settled`).  As long as the others keep it so, what a read answers with was computed from a
  database with the rows, whether it was a hit or not (`amid_readThrough`).
-/
import GpuIndex.Core.FreshEntries

namespace GpuIndex

open ExpiringStore
open JsonText (loads)

/-- The rows are in the table, and in the source of every entry of the cache. -/
structure World.Settled (rows : List PricePoint) (w : World) : Prop where
  table : ∀ r ∈ rows, r ∈ w.db.pricePoints
  entries : ∀ keyPrefix ∈ cachePrefixes, ∀ key e, w.redis.peek w.now.us key = some e →
    hasPrefix keyPrefix key = true → Covers rows e.value.source

/-- The others keep the rows settled. -/
def KeepsSettled (rows : List PricePoint) : Rely := fun _ w w' => w.Settled rows → w'.Settled rows

section Settled

variable {rows : List PricePoint} {env : Env} {m : Machine}

/-- What is read from the database has the rows. -/
theorem World.Settled.covers {w : World} (h : w.Settled rows) : Covers rows (some w.db) :=
  fun r hr => ⟨w.db, rfl, h.table r hr⟩

/-- A key space with no new cache entry, over a table that has grown, keeps the rows settled. -/
theorem World.Settled.of_entries {w w' : World} (h : w.Settled rows) (hgrows : w.db.Grows w'.db)
    (hnow : w'.now = w.now)
    (hentries : ∀ keyPrefix ∈ cachePrefixes, ∀ key e, hasPrefix keyPrefix key = true →
      w'.redis.peek w.now.us key = some e → w.redis.peek w.now.us key = some e) :
    w'.Settled rows where
  table := fun r hr => hgrows.pricePoints.subset (h.table r hr)
  entries := by
    intro keyPrefix hcache key e he hunder
    rw [hnow] at he
    exact h.entries keyPrefix hcache key e (hentries keyPrefix hcache key e hunder he) hunder

/-- The limiter and queries keep the rows settled. -/
theorem settled_of_limiterCall {c : Choice} {op : Op} (hop : LimiterCall op)
    (h : m.world.Settled rows) : (exec env c op m).2.world.Settled rows := by
  obtain ⟨hgrows, hnow⟩ := exec_grows env c op m
  refine h.of_entries hgrows hnow fun keyPrefix hcache key e hunder he => ?_
  have hsame : m.SameCache (exec env c op m).2 := exec_sameCache hop m
  have hkey : hasPrefix "rl:" key = false := by
    by_contra hlimiter
    rw [not_cache_of_limiter hcache (Bool.of_not_eq_false hlimiter)] at hunder
    cases hunder
  rwa [hsame.peek _ key hkey] at he

theorem settled_of_statementCall {c : Choice} {op : Op} (hop : StatementCall op)
    (h : m.world.Settled rows) : (exec env c op m).2.world.Settled rows := by
  obtain ⟨hgrows, hnow⟩ := exec_grows env c op m
  refine h.of_entries hgrows hnow fun keyPrefix hcache key e hunder he => ?_
  rwa [exec_sameRedis hop] at he

theorem settled_bump {c : Choice} {stat : Stat} (h : m.world.Settled rows) :
    (exec env c (.bump stat) m).2.world.Settled rows :=
  ⟨h.table, h.entries⟩

/-- The rows in hand have the rows, as long as nothing else is read. -/
theorem covers_of_fillCall {key : String} {c : Choice} {op : Op} (hop : FillCall key op)
    (h : Covers rows m.session.source) : Covers rows (exec env c op m).2.session.source := by
  rcases hop with ⟨value, ex, rfl⟩ | ⟨stat, rfl⟩
  · rw [exec_set_source]
    exact h
  · exact h

/-- What a request answers with, if it does, has the rows. -/
def AnswersWith (rows : List PricePoint) {α : Type} (r : Except Exn α) (m : Machine) : Prop :=
  (∃ a, r = .ok a) → Covers rows m.session.source

theorem amid_answer {α : Type} {R : Rely} {C : Choice → Prop} (a : α)
    (h : Covers rows m.session.source) : Svc.amid env C R (pure a) (AnswersWith rows) m :=
  Svc.amid_pure.mpr fun _ _ _ => h

/-- **The lookup**: a value that was found has the rows, and they are still settled. -/
theorem amid_lookupCached {keyPrefix key : String} (hcache : keyPrefix ∈ cachePrefixes)
    (hunder : hasPrefix keyPrefix key = true) (h : m.world.Settled rows) :
    Svc.amid env Choice.Healthy (KeepsSettled rows) (lookupCached env key) (fun r m' =>
      m'.world.Settled rows ∧ ∀ value, r = .ok (some value) → Covers rows m'.session.source) m := by
  refine Svc.amid_redis fun w hR c hc => ?_
  have hw := hR h
  rw [exec_healthy hc]
  simp only [RedisCmd.serve, Machine.inWorld_world]
  cases he : w.redis.peek w.now.us key with
  | none =>
    dsimp only
    exact fun w' hR' => ⟨hR' hw, fun _ h => by cases h⟩
  | some e =>
    dsimp only
    refine Svc.amid_call.mpr fun w₁ hR₁ c₁ _ => ?_
    have hsource : Covers rows e.value.source := hw.entries keyPrefix hcache key e he hunder
    have hw₁ : w₁.Settled rows := hR₁ hw
    split
    · exact fun w' hR' => ⟨hR' (settled_bump (m := ⟨w₁, _⟩) hw₁), fun _ _ => hsource⟩
    · exact fun w' hR' => ⟨hR' (settled_bump (m := ⟨w₁, _⟩) hw₁), fun _ h => by cases h⟩

/-- **A read through the cache**: from the entry of the key or from the producer, the value has the
    rows. -/
theorem amid_readThrough {keyPrefix key : String} (hcache : keyPrefix ∈ cachePrefixes)
    (hunder : hasPrefix keyPrefix key = true) {producer : Svc Json} (ttl : Option Int)
    (hproducer : ∀ m, m.world.Settled rows →
      Svc.amid env Choice.Healthy (KeepsSettled rows) producer (AnswersWith rows) m)
    (h : m.world.Settled rows) :
    Svc.amid env Choice.Healthy (KeepsSettled rows) (readThrough env key producer ttl)
      (AnswersWith rows) m := by
  have hlookup : Svc.amid env Choice.Healthy (KeepsSettled rows)
      (tryCatch (lookupCached env key) fun _ => do
        call (.bump .errors)
        return none)
      (fun r m' => (∃ a, r = .ok a) ∧ m'.world.Settled rows
        ∧ ∀ value, r = .ok (some value) → Covers rows m'.session.source) m := by
    refine Svc.amid_try (amid_lookupCached hcache hunder h) (fun a m' h => ⟨⟨a, rfl⟩, h⟩)
      fun e m' h => ?_
    have hm' : m'.world.Settled rows := (h m'.world id).1
    refine Svc.amid_call.mpr fun w hR c _ w' hR' => ⟨⟨none, rfl⟩, ?_, fun _ h => nomatch h⟩
    exact hR' (settled_bump (m := m'.inWorld w) (hR hm'))
  unfold readThrough
  refine Svc.amid_seq hlookup (fun cached m' h => ?_) fun e m' h => ?_
  · obtain ⟨-, hm', hcached⟩ := h m'.world id
    cases cached with
    | some value => exact amid_answer _ (hcached value rfl)
    | none =>
      refine Svc.amid_call.mpr fun w hR c _ => ?_
      refine Svc.amid_seq (hproducer _ (settled_bump (m := m'.inWorld w) (hR hm'))) ?_ ?_
      · intro value m₁ hvalue
        have hsource : Covers rows m₁.session.source := hvalue m₁.world id ⟨value, rfl⟩
        -- storing the value leaves the rows in hand as they are
        have honly : (tryCatch (redis (.set key (dumpsText env value)
            (ttl.getD env.settings.cacheTtlSeconds))) fun _ => call (.bump .errors)).Only
            (FillCall key) :=
          Svc.only_tryCatch (Svc.only_redis (.inl ⟨_, _, rfl⟩)) fun _ =>
            Svc.only_call (.inr ⟨.errors, rfl⟩)
        refine Svc.amid_seq (Svc.amid_of_only (P := fun m => Covers rows m.session.source)
          (fun _ _ h _ => h) (fun _ _ _ _ hop h => covers_of_fillCall hop h) honly hsource) ?_ ?_
        · exact fun _ m₂ h => amid_answer _ (h m₂.world id)
        · rintro e m₂ h ⟨a, ha⟩
          cases ha
      · rintro e m₁ h ⟨a, ha⟩
        cases ha
  · obtain ⟨⟨a, ha⟩, -⟩ := h
    cases ha

end Settled

end GpuIndex
