/-
  What an invalidation reaches.

  A SCAN iteration owes every key under its prefix that was there when it began; with its last batch
  it has reported them all, but for keys that were gone in between.  `invalidate_prefix` deletes
  what is reported, so on a healthy Redis with nobody else writing no key under the prefix is left
  (`wp_invalidatePrefix_cleared`).  It never reports any other key, so whatever Redis does the other
  keys are spared (`wp_invalidatePrefix_spares`).
-/
import GpuIndex.Core.Effects

namespace GpuIndex

open ExpiringStore

/-- The command is answered. -/
def Choice.Healthy (c : Choice) : Prop := c.fault = .none

theorem Choice.healthy_calm : Choice.calm.Healthy := rfl

/-! ## One batch -/

section Scan

variable {c : Choice} {redis : Redis} {now cursor : Nat} {keyPrefix key : String}
  {e : Entry Cached} {owed : List (String × Nat)}

theorem mem_stillOwed (hlive : redis.peek now key = some e) :
    (key, e.born) ∈ stillOwed redis now owed ↔ (key, e.born) ∈ owed := by
  simp [stillOwed, hlive]

theorem mem_scanDebt (hlive : redis.peek now key = some e)
    (hunder : hasPrefix keyPrefix key = true) : (key, e.born) ∈ scanDebt redis now keyPrefix := by
  refine List.mem_filterMap.mpr ⟨key, List.mem_filter.mpr ⟨mem_liveKeys.mpr ?_, hunder⟩, ?_⟩
  · rw [hlive]
    rfl
  · rw [hlive]
    rfl

theorem scanBatch_cursor :
    (scanBatch c redis now cursor keyPrefix owed).1.1 = batchesAfter c cursor := by
  unfold scanBatch
  dsimp only
  generalize stillOwed redis now (if cursor = 0 then scanDebt redis now keyPrefix else owed) = debt
  by_cases hmore : batchesAfter c cursor = 0
  · rw [if_pos hmore, hmore]
    split <;> rfl
  · rw [if_neg hmore]

/-- A key that is owed is reported, or it is still owed and batches follow. -/
theorem scanBatch_covers (hlive : redis.peek now key = some e)
    (hunder : hasPrefix keyPrefix key = true) (howed : cursor = 0 ∨ (key, e.born) ∈ owed) :
    key ∈ (scanBatch c redis now cursor keyPrefix owed).1.2
      ∨ batchesAfter c cursor ≠ 0
        ∧ (key, e.born) ∈ (scanBatch c redis now cursor keyPrefix owed).2 := by
  have hdebt : (key, e.born)
      ∈ stillOwed redis now (if cursor = 0 then scanDebt redis now keyPrefix else owed) := by
    rw [mem_stillOwed hlive]
    split
    · exact mem_scanDebt hlive hunder
    · rename_i h
      exact howed.resolve_left h
  unfold scanBatch
  dsimp only
  generalize stillOwed redis now (if cursor = 0 then scanDebt redis now keyPrefix else owed) = debt
    at hdebt ⊢
  -- the last batch reports all that is owed
  by_cases hmore : batchesAfter c cursor = 0
  · rw [if_pos hmore]
    split
    · rename_i hall
      exact .inl (hall _ hdebt)
    · exact .inl (List.mem_append_right _ (List.mem_map.mpr ⟨_, hdebt, rfl⟩))
  · rw [if_neg hmore]
    by_cases hkey : key ∈ c.batch.filter (hasPrefix keyPrefix)
    · exact .inl hkey
    · exact .inr ⟨hmore, List.mem_filter.mpr ⟨hdebt, decide_eq_true hkey⟩⟩

end Scan

/-! ## Healthy commands -/

section Healthy

variable {env : Env} {m : Machine}

theorem exec_healthy {c : Choice} (hc : c.Healthy) (cmd : RedisCmd) (m : Machine) :
    cmd.exec c m = cmd.serve c m := by
  rw [RedisCmd.exec, hc]

/-- The keys under the prefix that are there are owed, if batches follow, and else there are
    none. -/
def Machine.Owes (m : Machine) (keyPrefix : String) (cursor : Nat) : Prop :=
  ∀ key e, m.world.redis.peek m.world.now.us key = some e → hasPrefix keyPrefix key = true →
    cursor ≠ 0 ∧ (key, e.born) ∈ m.session.owed

/-- Deleting keys one after the other leaves the others. -/
theorem wp_deleteKeys (keys : List String) (removed : Nat) (m : Machine) :
    Prog.wp (S := svc) Choice.Healthy (exec env) (deleteKeys keys removed) (fun r m' =>
      (∃ n, r = (.ok (), n)) ∧ m'.session.owed = m.session.owed ∧ m'.world.now = m.world.now
        ∧ ∀ now key e, m'.world.redis.peek now key = some e →
          key ∉ keys ∧ m.world.redis.peek now key = some e) m := by
  induction keys generalizing removed m with
  | nil => exact ⟨⟨removed, rfl⟩, rfl, rfl, fun _ _ _ h => ⟨List.not_mem_nil, h⟩⟩
  | cons key keys ih =>
    have hdelete : Svc.wp env Choice.Healthy (redis (.delete key)) (fun r m' => r = .ok ()
        ∧ m'.session.owed = m.session.owed ∧ m'.world.now = m.world.now
        ∧ m'.world.redis = m.world.redis.remove key) m := by
      rw [Svc.wp_redis]
      intro c hc
      rw [exec_healthy hc]
      exact ⟨rfl, rfl, rfl, rfl⟩
    refine Prog.wp_bind.mpr (Prog.wp_mono hdelete ?_)
    rintro r m₁ ⟨rfl, howed, hnow, hredis⟩
    refine Prog.wp_mono (ih (removed + 1) m₁) ?_
    rintro r m' ⟨hr, howed', hnow', hpeek⟩
    refine ⟨hr, howed'.trans howed, hnow'.trans hnow, fun now key' e he => ?_⟩
    obtain ⟨hmem, he₁⟩ := hpeek now key' e he
    rw [hredis] at he₁
    have hne : key' ≠ key := by
      rintro rfl
      rw [peek_remove_self] at he₁
      cases he₁
    rw [peek_remove_ne _ hne] at he₁
    exact ⟨fun h => (List.mem_cons.mp h).elim hne hmem, he₁⟩

/-- One batch: what was owed is deleted or still owed. -/
theorem wp_scanThen {keyPrefix : String} {cursor removed : Nat}
    {next : Nat → Nat → Prog svc Removal} {Q : Removal → Machine → Prop}
    (howes : cursor = 0 ∨ m.Owes keyPrefix cursor)
    (hnext : ∀ after removed m', (cursor ≠ 0 → after = cursor - 1) → m'.Owes keyPrefix after →
      Prog.wp (S := svc) Choice.Healthy (exec env) (next after removed) Q m') :
    Prog.wp (S := svc) Choice.Healthy (exec env) (scanThen keyPrefix cursor removed next) Q m := by
  have hscan : Svc.wp env Choice.Healthy (redis (.scan cursor keyPrefix)) (fun r m' =>
      ∃ after keys, r = .ok (after, keys) ∧ (cursor ≠ 0 → after = cursor - 1) ∧ m'.world = m.world
        ∧ ∀ key e, m.world.redis.peek m.world.now.us key = some e → hasPrefix keyPrefix key = true →
          key ∈ keys ∨ after ≠ 0 ∧ (key, e.born) ∈ m'.session.owed) m := by
    rw [Svc.wp_redis]
    intro c hc
    rw [exec_healthy hc]
    refine ⟨_, _, rfl, fun hcursor => ?_, rfl, fun key e he hunder => ?_⟩
    · rw [scanBatch_cursor, batchesAfter, if_neg hcursor]
    · rw [scanBatch_cursor]
      exact scanBatch_covers he hunder (howes.imp id fun h => (h key e he hunder).2)
  refine Prog.wp_bind.mpr (Prog.wp_mono hscan ?_)
  rintro r m₁ ⟨after, keys, rfl, hafter, hworld, hcovers⟩
  refine Prog.wp_bind.mpr (Prog.wp_mono (wp_deleteKeys keys removed m₁) ?_)
  rintro r m₂ ⟨⟨n, rfl⟩, howed, hnow, hpeek⟩
  -- a key that is left was not in the batch, so it is owed
  refine hnext after n m₂ hafter fun key e he hunder => ?_
  obtain ⟨hmem, he₁⟩ := hpeek _ key e he
  rw [hnow, hworld] at he₁
  rw [howed]
  exact (hcovers key e he₁ hunder).resolve_left hmem

theorem wp_scanRest {keyPrefix : String} {cursor removed : Nat}
    (howes : m.Owes keyPrefix cursor) :
    Prog.wp (S := svc) Choice.Healthy (exec env) (scanRest keyPrefix cursor removed)
      (fun _ m' => m'.Owes keyPrefix 0) m := by
  induction cursor generalizing removed m with
  | zero => exact howes
  | succ cursor ih =>
    refine wp_scanThen (.inr howes) fun after removed m' hafter h => ih ?_
    rw [hafter (Nat.succ_ne_zero cursor)] at h
    exact h

/-- No key under the prefix is there. -/
def World.Cleared (w : World) (keyPrefix : String) : Prop :=
  ∀ key e, w.redis.peek w.now.us key = some e → hasPrefix keyPrefix key = false

/-- **A healthy invalidation** leaves no key under its prefix. -/
theorem wp_invalidatePrefix_cleared (keyPrefix : String) (m : Machine) :
    Svc.wp env Choice.Healthy (invalidatePrefix keyPrefix)
      (fun _ m' => m'.world.Cleared keyPrefix) m := by
  have hscan : Prog.wp (S := svc) Choice.Healthy (exec env) (scanDelete keyPrefix)
      (fun _ m' => m'.Owes keyPrefix 0) m :=
    wp_scanThen (.inl rfl) fun after removed m' _ h => wp_scanRest h
  have hcleared (m' : Machine) (h : m'.Owes keyPrefix 0) : m'.world.Cleared keyPrefix := by
    intro key e he
    by_contra hunder
    exact (h key e he (Bool.of_not_eq_false hunder)).1 rfl
  rw [invalidatePrefix, Svc.wp_bind, Svc.wp_lift]
  refine Prog.wp_mono hscan fun r m' h => ?_
  rcases r with ⟨e | _, removed⟩
  · exact fun c _ => hcleared m' h
  · exact hcleared m' h

end Healthy

/-! ## What is spared -/

/-- The keys that are not under the prefix are as before. -/
def Machine.Spares (keyPrefix : String) (m m' : Machine) : Prop :=
  ∀ now key, hasPrefix keyPrefix key = false →
    m'.world.redis.peek now key = m.world.redis.peek now key

theorem Machine.Spares.refl (keyPrefix : String) (m : Machine) : m.Spares keyPrefix m :=
  fun _ _ _ => rfl

theorem Machine.Spares.trans {keyPrefix : String} {a b c : Machine} (h₁ : a.Spares keyPrefix b)
    (h₂ : b.Spares keyPrefix c) : a.Spares keyPrefix c :=
  fun now key hkey => (h₂ now key hkey).trans (h₁ now key hkey)

/-- The running SCAN iteration owes keys under the prefix only. -/
def Machine.OwesUnder (m : Machine) (keyPrefix : String) : Prop :=
  ∀ o ∈ m.session.owed, hasPrefix keyPrefix o.1 = true

section Spared

variable {env : Env} {C : Choice → Prop} {keyPrefix : String} {m : Machine}

/-- A batch reports keys under the prefix, and owes such keys only. -/
theorem scanBatch_under (c : Choice) (redis : Redis) (now : Nat) {cursor : Nat}
    {owed : List (String × Nat)}
    (howed : cursor = 0 ∨ ∀ o ∈ owed, hasPrefix keyPrefix o.1 = true) :
    (∀ key ∈ (scanBatch c redis now cursor keyPrefix owed).1.2, hasPrefix keyPrefix key = true)
      ∧ ∀ o ∈ (scanBatch c redis now cursor keyPrefix owed).2, hasPrefix keyPrefix o.1 = true := by
  have hdebt :
      ∀ o ∈ stillOwed redis now (if cursor = 0 then scanDebt redis now keyPrefix else owed),
      hasPrefix keyPrefix o.1 = true := by
    intro o ho
    have hmem := (List.mem_filter.mp ho).1
    split at hmem
    · obtain ⟨key, hkey, hborn⟩ := List.mem_filterMap.mp hmem
      obtain ⟨e, -, rfl⟩ := Option.map_eq_some_iff.mp hborn
      exact (List.mem_filter.mp hkey).2
    · rename_i hcursor
      exact (howed.resolve_left hcursor) o hmem
  have hkeys : ∀ key ∈ c.batch.filter (hasPrefix keyPrefix), hasPrefix keyPrefix key = true :=
    fun _ h => (List.mem_filter.mp h).2
  unfold scanBatch
  dsimp only
  generalize stillOwed redis now (if cursor = 0 then scanDebt redis now keyPrefix else owed) = debt
    at hdebt ⊢
  split
  · split
    · exact ⟨hkeys, fun _ h => absurd h List.not_mem_nil⟩
    · refine ⟨fun key h => ?_, fun _ h => absurd h List.not_mem_nil⟩
      rcases List.mem_append.mp h with h | h
      · exact hkeys key h
      · obtain ⟨o, ho, rfl⟩ := List.mem_map.mp h
        exact hdebt o ho
  · exact ⟨hkeys, fun o h => hdebt o (List.mem_filter.mp h).1⟩

/-- A `DELETE`, answered or not, spares all keys but its own. -/
theorem exec_delete_spares (c : Choice) {key : String} (hkey : hasPrefix keyPrefix key = true)
    (m : Machine) : m.Spares keyPrefix ((RedisCmd.delete key).exec c m).2
      ∧ ((RedisCmd.delete key).exec c m).2.session.owed = m.session.owed := by
  have hremoved : m.Spares keyPrefix ((RedisCmd.delete key).serve c m).2 := by
    intro now key' hkey'
    refine peek_remove_ne _ ?_
    rintro rfl
    rw [hkey] at hkey'
    cases hkey'
  unfold RedisCmd.exec
  split
  · exact ⟨hremoved, rfl⟩
  · exact ⟨.refl keyPrefix m, rfl⟩
  · exact ⟨hremoved, rfl⟩

theorem wp_deleteKeys_spares (keys : List String)
    (hkeys : ∀ key ∈ keys, hasPrefix keyPrefix key = true) (removed : Nat) (m : Machine) :
    Prog.wp (S := svc) C (exec env) (deleteKeys keys removed)
      (fun _ m' => m.Spares keyPrefix m' ∧ m'.session.owed = m.session.owed) m := by
  induction keys generalizing removed m with
  | nil => exact ⟨.refl keyPrefix m, rfl⟩
  | cons key keys ih =>
    obtain ⟨hkey, hrest⟩ := List.forall_mem_cons.mp hkeys
    have hdelete : Svc.wp env C (redis (.delete key))
        (fun _ m' => m.Spares keyPrefix m' ∧ m'.session.owed = m.session.owed) m := by
      rw [Svc.wp_redis]
      intro c _
      have hspares := exec_delete_spares c hkey m
      rcases hexec : (RedisCmd.delete key).exec c m with ⟨e | r, m'⟩ <;>
        · rw [hexec] at hspares
          exact hspares
    refine Prog.wp_bind.mpr (Prog.wp_mono hdelete ?_)
    rintro (e | r) m₁ ⟨hspares, howed⟩
    · exact ⟨hspares, howed⟩
    · refine Prog.wp_mono (ih hrest (removed + 1) m₁) ?_
      rintro r m' ⟨hspares', howed'⟩
      exact ⟨hspares.trans hspares', howed'.trans howed⟩

/-- One batch: the keys that are deleted are under the prefix. -/
theorem wp_scanThen_spares {start : Machine} {cursor removed : Nat}
    {next : Nat → Nat → Prog svc Removal} (hspares : start.Spares keyPrefix m)
    (howed : cursor = 0 ∨ m.OwesUnder keyPrefix)
    (hnext : ∀ after removed m', start.Spares keyPrefix m' → m'.OwesUnder keyPrefix →
      Prog.wp (S := svc) C (exec env) (next after removed)
      (fun _ m' => start.Spares keyPrefix m') m') :
    Prog.wp (S := svc) C (exec env) (scanThen keyPrefix cursor removed next)
      (fun _ m' => start.Spares keyPrefix m') m := by
  have hscan : Svc.wp env C (redis (.scan cursor keyPrefix)) (fun r m' =>
      start.Spares keyPrefix m' ∧ ∀ after keys, r = .ok (after, keys) →
        (∀ key ∈ keys, hasPrefix keyPrefix key = true) ∧ m'.OwesUnder keyPrefix) m := by
    rw [Svc.wp_redis]
    intro c _
    have hunder := scanBatch_under c m.world.redis m.world.now.us howed
    cases hfault : c.fault with
    | none =>
      simp only [RedisCmd.exec, hfault, RedisCmd.serve]
      refine ⟨hspares, fun after keys h => ?_⟩
      obtain ⟨-, rfl⟩ := Prod.mk.inj (Except.ok.inj h)
      exact hunder
    | refused =>
      simp only [RedisCmd.exec, hfault]
      exact ⟨hspares, fun _ _ h => by cases h⟩
    | lost =>
      simp only [RedisCmd.exec, hfault, RedisCmd.serve]
      exact ⟨hspares, fun _ _ h => by cases h⟩
  refine Prog.wp_bind.mpr (Prog.wp_mono hscan ?_)
  rintro (e | ⟨after, keys⟩) m₁ ⟨hspares₁, hreply⟩
  · exact hspares₁
  · obtain ⟨hkeys, howed₁⟩ := hreply after keys rfl
    refine Prog.wp_bind.mpr (Prog.wp_mono (wp_deleteKeys_spares keys hkeys removed m₁) ?_)
    rintro ⟨e | _, n⟩ m₂ ⟨hspares₂, howed₂⟩
    · exact hspares₁.trans hspares₂
    · refine hnext after n m₂ (hspares₁.trans hspares₂) fun o ho => ?_
      rw [howed₂] at ho
      exact howed₁ o ho

theorem wp_scanRest_spares {start : Machine} {cursor removed : Nat}
    (hspares : start.Spares keyPrefix m) (howed : m.OwesUnder keyPrefix) :
    Prog.wp (S := svc) C (exec env) (scanRest keyPrefix cursor removed)
      (fun _ m' => start.Spares keyPrefix m') m := by
  induction cursor generalizing removed m with
  | zero => exact hspares
  | succ cursor ih =>
    exact wp_scanThen_spares hspares (.inr howed) fun after removed m' h h' => ih h h'

/-- **An invalidation spares the keys that are not under its prefix**, whatever Redis does. -/
theorem wp_invalidatePrefix_spares (keyPrefix : String) (m : Machine) :
    Svc.wp env C (invalidatePrefix keyPrefix) (fun _ m' => m.Spares keyPrefix m') m := by
  have hscan : Prog.wp (S := svc) C (exec env) (scanDelete keyPrefix)
      (fun _ m' => m.Spares keyPrefix m') m :=
    wp_scanThen_spares (.refl keyPrefix m) (.inl rfl) fun after removed m' h h' =>
      wp_scanRest_spares h h'
  rw [invalidatePrefix, Svc.wp_bind, Svc.wp_lift]
  refine Prog.wp_mono hscan fun r m' h => ?_
  rcases r with ⟨e | _, removed⟩
  · exact fun c _ => h
  · exact h

end Spared

end GpuIndex
