/-
  What the count of an invalidation says.

  `invalidate_prefix` counts the deletions that were answered.  SPECIFICATION
  (`invalidation_accounts`): it never raises, spares the keys that are not under the prefix, and
  keeps account of the entries it removed.  Where it counted no error, no entry under the prefix is
  left and the number returned covers all that there were; where it counted one, the number is short
  by at most the one deletion whose answer was lost.  It may exceed the entries, since a SCAN may
  report a key twice.

  The crux is `KeepsAccount`: what is gone so far is at most what was counted so far.
-/
import GpuIndex.Core.Invalidation
import Mathlib.Data.Finset.Card
import Mathlib.Data.Finset.Dedup

namespace GpuIndex

open ExpiringStore

/-- The entries under the prefix that were there at the start. -/
def entriesUnder (keyPrefix : String) (start : Machine) : Finset String :=
  ((start.world.redis.liveKeys start.world.now.us).filter (hasPrefix keyPrefix)).toFinset

/-- Those that are gone. -/
def gone (keyPrefix : String) (start m : Machine) : Finset String :=
  (entriesUnder keyPrefix start).filter fun key =>
    m.world.redis.peek start.world.now.us key |>.isNone

theorem mem_entriesUnder {keyPrefix key : String} {start : Machine} :
    key ∈ entriesUnder keyPrefix start
      ↔ (start.world.redis.peek start.world.now.us key).isSome
      ∧ hasPrefix keyPrefix key = true := by
  rw [entriesUnder, List.mem_toFinset, List.mem_filter, mem_liveKeys]

theorem gone_refl (keyPrefix : String) (m : Machine) : gone keyPrefix m m = ∅ := by
  refine Finset.filter_eq_empty_iff.mpr fun key hkey hnone => ?_
  have hsome := (mem_entriesUnder.mp hkey).1
  rw [Option.isNone_iff_eq_none.mp hnone] at hsome
  cases hsome

/-- Removing one key takes away one entry at most. -/
theorem card_gone_remove {keyPrefix key : String} {start m m' : Machine}
    (hredis : m'.world.redis = m.world.redis.remove key) :
    (gone keyPrefix start m').card ≤ (gone keyPrefix start m).card + 1 := by
  refine (Finset.card_le_card ?_).trans (Finset.card_insert_le key _)
  intro key' hkey'
  obtain ⟨hunder, hnone⟩ := Finset.mem_filter.mp hkey'
  by_cases hkey : key' = key
  · exact hkey ▸ Finset.mem_insert_self _ _
  · rw [hredis, peek_remove_ne _ hkey] at hnone
    exact Finset.mem_insert_of_mem (Finset.mem_filter.mpr ⟨hunder, hnone⟩)

/-- What is gone so far is at most what was counted, and what the count is short by. -/
structure KeepsAccount (keyPrefix : String) (start : Machine) (short removed : Nat) (m : Machine) :
    Prop where
  stats : m.world.stats = start.world.stats
  now : m.world.now = start.world.now
  count : (gone keyPrefix start m).card ≤ removed + short

section Account

variable {keyPrefix key : String} {start m m' : Machine} {short removed : Nat}

theorem KeepsAccount.refl : KeepsAccount keyPrefix start 0 0 start :=
  ⟨rfl, rfl, by rw [gone_refl, Finset.card_empty]⟩

/-- A call that changes the session only. -/
theorem KeepsAccount.of_world (h : KeepsAccount keyPrefix start short removed m)
    (hworld : m'.world = m.world) : KeepsAccount keyPrefix start short removed m' :=
  ⟨hworld ▸ h.stats, hworld ▸ h.now, by unfold gone; rw [hworld]; exact h.count⟩

theorem KeepsAccount.mono (h : KeepsAccount keyPrefix start short removed m) :
    KeepsAccount keyPrefix start (short + 1) removed m :=
  ⟨h.stats, h.now, by have := h.count; omega⟩

/-- A deletion that is not counted. -/
theorem KeepsAccount.uncounted (h : KeepsAccount keyPrefix start short removed m) (key : String)
    (hworld : m'.world = { m.world with redis := m.world.redis.remove key }) :
    KeepsAccount keyPrefix start (short + 1) removed m' := by
  have hcount : (gone keyPrefix start m').card ≤ (gone keyPrefix start m).card + 1 :=
    card_gone_remove (by rw [hworld])
  have := h.count
  exact ⟨hworld ▸ h.stats, hworld ▸ h.now, by omega⟩

/-- A deletion that is counted. -/
theorem KeepsAccount.counted (h : KeepsAccount keyPrefix start short removed m) (key : String)
    (hworld : m'.world = { m.world with redis := m.world.redis.remove key }) :
    KeepsAccount keyPrefix start short (removed + 1) m' := by
  obtain ⟨hstats, hnow, hcount⟩ := h.uncounted key hworld
  exact ⟨hstats, hnow, by omega⟩

end Account

section Runs

variable {env : Env} {C : Choice → Prop} {keyPrefix : String} {start m : Machine}

/-! ## One batch -/

/-- A deletion is counted, or one may be missing from the count. -/
theorem wp_delete_accounts (key : String) {removed : Nat}
    (h : KeepsAccount keyPrefix start 0 removed m) :
    Svc.wp env C (redis (.delete key)) (fun r m' => match r with
      | .ok _ => KeepsAccount keyPrefix start 0 (removed + 1) m'
          ∧ m'.session.owed = m.session.owed ∧ m'.world.redis = m.world.redis.remove key
      | .error _ => KeepsAccount keyPrefix start 1 removed m') m := by
  rw [Svc.wp_redis]
  intro c _
  cases hfault : c.fault with
  | none =>
    simp only [RedisCmd.exec, hfault, RedisCmd.serve]
    exact ⟨h.counted key rfl, rfl, rfl⟩
  | refused =>
    simp only [RedisCmd.exec, hfault]
    exact h.mono.of_world rfl
  | lost =>
    simp only [RedisCmd.exec, hfault, RedisCmd.serve]
    exact h.uncounted key rfl

/-- How deleting keys may end: all are gone and counted, or one may be missing from the count. -/
def DeletesKeys (keyPrefix : String) (start m : Machine) (keys : List String) :
    Removal → Machine → Prop
  | (.ok _, n), m' => KeepsAccount keyPrefix start 0 n m' ∧ m'.session.owed = m.session.owed
      ∧ ∀ now key e, m'.world.redis.peek now key = some e →
        key ∉ keys ∧ m.world.redis.peek now key = some e
  | (.error _, n), m' => KeepsAccount keyPrefix start 1 n m'

theorem wp_deleteKeys_accounts (keys : List String) {removed : Nat}
    (h : KeepsAccount keyPrefix start 0 removed m) :
    Prog.wp (S := svc) C (exec env) (deleteKeys keys removed) (DeletesKeys keyPrefix start m keys)
      m := by
  induction keys generalizing removed m with
  | nil => exact ⟨h, rfl, fun _ _ _ he => ⟨List.not_mem_nil, he⟩⟩
  | cons key keys ih =>
    refine Prog.wp_bind.mpr (Prog.wp_mono (wp_delete_accounts key h) ?_)
    rintro (e | r) m₁ h₁
    · exact h₁
    · obtain ⟨hcount, howed, hredis⟩ := h₁
      refine Prog.wp_mono (ih hcount) ?_
      rintro ⟨e | _, n⟩ m' h'
      · exact h'
      · obtain ⟨hcount', howed', hpeek⟩ := h'
        refine ⟨hcount', howed'.trans howed, fun now key' e he => ?_⟩
        obtain ⟨hmem, he₁⟩ := hpeek now key' e he
        rw [hredis] at he₁
        have hne : key' ≠ key := by
          rintro rfl
          rw [peek_remove_self] at he₁
          cases he₁
        rw [peek_remove_ne _ hne] at he₁
        exact ⟨fun hmem' => (List.mem_cons.mp hmem').elim hne hmem, he₁⟩

/-! ## The loop -/

/-- How the loop may end: with nothing left under the prefix, or with an error. -/
def RemovesEntries (keyPrefix : String) (start : Machine) : Removal → Machine → Prop
  | (.ok _, n), m' => KeepsAccount keyPrefix start 0 n m' ∧ m'.Owes keyPrefix 0
  | (.error _, n), m' => KeepsAccount keyPrefix start 1 n m'

/-- A batch that is answered reports what was owed, or still owes it; the world is left as it is. -/
theorem wp_scan_covers {cursor : Nat} (howes : cursor = 0 ∨ m.Owes keyPrefix cursor) :
    Svc.wp env C (redis (.scan cursor keyPrefix)) (fun r m' => m'.world = m.world
      ∧ ∀ after keys, r = .ok (after, keys) → (cursor ≠ 0 → after = cursor - 1)
        ∧ ∀ key e, m.world.redis.peek m.world.now.us key = some e → hasPrefix keyPrefix key = true →
          key ∈ keys ∨ after ≠ 0 ∧ (key, e.born) ∈ m'.session.owed) m := by
  rw [Svc.wp_redis]
  intro c _
  cases hfault : c.fault with
  | none =>
    simp only [RedisCmd.exec, hfault, RedisCmd.serve]
    refine ⟨rfl, fun after keys hreply => ?_⟩
    have hafter := congrArg Prod.fst (Except.ok.inj hreply)
    have hkeys := congrArg Prod.snd (Except.ok.inj hreply)
    rw [scanBatch_cursor] at hafter
    subst hafter hkeys
    refine ⟨fun hcursor => by rw [batchesAfter, if_neg hcursor], fun key e he hunder => ?_⟩
    exact scanBatch_covers he hunder (howes.imp id fun h => (h key e he hunder).2)
  | refused =>
    simp only [RedisCmd.exec, hfault]
    exact ⟨rfl, fun _ _ hreply => by cases hreply⟩
  | lost =>
    simp only [RedisCmd.exec, hfault, RedisCmd.serve]
    exact ⟨rfl, fun _ _ hreply => by cases hreply⟩

/-- One batch: what was owed is deleted or still owed. -/
theorem wp_scanThen_accounts {cursor removed : Nat} {next : Nat → Nat → Prog svc Removal}
    (h : KeepsAccount keyPrefix start 0 removed m) (howes : cursor = 0 ∨ m.Owes keyPrefix cursor)
    (hnext : ∀ after removed m', KeepsAccount keyPrefix start 0 removed m' →
      (cursor ≠ 0 → after = cursor - 1) → m'.Owes keyPrefix after →
      Prog.wp (S := svc) C (exec env) (next after removed) (RemovesEntries keyPrefix start) m') :
    Prog.wp (S := svc) C (exec env) (scanThen keyPrefix cursor removed next)
      (RemovesEntries keyPrefix start) m := by
  refine Prog.wp_bind.mpr (Prog.wp_mono (wp_scan_covers howes) ?_)
  rintro (e | ⟨after, keys⟩) m₁ ⟨hworld, hreply⟩
  · exact (h.mono).of_world hworld
  · obtain ⟨hafter, hcovers⟩ := hreply after keys rfl
    have h₁ : KeepsAccount keyPrefix start 0 removed m₁ := h.of_world hworld
    refine Prog.wp_bind.mpr (Prog.wp_mono (wp_deleteKeys_accounts keys h₁) ?_)
    rintro ⟨e | _, n⟩ m₂ h₂
    · exact h₂
    · obtain ⟨hcount, howed, hpeek⟩ := h₂
      -- a key that is left was not in the batch, so it is owed
      refine hnext after n m₂ hcount hafter fun key e he hunder => ?_
      obtain ⟨hmem, he₁⟩ := hpeek _ key e he
      rw [hcount.now.trans h.now.symm, hworld] at he₁
      rw [howed]
      exact (hcovers key e he₁ hunder).resolve_left hmem

theorem wp_scanRest_accounts {cursor removed : Nat} (h : KeepsAccount keyPrefix start 0 removed m)
    (howes : m.Owes keyPrefix cursor) :
    Prog.wp (S := svc) C (exec env) (scanRest keyPrefix cursor removed)
      (RemovesEntries keyPrefix start) m := by
  induction cursor generalizing removed m with
  | zero => exact ⟨h, howes⟩
  | succ cursor ih =>
    refine wp_scanThen_accounts h (.inr howes) fun after removed m' h' hafter howes' => ih h' ?_
    rw [hafter (Nat.succ_ne_zero cursor)] at howes'
    exact howes'

end Runs

/-! ## The invalidation -/

theorem Machine.Owes.cleared {keyPrefix : String} {m : Machine} (h : m.Owes keyPrefix 0) :
    m.world.Cleared keyPrefix := by
  intro key e he
  by_contra hunder
  exact (h key e he (Bool.of_not_eq_false hunder)).1 rfl

/-- Where nothing is left, all entries are gone. -/
theorem gone_of_cleared {keyPrefix : String} {start m : Machine}
    (hnow : m.world.now = start.world.now)
    (hcleared : m.world.Cleared keyPrefix) :
    gone keyPrefix start m = entriesUnder keyPrefix start := by
  refine Finset.filter_eq_self.mpr fun key hkey => ?_
  rw [Option.isNone_iff_eq_none, Option.eq_none_iff_forall_ne_some]
  intro e he
  rw [← hnow] at he
  have hunder := (mem_entriesUnder.mp hkey).2
  rw [hcleared key e he] at hunder
  cases hunder

/-- How an invalidation may end: it removed every entry and counted them all, or it counted an error
    and at most one entry too few. -/
inductive Invalidated (keyPrefix : String) (start m : Machine) (removed : Nat) : Prop
  | cleared (stats : m.world.stats = start.world.stats) (cleared : m.world.Cleared keyPrefix)
      (covers : (entriesUnder keyPrefix start).card ≤ removed)
  | failed (stats : m.world.stats
        = { start.world.stats with errors := start.world.stats.errors + 1 })
      (covers : (gone keyPrefix start m).card ≤ removed + 1)

theorem wp_invalidatePrefix_accounts (env : Env) {C : Choice → Prop} (keyPrefix : String)
    (m : Machine) :
    Svc.wp env C (invalidatePrefix keyPrefix)
      (fun r m' => ∃ removed, r = .ok removed ∧ Invalidated keyPrefix m m' removed) m := by
  have hscan : Prog.wp (S := svc) C (exec env) (scanDelete keyPrefix)
      (RemovesEntries keyPrefix m) m :=
    wp_scanThen_accounts .refl (.inl rfl) fun after removed m' h _ howes =>
      wp_scanRest_accounts h howes
  rw [invalidatePrefix, Svc.wp_bind, Svc.wp_lift]
  refine Prog.wp_mono hscan fun r m' h => ?_
  rcases r with ⟨e | _, removed⟩
  · intro c _
    refine ⟨removed, rfl, .failed ?_ ?_⟩
    · show { m'.world.stats with errors := m'.world.stats.errors + 1 } = _
      rw [h.stats]
    · exact h.count
  · obtain ⟨hcount, howes⟩ := h
    refine ⟨removed, rfl, .cleared hcount.stats howes.cleared ?_⟩
    rw [← gone_of_cleared hcount.now howes.cleared]
    exact hcount.count

/-- **What the count of an invalidation says**, whatever Redis reports, refuses or loses. -/
theorem invalidation_accounts (env : Env) (choices : Nat → Choice) (keyPrefix : String)
    (m : Machine) :
    ∃ removed m', runSvc env choices (invalidatePrefix keyPrefix) m = (.ok removed, m')
      ∧ Invalidated keyPrefix m m' removed ∧ m.Spares keyPrefix m' := by
  obtain ⟨⟨removed, hr, hends⟩, hspares⟩ := runSvc_of_wp (C := fun _ => True) choices
    (fun _ => trivial) (Svc.wp_and (wp_invalidatePrefix_accounts env keyPrefix m)
      (wp_invalidatePrefix_spares keyPrefix m))
  exact ⟨removed, _, Prod.ext hr rfl, hends, hspares⟩

end GpuIndex
