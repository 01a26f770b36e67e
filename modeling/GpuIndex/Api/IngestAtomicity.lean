/-
  What an ingest leaves behind, in the two stores it writes.

  The database and Redis have no common transaction.  An ingest first asks the database only, and
  all that it can raise is raised there: until the commit has been answered nothing is changed in
  either store.  After it there are only invalidations, which raise nothing.  So an ingest that
  raises has changed nothing, and one that does not has committed its rows before it deletes the
  first entry (**`ingest_atomic`**).
-/
import GpuIndex.Api.CacheTransparency

namespace GpuIndex

open ExpiringStore

/-! ## One ingest -/

/-- An ingest that did not raise: at `mid` its rows are in the table, and so far it has asked the
    database only; from there on it has only invalidated. -/
structure CommittedFirst (env : Env) (payload : List PricePointIn) (m mid m' : Machine) : Prop where
  committed : ∃ result, Ingested env m.world.db payload result mid.world.db
  statements : m.Logs StatementCall mid
  untouched : mid.world.redis = m.world.redis
  invalidations : mid.Logs InvalidationCall m'
  final : mid.SameTables m'

/-- The keys of the caches. -/
def CacheKey (key : String) : Prop := hasPrefix "prices:" key = true ∨ hasPrefix "index:" key = true

/-- Every key that is not of the caches is as before: the same entry, as long as it lives. -/
def SparesOthers (m m' : Machine) : Prop :=
  ∀ now key, ¬ CacheKey key → m'.world.redis.peek now key = m.world.redis.peek now key

section Ingest

variable {env : Env} {C : Choice → Prop} {m : Machine}

/-- The service behind the handler: it asks the database only, and raises before anything is
    changed. -/
theorem wp_ingestPrices_statements (payload : List PricePointIn)
    (hpending : m.session.pending = []) :
    Svc.wp env C (ingestPrices payload) (fun r m' => m.Logs StatementCall m'
      ∧ m'.world.redis = m.world.redis ∧ match r with
        | .ok result => Ingested env m.world.db payload result m'.world.db
        | .error _ => m'.world.db = m.world.db) m := by
  have honly := only_ingestPrices payload
  exact Svc.wp_and (wp_logs honly m) (Svc.wp_and (wp_sameRedis honly m)
    (wp_ingestPrices env payload hpending))

/-- What one invalidation leaves: no exception, the tables, the other keys, and what is on
    record. -/
theorem wp_invalidatePrefix_leaves (keyPrefix : String) (m : Machine) :
    Svc.wp env C (invalidatePrefix keyPrefix) (fun r m' => (∃ n, r = .ok n) ∧ m.SameTables m'
      ∧ m.Shrinks m' ∧ m.Spares keyPrefix m' ∧ m.Logs InvalidationCall m') m := by
  refine Svc.wp_mono (Svc.wp_and (wp_invalidatePrefix env keyPrefix m)
    (Svc.wp_and (wp_invalidatePrefix_spares keyPrefix m)
      (wp_logs (only_invalidatePrefix keyPrefix) m))) fun r m' h => ?_
  exact ⟨h.1.1, h.1.2.1, h.1.2.2, h.2.1, h.2.2⟩

/-- **The handler**: what is raised is raised before anything is changed; else the rows are
    committed first, and only entries of the caches are deleted. -/
theorem wp_ingest_committedFirst (payload : List PricePointIn) (hpending : m.session.pending = []) :
    Svc.wp env C (ingest payload) (fun r m' => match r with
      | .ok _ => (∃ mid, CommittedFirst env payload m mid m') ∧ SparesOthers m m'
      | .error _ => m'.world.db = m.world.db ∧ m'.world.redis = m.world.redis) m := by
  unfold ingest
  dsimp only
  split
  · exact ⟨rfl, rfl⟩
  · refine Svc.wp_seq (wp_ingestPrices_statements payload hpending) (fun result mid h => ?_)
      (fun e m₁ h => ⟨h.2.2, h.2.1⟩)
    obtain ⟨hstatements, hredis, hingested⟩ := h
    refine Svc.wp_seq (wp_invalidatePrefix_leaves "prices:" mid) (fun n m₂ h₂ => ?_)
      (fun e m₂ ⟨h, _⟩ => nomatch h)
    refine Svc.wp_seq (wp_invalidatePrefix_leaves "index:" m₂) (fun n' m₃ h₃ => ?_)
      (fun e m₃ ⟨h, _⟩ => nomatch h)
    obtain ⟨-, htables, -, hspares, hlogs⟩ := h₂
    obtain ⟨-, htables', -, hspares', hlogs'⟩ := h₃
    refine ⟨⟨mid, ⟨result, hingested⟩, hstatements, hredis, hlogs.trans hlogs',
      htables.trans htables'⟩, fun now key hkey => ?_⟩
    obtain ⟨hprices, hindex⟩ := not_or.mp hkey
    rw [hspares' now key (Bool.eq_false_of_not_eq_true hindex),
      hspares now key (Bool.eq_false_of_not_eq_true hprices), hredis]

end Ingest

/-- **An ingest is atomic where it raises, and commits before it invalidates**: for every payload,
    database, key space and session without open work, whatever is answered to each call. -/
theorem ingest_atomic (env : Env) (payload : List PricePointIn) (m : Machine)
    (hpending : m.session.pending = []) (choices : Nat → Choice) :
    (∀ e m', runSvc env choices (ingest payload) m = (.error e, m') →
        m'.world.db = m.world.db ∧ m'.world.redis = m.world.redis)
      ∧ ∀ result m', runSvc env choices (ingest payload) m = (.ok result, m') →
        (∃ mid, CommittedFirst env payload m mid m') ∧ SparesOthers m m'
          ∧ ((∀ n, (choices n).Healthy) →
            ∀ key, CacheKey key → m'.world.redis.peek m'.world.now.us key = none) := by
  have hwp : Svc.wp env (fun _ => True) (ingest payload) _ m :=
    wp_ingest_committedFirst payload hpending
  have hends := runSvc_of_wp choices (fun _ => trivial) hwp
  refine ⟨fun e m' hrun => ?_, fun result m' hrun => ?_⟩
  · rw [hrun] at hends
    exact hends
  · rw [hrun] at hends
    refine ⟨hends.1, hends.2, fun hhealthy key hkey => ?_⟩
    have hwp : Svc.wp env Choice.Healthy (ingest payload) _ m := wp_ingest_cleared payload m
    have hcleared := runSvc_of_wp choices hhealthy hwp
    rw [hrun] at hcleared
    obtain ⟨hprices, hindex⟩ := hcleared result rfl
    rw [Option.eq_none_iff_forall_not_mem]
    intro e he
    rcases hkey with hkey | hkey
    · exact Bool.false_ne_true ((hprices key e he).symm.trans hkey)
    · exact Bool.false_ne_true ((hindex key e he).symm.trans hkey)

/-- The batch with two observations of one key, posted on a catalogue without prices. -/
def tinyPost : Except Exn IngestResult × Machine :=
  runSvc env (fun _ => .calm) (ingest tinyCall.payload) ⟨worldOf (catalogue ⟨1, one_range⟩), {}⟩

theorem tinyPost_returns : tinyPost.1 = .ok ⟨2, 1, 0, ["unknown gpu_model_name: TPU"]⟩ := by
  with_unfolding_all rfl

theorem ingest_atomic_tiny :
    ∃ mid, CommittedFirst env tinyCall.payload ⟨worldOf (catalogue ⟨1, by decide⟩), {}⟩ mid
      tinyPost.2 :=
  ((ingest_atomic env tinyCall.payload ⟨worldOf (catalogue ⟨1, by decide⟩), {}⟩ rfl
    fun _ => .calm).2 _ tinyPost.2 (Prod.ext tinyPost_returns rfl)).1

end GpuIndex
