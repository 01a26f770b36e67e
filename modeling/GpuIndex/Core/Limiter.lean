/-
  The limiter over a run of requests.

  A `LimiterRun` is what one server process sees: attempts of any keys one after the other, with the
  clock and the rest of Redis moving on in between.  The step lemma `run_rateLimit` says what one
  attempt does to the counters; `LimiterRun.nextCount` is the invariant it keeps: the counter of a
  window shows how many attempts of the key fell in it, for as long as the window lasts.  So the
  attempts of a key count as `FixedWindow.Counts` says, and **`limiter_fixed_window`** reads off
  what the library proves of such histories.
-/
import GpuIndex.Core.Invalidation
import GpuIndex.Fixture
import GpuIndex.Lib.FixedWindow
import GpuIndex.Lib.Joined

namespace GpuIndex

open Calendar ExpiringStore FixedWindow

/-! ## Time and windows -/

/-- The microseconds from the first of January of year 1 to that of 1970. -/
def epochMicros : Nat := 62135596800000000

/-- The time of an instant in seconds since 1970. -/
def unixTime (i : Instant) : ℚ := ((i.us : ℚ) - epochMicros) / 1000000

theorem unixTime_mono {i j : Instant} (h : i.us ≤ j.us) : unixTime i ≤ unixTime j := by
  have hcast : (i.us : ℚ) ≤ j.us := by exact_mod_cast h
  unfold unixTime
  linarith

theorem floor_unixTime (i : Instant) :
    ⌊unixTime i⌋ = ((i.us : Int) - epochMicros) / (1000000 : Nat) := by
  have hcast : ((i.us : ℚ) - epochMicros) = (((i.us : Int) - epochMicros : Int) : ℚ) := by
    push_cast
    ring
  have hfloor := Rat.floor_intCast_div_natCast ((i.us : Int) - epochMicros) 1000000
  rw [unixTime, hcast]
  exact_mod_cast hfloor

theorem unixSeconds_eq {i : Instant} (hepoch : epochMicros ≤ i.us) :
    unixSeconds i = ⌊unixTime i⌋ := by
  have hnonneg : 0 ≤ (i.us : Int) - epochMicros := by omega
  have hmicros : (epochMicros : Int) = 62135596800000000 := by norm_num [epochMicros]
  rw [floor_unixTime, unixSeconds, ← hmicros, Int.tdiv_eq_ediv_of_nonneg hnonneg]
  norm_num

/-- `int(time.time()) // window` is the window of the time. -/
theorem unixSeconds_fdiv {i : Instant} (hepoch : epochMicros ≤ i.us) {window : Int}
    (hwindow : 1 ≤ window) : (unixSeconds i).fdiv window = index window (unixTime i) := by
  have hnonneg : 0 ≤ window := by omega
  obtain ⟨w, rfl⟩ := Int.eq_ofNat_of_zero_le hnonneg
  rw [unixSeconds_eq hepoch, index, Int.cast_natCast, Int.floor_div_natCast]
  exact Int.fdiv_eq_ediv_of_nonneg _ hnonneg

/-! ## The counters of a key -/

/-- The counter of a key in a window. -/
def windowKey (env : Env) (principal : Principal) (k : Int) : String :=
  principal.bucketId env.strHash ++ ":" ++ toString k

theorem toList_windowKey (env : Env) (principal : Principal) (k : Int) :
    (windowKey env principal k).toList
      = (principal.bucketId env.strHash).toList ++ ':' :: (toString k).toList := by
  rw [windowKey, String.append_assoc, String.toList_append, String.toList_append]
  rfl

/-- Different buckets or windows have different counters. -/
theorem windowKey_inj {env : Env} {p p' : Principal} {k k' : Int}
    (h : windowKey env p k = windowKey env p' k') :
    p.bucketId env.strHash = p'.bucketId env.strHash ∧ k = k' := by
  have hlist := congrArg String.toList h
  rw [toList_windowKey, toList_windowKey] at hlist
  obtain ⟨hbucket, hk⟩ := Joined.last_inj (Joined.not_mem_toString (by decide) (by decide) k)
    (Joined.not_mem_toString (by decide) (by decide) k') hlist
  exact ⟨String.toList_injective hbucket, Joined.toString_injective (String.toList_injective hk)⟩

/-! ## One attempt -/

/-- What the limiter makes of the count. -/
def verdict (env : Env) (principal : Principal) : Except RedisError Int → Except Exn Principal
  | .error _ => .ok principal
  | .ok count =>
    if env.settings.rateLimitRequests < count then .error (tooManyRequests env.settings)
    else .ok principal

section Attempt

variable {env : Env} {choices : Nat → Choice}

/-- The pipeline on a Redis that answers: it gives the count, or none when the key holds text. -/
theorem go_incrExpire (hhealthy : ∀ n, (choices n).Healthy) (key : String) (ex : Int)
    (m : Machine) (n : Nat) :
    ∃ s',
      Svc.go env choices (tryCatch (some <$> redis (.incrExpire key ex)) fun _ => pure none) (m, n)
        = (.ok ((incrCounter m.world.redis m.world.now.us key ex).1.toOption), s')
      ∧ s'.1.world = { m.world with redis :=
        (incrCounter m.world.redis m.world.now.us key ex).2 } := by
  have hmap : (some <$> redis (.incrExpire key ex) : Svc (Option Int))
      = redis (.incrExpire key ex) >>= fun n => pure (some n) := rfl
  rw [hmap, Svc.go_tryCatch, Svc.go_bind, Svc.go_redis, exec_healthy (hhealthy n)]
  simp only [RedisCmd.serve]
  rcases incrCounter m.world.redis m.world.now.us key ex with ⟨e | count, redis⟩
  · exact ⟨_, rfl, rfl⟩
  · exact ⟨_, rfl, rfl⟩

/-- **One attempt** on a Redis that answers: the counter of its window is bumped, and the verdict is
    by the count. -/
theorem run_rateLimit (hwindow : 1 ≤ env.settings.rateLimitWindowSeconds)
    (hhealthy : ∀ n, (choices n).Healthy) (principal : Principal) (w : World) (session : Session)
    {key : String} {counted : Except RedisError Int × Redis}
    (hkey : key = windowBucket (principal.bucketId env.strHash) (unixSeconds (env.clock w.now))
      env.settings.rateLimitWindowSeconds)
    (hcounted : incrCounter w.redis w.now.us key
      (env.settings.rateLimitWindowSeconds * 2) = counted) :
    (runSvc env choices (rateLimit env principal) ⟨w, session⟩).1 = verdict env principal counted.1
      ∧ (runSvc env choices (rateLimit env principal) ⟨w, session⟩).2.world
        = { w with redis := counted.2 } := by
  have hne : env.settings.rateLimitWindowSeconds ≠ 0 := by omega
  unfold runSvc rateLimit
  dsimp only
  rw [Svc.go_bind, Svc.go_call]
  dsimp only [exec, perform]
  rw [if_neg hne, Svc.go_bind, ← hkey]
  obtain ⟨s', hgo, hworld⟩ := @go_incrExpire env choices hhealthy key
    (env.settings.rateLimitWindowSeconds * 2)
    ((⟨w, session⟩ : Machine).record .time (unixSeconds (env.clock w.now))) 1
  rw [hgo]
  simp only [Machine.record_world, hcounted] at hworld ⊢
  obtain ⟨r, redis⟩ := counted
  cases r with
  | error e => exact ⟨rfl, hworld⟩
  | ok count =>
    simp only [Except.toOption, verdict]
    split
    · exact ⟨rfl, hworld⟩
    · exact ⟨rfl, hworld⟩

end Attempt

/-! ## Runs -/

/-- An attempt: whose it was, when it came and how it ended. -/
structure Attempt where
  principal : Principal
  at' : Instant
  result : Except Exn Principal

/-- The time of an attempt. -/
def Attempt.time (a : Attempt) : ℚ := unixTime a.at'

/-- The request was let through. -/
def Attempt.admitted (a : Attempt) : Bool := a.result.isOk

/-- What one server process sees, latest attempt first.  At the start no counter is in use; between
    attempts time passes, and whatever else happens leaves the counters alone. -/
inductive LimiterRun (env : Env) : List Attempt → World → Prop where
  | start {w : World} (epoch : epochMicros ≤ w.now.us)
      (unused : ∀ now key, hasPrefix "rl:" key = true → w.redis.peek now key = none) :
      LimiterRun env [] w
  | other {hist : List Attempt} {w w' : World} (run : LimiterRun env hist w)
      (later : w.now.us ≤ w'.now.us)
      (counters : ∀ now key, hasPrefix "rl:" key = true →
        w'.redis.peek now key = w.redis.peek now key) : LimiterRun env hist w'
  | attempt {hist : List Attempt} {w : World} {a : Attempt} {choices : Nat → Choice}
      {session : Session} {m' : Machine} (run : LimiterRun env hist w)
      (healthy : ∀ n, (choices n).Healthy) (now : a.at' = w.now)
      (ends : runSvc env choices (rateLimit env a.principal) ⟨w, session⟩ = (a.result, m')) :
      LimiterRun env (a :: hist) m'.world

/-- The attempts of one key. -/
def ownAttempts (principal : Principal) (hist : List Attempt) : List Attempt :=
  hist.filter fun a => a.principal = principal

/-- No other key of the history shares the bucket of this one. -/
def OwnBucket (env : Env) (principal : Principal) (hist : List Attempt) : Prop :=
  ∀ a ∈ hist, a.principal.bucketId env.strHash = principal.bucketId env.strHash →
    a.principal = principal

theorem hasPrefix_windowKey (env : Env) (principal : Principal) (k : Int) :
    hasPrefix "rl:" (windowKey env principal k) = true := by
  rw [windowKey, Principal.bucketId, String.append_assoc, String.append_assoc]
  exact hasPrefix_append _ _

/-- Instants whose times are less than `n` seconds apart. -/
theorem lt_of_unixTime_lt {i j : Instant} {n : Int} (hn : 0 ≤ n)
    (h : unixTime j < unixTime i + n) : j.us < i.us + seconds (n * 2) := by
  have hmicros : (j.us : ℚ) < i.us + n * 1000000 := by
    unfold unixTime at h
    linarith
  have hint : (j.us : Int) < i.us + n * 1000000 := by exact_mod_cast hmicros
  unfold seconds
  omega

section Run

variable {env : Env} {hist : List Attempt} {w : World} {principal : Principal}

/-- What is counted next depends only on what is seen of the counter. -/
theorem nextCount_congr {redis redis' : Redis} {now : Nat} {key : String}
    (h : redis'.peek now key = redis.peek now key) :
    nextCount redis' now key = nextCount redis now key := by
  rw [nextCount, h, nextCount]

/-- A counter that was bumped counts on, as long as it lives. -/
theorem nextCount_incrCounter {redis : Redis} {at' now : Nat} {key : String} {ex n : Int}
    (hcount : nextCount redis at' key = some n) (hex : 0 < ex) (hlive : now < at' + seconds ex) :
    incrCounter redis at' key ex
        = (.ok n, redis.put at' key ⟨.counter n, none⟩ (at' + seconds ex))
      ∧ nextCount (incrCounter redis at' key ex).2 now key = some (n + 1) := by
  have hbumped : incrCounter redis at' key ex
      = (.ok n, redis.put at' key ⟨.counter n, none⟩ (at' + seconds ex)) := by
    simp only [incrCounter, hcount, if_neg (not_le.mpr hex)]
  obtain ⟨born, hlookup⟩ := lookup_put_self redis at' key
    (⟨.counter n, none⟩ : Cached) (at' + seconds ex)
  have hpeek := peek_eq_some.mpr ⟨hlookup, hlive⟩
  refine ⟨hbumped, ?_⟩
  rw [hbumped]
  simp only [nextCount, hpeek]

theorem LimiterRun.epoch (h : LimiterRun env hist w)
    (hwindow : 1 ≤ env.settings.rateLimitWindowSeconds) : epochMicros ≤ w.now.us := by
  induction h with
  | start epoch _ => exact epoch
  | other _ later _ ih => exact ih.trans later
  | @attempt hist w a choices session m' run healthy now ends ih =>
    have hworld := (run_rateLimit hwindow healthy a.principal w session rfl rfl).2
    rw [ends] at hworld
    rw [hworld]
    exact ih

/-- What the attempt of a run does: the counter of its window is bumped, the verdict is by the
    count. -/
theorem attempt_step (hwindow : 1 ≤ env.settings.rateLimitWindowSeconds)
    (hclock : ∀ i, env.clock i = i) (h : LimiterRun env hist w) {a : Attempt}
    {choices : Nat → Choice} {session : Session} {m' : Machine}
    (healthy : ∀ n, (choices n).Healthy) (now : a.at' = w.now)
    (ends : runSvc env choices (rateLimit env a.principal) ⟨w, session⟩ = (a.result, m'))
    {counted : Except RedisError Int × Redis}
    (hcounted : incrCounter w.redis w.now.us
      (windowKey env a.principal (index env.settings.rateLimitWindowSeconds a.time))
      (env.settings.rateLimitWindowSeconds * 2) = counted) :
    a.result = verdict env a.principal counted.1 ∧ m'.world = { w with redis := counted.2 } := by
  have hkey : windowKey env a.principal (index env.settings.rateLimitWindowSeconds a.time)
      = windowBucket (a.principal.bucketId env.strHash) (unixSeconds (env.clock w.now))
        env.settings.rateLimitWindowSeconds := by
    rw [hclock, windowBucket, unixSeconds_fdiv (h.epoch hwindow) hwindow, windowKey,
      Attempt.time, now]
  have hrun := run_rateLimit hwindow healthy a.principal w session hkey hcounted
  rw [ends] at hrun
  exact hrun

theorem ownAttempts_cons_self (a : Attempt) (hist : List Attempt) :
    ownAttempts a.principal (a :: hist) = a :: ownAttempts a.principal hist :=
  List.filter_cons_of_pos (by simp)

theorem ownAttempts_cons_ne {a : Attempt} (h : a.principal ≠ principal) (hist : List Attempt) :
    ownAttempts principal (a :: hist) = ownAttempts principal hist :=
  List.filter_cons_of_neg (by simpa using h)

theorem OwnBucket.tail {a : Attempt} (h : OwnBucket env principal (a :: hist)) :
    OwnBucket env principal hist := fun b hb => h b (List.mem_cons_of_mem _ hb)

/-- **The counters**: in the window that is running, and in every later one, the counter of the key
    shows how many of its attempts fell in it. -/
theorem LimiterRun.nextCount (h : LimiterRun env hist w)
    (hwindow : 1 ≤ env.settings.rateLimitWindowSeconds) (hclock : ∀ i, env.clock i = i)
    (hown : OwnBucket env principal hist) {now : Instant} (hnow : w.now.us ≤ now.us) {k : Int}
    (hk : index env.settings.rateLimitWindowSeconds (unixTime now) = k) :
    GpuIndex.nextCount w.redis now.us (windowKey env principal k)
      = some (((within env.settings.rateLimitWindowSeconds Attempt.time
          (ownAttempts principal hist) k).length : Int) + 1) := by
  have hwidth : (0 : ℚ) < env.settings.rateLimitWindowSeconds := by
    exact_mod_cast (show 0 < env.settings.rateLimitWindowSeconds by omega)
  -- over the run: only an attempt bumps, and only the counter of its own key and window
  induction h generalizing now k with
  | start epoch unused =>
    rw [GpuIndex.nextCount, unused _ _ (hasPrefix_windowKey env principal k)]
    rfl
  | other run later counters ih =>
    rw [nextCount_congr (counters now.us _ (hasPrefix_windowKey env principal k))]
    exact ih hown (later.trans hnow) hk
  | @attempt hist w a choices session m' run healthy hnow' ends ih =>
    have hworld := (attempt_step hwindow hclock run healthy hnow' ends rfl).2
    have htime : a.time = unixTime w.now := by rw [Attempt.time, hnow']
    rw [hworld] at hnow ⊢
    by_cases hsame : windowKey env principal k
        = windowKey env a.principal (index env.settings.rateLimitWindowSeconds a.time)
    · -- the attempt bumps this very counter, so it is one of the key, in this window
      obtain ⟨hbucket, hindex⟩ := windowKey_inj hsame
      obtain rfl := hown a List.mem_cons_self hbucket.symm
      have hhere : index env.settings.rateLimitWindowSeconds (unixTime w.now) = k := by
        rw [hindex, htime]
      have hlive := lt_of_unixTime_lt (by omega) (lt_add_of_index_eq hwidth (hhere.trans hk.symm))
      have hcount := ih hown.tail le_rfl hhere
      rw [ownAttempts_cons_self, within_cons_of_eq hindex.symm, List.length_cons, ← hindex,
        (nextCount_incrCounter hcount (by omega) hlive).2]
      push_cast
      rfl
    -- another counter was bumped: the attempt is of another key, or in another window
    · rw [nextCount_congr (peek_incrCounter_ne _ _ _ _ hsame), ih hown.tail hnow hk]
      by_cases hprincipal : a.principal = principal
      · subst hprincipal
        have hindex : index env.settings.rateLimitWindowSeconds a.time ≠ k :=
          fun heq => hsame (by rw [heq])
        rw [ownAttempts_cons_self, within_cons_of_ne hindex]
      · rw [ownAttempts_cons_ne hprincipal]

/-- An attempt is admitted on a count up to the limit. -/
theorem admitted_verdict {a : Attempt} {n : Int} (h : a.result = verdict env a.principal (.ok n)) :
    a.admitted = true ↔ n ≤ env.settings.rateLimitRequests := by
  rw [Attempt.admitted, h, verdict]
  split
  · rename_i hover
    simp only [Except.isOk, Except.toBool, Bool.false_eq_true, false_iff]
    omega
  · rename_i hunder
    simp only [Except.isOk, Except.toBool, true_iff]
    omega

/-- **The attempts of the key are counted by window.** -/
theorem LimiterRun.counts (h : LimiterRun env hist w)
    (hwindow : 1 ≤ env.settings.rateLimitWindowSeconds) (hclock : ∀ i, env.clock i = i)
    (hown : OwnBucket env principal hist) :
    Counts env.settings.rateLimitWindowSeconds env.settings.rateLimitRequests Attempt.time
      Attempt.admitted (ownAttempts principal hist) := by
  induction h with
  | start epoch unused => exact counts_nil
  | other run later counters ih => exact ih hown
  | @attempt hist w a choices session m' run healthy hnow ends ih =>
    by_cases hprincipal : a.principal = principal
    · subst hprincipal
      rw [ownAttempts_cons_self]
      refine (ih hown.tail).cons ?_
      have htime : index env.settings.rateLimitWindowSeconds (unixTime w.now)
          = index env.settings.rateLimitWindowSeconds a.time := by rw [Attempt.time, hnow]
      have hcount := run.nextCount hwindow hclock hown.tail le_rfl htime
      have hlive : w.now.us < w.now.us + seconds (env.settings.rateLimitWindowSeconds * 2) := by
        unfold seconds
        omega
      have hbumped := (nextCount_incrCounter hcount (by omega) hlive).1
      have hresult := (attempt_step hwindow hclock run healthy hnow ends hbumped).1
      rw [admitted_verdict hresult]
      omega
    · rw [ownAttempts_cons_ne hprincipal]
      exact ih hown.tail

/-- Attempts come in the order of time. -/
theorem LimiterRun.ordered (h : LimiterRun env hist w)
    (hwindow : 1 ≤ env.settings.rateLimitWindowSeconds) :
    (∀ a ∈ hist, a.at'.us ≤ w.now.us) ∧ hist.Pairwise fun a b => b.time ≤ a.time := by
  induction h with
  | start epoch unused => exact ⟨fun a ha => absurd ha List.not_mem_nil, .nil⟩
  | other run later counters ih => exact ⟨fun a ha => (ih.1 a ha).trans later, ih.2⟩
  | @attempt hist w a choices session m' run healthy hnow ends ih =>
    have hworld := (run_rateLimit hwindow healthy a.principal w session rfl rfl).2
    rw [ends] at hworld
    rw [hworld]
    refine ⟨?_, List.pairwise_cons.mpr ⟨fun b hb => ?_, ih.2⟩⟩
    · rw [List.forall_mem_cons]
      exact ⟨by rw [hnow], ih.1⟩
    · exact unixTime_mono (by rw [hnow]; exact ih.1 b hb)

/-- An attempt that was not admitted was refused by the limiter. -/
theorem LimiterRun.refused (h : LimiterRun env hist w)
    (hwindow : 1 ≤ env.settings.rateLimitWindowSeconds) {a : Attempt} (ha : a ∈ hist) {e : Exn}
    (he : a.result = .error e) : e = tooManyRequests env.settings := by
  induction h with
  | start epoch unused => exact absurd ha List.not_mem_nil
  | other run later counters ih => exact ih ha
  | @attempt hist w b choices session m' run healthy hnow ends ih =>
    rcases List.mem_cons.mp ha with rfl | ha
    · have hresult := (run_rateLimit hwindow healthy a.principal w session rfl rfl).1
      rw [ends, he] at hresult
      unfold verdict at hresult
      split at hresult
      · cases hresult
      · split at hresult
        · exact Except.error.inj hresult
        · cases hresult
    · exact ih ha

end Run

/-! ## The limiter is a fixed-window limiter -/

/-- What the limiter promises a key: `own` are its attempts, latest first. -/
structure FixedWindowLimiter (env : Env) (principal : Principal) (own : List Attempt) (w : World) :
    Prop where
  /-- Admitted exactly if fewer than the limit came before it in its window. -/
  admitted : ∀ later a earlier, own = later ++ a :: earlier →
    (a.admitted = true ↔ ((within env.settings.rateLimitWindowSeconds Attempt.time earlier
      (index env.settings.rateLimitWindowSeconds a.time)).length : Int)
        < env.settings.rateLimitRequests)
  /-- No counter is dropped while its window lasts. -/
  kept : ∀ now : Instant, w.now.us ≤ now.us → ∀ a ∈ own,
    index env.settings.rateLimitWindowSeconds a.time
        = index env.settings.rateLimitWindowSeconds (unixTime now) →
      ∃ e, w.redis.peek now.us (windowKey env principal
          (index env.settings.rateLimitWindowSeconds a.time)) = some e
        ∧ e.value.cell = .counter (within env.settings.rateLimitWindowSeconds Attempt.time own
            (index env.settings.rateLimitWindowSeconds a.time)).length
  /-- No interval as long as a window admits more than twice the limit. -/
  interval : ∀ start : ℚ, ((own.filter fun a => a.admitted ∧ start ≤ a.time
      ∧ a.time < start + env.settings.rateLimitWindowSeconds).length : Int)
        ≤ 2 * env.settings.rateLimitRequests
  /-- Who waits as long as a refusal says is admitted. -/
  retry : ∀ later next refused earlier detail headers (r : Int),
    own = later ++ next :: refused :: earlier →
      refused.result = .error (.http 429 detail headers) → ("Retry-After", toString r) ∈ headers →
        refused.time + (r : ℚ) ≤ next.time → next.admitted = true

/-- A counter that will count on from a positive number is there. -/
theorem peek_of_nextCount {redis : Redis} {now : Nat} {key : String} {n : Nat}
    (h : nextCount redis now key = some ((n : Int) + 1)) (hn : 0 < n) :
    ∃ e, redis.peek now key = some e ∧ e.value.cell = .counter n := by
  unfold nextCount at h
  split at h
  · have hone : (1 : Int) = n + 1 := Option.some.inj h
    omega
  · rename_i e he
    split at h
    · rename_i m hm
      have hcount : m + 1 = (n : Int) + 1 := Option.some.inj h
      exact ⟨e, he, by rw [hm, show m = n by omega]⟩
    · cases h

/-- **The fixed-window limiter**: in every run of one process whose clock agrees with that of Redis,
    for a key that has its bucket for itself. -/
theorem limiter_fixed_window (env : Env) (hwindow : 1 ≤ env.settings.rateLimitWindowSeconds)
    (hlimit : 1 ≤ env.settings.rateLimitRequests) (hclock : ∀ i, env.clock i = i)
    (principal : Principal) (hist : List Attempt) (w : World) (h : LimiterRun env hist w)
    (hown : OwnBucket env principal hist) :
    FixedWindowLimiter env principal (ownAttempts principal hist) w := by
  have hwidth : (0 : ℚ) < env.settings.rateLimitWindowSeconds := by
    exact_mod_cast (show 0 < env.settings.rateLimitWindowSeconds by omega)
  have hcounts := h.counts hwindow hclock hown
  refine ⟨hcounts, fun now hnow a ha hindex => ?_, hcounts.interval_le hwidth (by omega), ?_⟩
  · have hcount := h.nextCount hwindow hclock hown hnow hindex.symm
    refine peek_of_nextCount hcount (List.length_pos_of_mem (a := a) ?_)
    exact List.mem_filter.mpr ⟨ha, decide_eq_true rfl⟩
  · intro later next refused earlier detail headers r hsplit hrefused hretry hpause
    have hmem : refused ∈ hist := by
      have hin : refused ∈ ownAttempts principal hist := by
        rw [hsplit]
        exact List.mem_append_right _ (List.mem_cons_of_mem _ List.mem_cons_self)
      exact (List.mem_filter.mp hin).1
    have hheaders := h.refused hwindow hmem hrefused
    rw [tooManyRequests, Exn.http.injEq] at hheaders
    obtain ⟨-, -, rfl⟩ := hheaders
    obtain ⟨-, htext⟩ := Prod.mk.inj (List.mem_singleton.mp hretry)
    rw [Joined.toString_injective htext] at hpause
    have hordered := (h.ordered hwindow).2.filter fun a => decide (a.principal = principal)
    exact hcounts.after_pause hwidth hlimit hsplit hordered hpause

/-- One request a minute. -/
def onePerMinute : Env := { env with settings := { rateLimitRequests := 1 } }

/-- A key. -/
def devKey : Principal := ⟨"local-dev-key"⟩

/-- An attempt of the key in a world where nothing fails. -/
def tryOnce (w : World) : Except Exn Principal × Machine :=
  runSvc onePerMinute (fun _ => .calm) (rateLimit onePerMinute devKey) ⟨w, {}⟩

/-- Two attempts at one instant. -/
def twoAttempts : List Attempt :=
  [⟨devKey, newYear, (tryOnce (tryOnce (worldOf tinyDb)).2.world).1⟩,
    ⟨devKey, newYear, (tryOnce (worldOf tinyDb)).1⟩]

example : twoAttempts.map Attempt.admitted = [false, true] := by with_unfolding_all rfl

theorem limiterRun_twoAttempts : LimiterRun onePerMinute twoAttempts
    (tryOnce (tryOnce (worldOf tinyDb)).2.world).2.world := by
  have hstart : LimiterRun onePerMinute [] (worldOf tinyDb) :=
    .start (by decide) fun _ _ _ => rfl
  have hfirst : LimiterRun onePerMinute [⟨devKey, newYear, (tryOnce (worldOf tinyDb)).1⟩]
      (tryOnce (worldOf tinyDb)).2.world :=
    .attempt hstart (fun _ => Choice.healthy_calm) rfl
      (show tryOnce (worldOf tinyDb) = ((tryOnce (worldOf tinyDb)).1, (tryOnce (worldOf tinyDb)).2)
        from rfl)
  exact .attempt hfirst (fun _ => Choice.healthy_calm) rfl
    (show tryOnce (tryOnce (worldOf tinyDb)).2.world = (_, _) from rfl)

theorem limiter_fixed_window_two :
    FixedWindowLimiter onePerMinute devKey (ownAttempts devKey twoAttempts)
      (tryOnce (tryOnce (worldOf tinyDb)).2.world).2.world :=
  limiter_fixed_window onePerMinute (by decide) (by decide) (fun _ => rfl) devKey twoAttempts _
    limiterRun_twoAttempts fun a ha _ => by
      rcases List.mem_cons.mp ha with rfl | ha
      · rfl
      · rw [List.mem_singleton.mp ha]

end GpuIndex
