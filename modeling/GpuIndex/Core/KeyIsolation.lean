/-
  What the requests of one key change for another.

  One process serves the requests of all keys at the same time.  Whoever sees of a run only the
  calls that are not made with the key `B` sees the same in two runs that differ in the requests of
  `B`; the limiter isolates `A` from `B` if the requests of `A` are then decided alike (`Isolated`).
   The crux is a relation of two key spaces that the counts of `B` do not break (`Screen`): with it
  the run unwinds to the replay of what is seen of it.  The counters of `A` are such a relation if
  the two keys have buckets of their own.  A bucket is named by 32 bits of a hash, so two keys may
  share one, and then one request of `B` can decide a request of `A` (**`keys_isolated_iff`**).
-/
import GpuIndex.Core.SharedLimiter

namespace GpuIndex

open Calendar ExpiringStore Trace

/-! ## One process -/

section Process

variable {ι : Type} [DecidableEq ι]

/-- One process that serves these requests. -/
def oneProcess (env : Env) (principal : ι → Principal) : Deployment Unit ι where
  settings := env.settings
  process _ := env
  sameSettings _ := rfl
  server _ := ()
  principal := principal

/-- A call of a request that is not made with the key, and its time. -/
def seenWithout (principal : ι → Principal) (B : Principal) (s : Deployment.Requests ι) :
    Deployment.LimiterMove ι → Option (ι × Instant)
  | .call i _ => if principal i = B then none else some (i, s.shared.now)
  | .outside _ => none

/-- The same requests at another time. -/
def atTime (s : Deployment.Requests ι) (now : Instant) : Deployment.Requests ι :=
  { s with shared := { s.shared with now := now } }

/-- Answer a call that was seen, at its time. -/
def replayCall (env : Env) (principal : ι → Principal) (s : Deployment.Requests ι)
    (seen : ι × Instant) : Deployment.Requests ι :=
  (oneProcess env principal).step (atTime s seen.2) (.call seen.1 .calm)

/-- The request is decided. -/
def Decided (s : Deployment.Requests ι) (i : ι) (r : Except Exn Principal) : Prop :=
  s.prog i = .pure r

/-- Count the request, and decide it. -/
def countThen (env : Env) (principal : Principal) (time : Int) : Prog svc (Except Exn Principal) :=
  .call (.redis (.incrExpire (windowBucket (principal.bucketId env.strHash) time
    env.settings.rateLimitWindowSeconds) (env.settings.rateLimitWindowSeconds * 2)))
    fun r => .pure (verdict env principal r)

/-- What a request does once it has read its clock. -/
def afterClock (env : Env) (principal : Principal) (time : Int) : Prog svc (Except Exn Principal) :=
  if env.settings.rateLimitWindowSeconds = 0 then .pure (.error .zeroDivisionError)
  else countThen env principal time

/-- What a request counts. -/
def count (env : Env) (principal : Principal) (time : Int) (w : World) :
    Except RedisError Int × Redis :=
  incrCounter w.redis w.now.us (windowBucket (principal.bucketId env.strHash) time
    env.settings.rateLimitWindowSeconds) (env.settings.rateLimitWindowSeconds * 2)

section Step

variable {env : Env} {principal : ι → Principal} {s : Deployment.Requests ι} {i : ι} {c : Choice}

/-- A request that has been decided takes no more steps. -/
theorem step_decided {r : Except Exn Principal} (hprog : Decided s i r) :
    (oneProcess env principal).step s (.call i c) = s := by
  have hpure : s.prog i = .pure r := hprog
  simp only [Deployment.step, Pool.State.step, hpure]

theorem step_begun (env : Env) (c : Choice) (hprog : s.prog i = (rateLimit env (principal i)).run) :
    ((oneProcess env principal).step s (.call i c)).shared = s.shared
      ∧ ((oneProcess env principal).step s (.call i c)).prog
        = Function.update s.prog i
            (afterClock env (principal i) (unixSeconds (env.clock s.shared.now))) := by
  rw [rateLimit_run] at hprog
  simp only [Deployment.step, Pool.State.step, hprog]
  exact ⟨rfl, rfl⟩

theorem step_timed (hc : c.Healthy) {time : Int}
    (hprog : s.prog i = countThen env (principal i) time) :
    ((oneProcess env principal).step s (.call i c)).shared
        = { s.shared with redis := (count env (principal i) time s.shared).2 }
      ∧ ((oneProcess env principal).step s (.call i c)).prog
        = Function.update s.prog i
            (.pure (verdict env (principal i) (count env (principal i) time s.shared).1)) := by
  rw [step_bump (d := oneProcess env principal) hc hprog rfl]
  exact ⟨rfl, rfl⟩

end Step

end Process

/-! ## Screens -/

/-- The counters of the limiter are seen alike. -/
def SameCounters (w w' : World) : Prop :=
  ∀ now key, hasPrefix "rl:" key = true → w'.redis.peek now key = w.redis.peek now key

/-- A relation of two worlds that the requests of `B` do not break, and under which those of `A` get
    the same verdict. -/
structure Screen (env : Env) (A B : Principal) (Alike : World → World → Prop) : Prop where
  moved : ∀ {w w' v v'}, SameCounters w w' → SameCounters v v' → Alike w v → Alike w' v'
  hidden : ∀ {w v} time, Alike w v → Alike { w with redis := (count env B time w).2 } v
  seen : ∀ {w v} p time, v.now = w.now → Alike w v →
    Alike { w with redis := (count env p time w).2 } { v with redis := (count env p time v).2 }
  decides : ∀ {w v} time, env.settings.rateLimitWindowSeconds ≠ 0 → v.now = w.now → Alike w v →
    verdict env A (count env A time w).1 = verdict env A (count env A time v).1

/-- How far a request has come. -/
inductive Stage (env : Env) (principal : Principal) : Prog svc (Except Exn Principal) → Prop where
  | begun : Stage env principal (rateLimit env principal).run
  | timed (time : Int) (window : env.settings.rateLimitWindowSeconds ≠ 0) :
      Stage env principal (countThen env principal time)
  | decided (r : Except Exn Principal) : Stage env principal (.pure r)

theorem stage_afterClock (env : Env) (principal : Principal) (time : Int) :
    Stage env principal (afterClock env principal time) := by
  unfold afterClock
  split
  · exact .decided _
  · rename_i hwindow
    exact .timed time hwindow

section Unwind

variable {ι : Type} [DecidableEq ι] {env : Env} {principal : ι → Principal} {A B : Principal}
  {Alike : World → World → Prop}

/-- The requests that are not made with `B` have come as far in the one state as in the other, those
    of `A` to the same end. -/
structure Abreast (env : Env) (principal : ι → Principal) (A B : Principal)
    (Alike : World → World → Prop) (s q : Deployment.Requests ι) : Prop where
  stage : ∀ i, Stage env (principal i) (s.prog i)
  prog : ∀ i, principal i ≠ B → s.prog i = q.prog i
    ∨ principal i ≠ A ∧ (∃ r, Decided s i r) ∧ ∃ r, Decided q i r
  alike : Alike s.shared q.shared

/-- One request moves on in the first state, and in the second one too if it is not made with
    `B`. -/
theorem Abreast.update {s q s' q' : Deployment.Requests ι}
    (h : Abreast env principal A B Alike s q) {i : ι} {x y : Prog svc (Except Exn Principal)}
    (hs : s'.prog = Function.update s.prog i x) (hq : q'.prog = Function.update q.prog i y)
    (hstage : Stage env (principal i) x)
    (hxy : principal i ≠ B → x = y ∨ principal i ≠ A ∧ (∃ r, x = .pure r) ∧ ∃ r, y = .pure r)
    (halike : Alike s'.shared q'.shared) : Abreast env principal A B Alike s' q' := by
  refine ⟨fun j => ?_, fun j hj => ?_, halike⟩
  · rw [hs]
    by_cases hij : j = i
    · subst hij
      rw [Function.update_self]
      exact hstage
    · rw [Function.update_of_ne hij]
      exact h.stage j
  · unfold Decided
    rw [hs, hq]
    by_cases hij : j = i
    · subst hij
      rw [Function.update_self, Function.update_self]
      exact hxy hj
    · rw [Function.update_of_ne hij, Function.update_of_ne hij]
      exact h.prog j hj

/-- What does not show keeps two states abreast: the outside, and a call made with `B`. -/
theorem Abreast.hidden (hscreen : Screen env A B Alike) {s q : Deployment.Requests ι}
    (h : Abreast env principal A B Alike s q) {m : Deployment.LimiterMove ι}
    (hm : Deployment.NoFailure s m) (hsee : seenWithout principal B s m = none) :
    Abreast env principal A B Alike ((oneProcess env principal).step s m) q := by
  cases m with
  | outside w => exact ⟨h.stage, h.prog, hscreen.moved hm.2 (fun _ _ _ => rfl) h.alike⟩
  | call i c =>
    have hB : principal i = B := by
      by_contra hne
      simp [seenWithout, hne] at hsee
    have hsame : q.prog = Function.update q.prog i (q.prog i) := (Function.update_eq_self i _).symm
    have hstage := h.stage i
    generalize hprog : s.prog i = prog at hstage
    cases hstage with
    | begun =>
      obtain ⟨hshared, hprogs⟩ := step_begun env c hprog
      refine h.update hprogs hsame (stage_afterClock env _ _) (fun hne => absurd hB hne) ?_
      rw [hshared]
      exact h.alike
    | timed time hwindow =>
      obtain ⟨hshared, hprogs⟩ := step_timed hm hprog
      refine h.update hprogs hsame (.decided _) (fun hne => absurd hB hne) ?_
      rw [hshared, hB]
      exact hscreen.hidden time h.alike
    | decided r =>
      rw [step_decided (r := r) hprog]
      exact h

/-- A call that is not made with `B` is answered alike in two states at one time. -/
theorem Abreast.call (hscreen : Screen env A B Alike) {s q : Deployment.Requests ι}
    (h : Abreast env principal A B Alike s q) (hnow : q.shared.now = s.shared.now) {i : ι}
    (hi : principal i ≠ B) {c : Choice} (hc : c.Healthy) :
    Abreast env principal A B Alike ((oneProcess env principal).step s (.call i c))
      ((oneProcess env principal).step q (.call i .calm)) := by
  have hstage := h.stage i
  have hprog' := h.prog i hi
  unfold Decided at hprog'
  generalize hprog : s.prog i = prog at hstage hprog'
  cases hstage with
  | begun =>
    have hq : q.prog i = (rateLimit env (principal i)).run := by
      refine (hprog'.resolve_right fun ⟨_, ⟨r, hr⟩, _⟩ => ?_).symm
      rw [rateLimit_run] at hr
      cases hr
    obtain ⟨hshared, hprogs⟩ := step_begun env c hprog
    obtain ⟨hshared', hprogs'⟩ := step_begun env .calm hq
    rw [hnow] at hprogs'
    refine h.update hprogs hprogs' (stage_afterClock env _ _) (fun _ => .inl rfl) ?_
    rw [hshared, hshared']
    exact h.alike
  | timed time hwindow =>
    have hq := (hprog'.resolve_right fun ⟨_, ⟨r, hr⟩, _⟩ => nomatch hr).symm
    obtain ⟨hshared, hprogs⟩ := step_timed hc hprog
    obtain ⟨hshared', hprogs'⟩ := step_timed Choice.healthy_calm hq
    refine h.update hprogs hprogs' (.decided _) (fun _ => ?_) ?_
    · by_cases hA : principal i = A
      · rw [hA, hscreen.decides time hwindow hnow h.alike]
        exact .inl rfl
      · exact .inr ⟨hA, ⟨_, rfl⟩, _, rfl⟩
    · rw [hshared, hshared']
      exact hscreen.seen (principal i) time hnow h.alike
  | decided r =>
    have hq : ∃ r', Decided q i r' :=
      hprog'.elim (fun heq => ⟨r, heq.symm⟩) fun hright => hright.2.2
    obtain ⟨r', hr'⟩ := hq
    rw [step_decided (r := r) hprog, step_decided hr']
    exact h

/-- What shows is replayed. -/
theorem Abreast.seen (hscreen : Screen env A B Alike) {s q : Deployment.Requests ι}
    (h : Abreast env principal A B Alike s q) {m : Deployment.LimiterMove ι}
    (hm : Deployment.NoFailure s m) {seen : ι × Instant}
    (hsee : seenWithout principal B s m = some seen) :
    Abreast env principal A B Alike ((oneProcess env principal).step s m)
      (replayCall env principal q seen) := by
  cases m with
  | outside w => cases hsee
  | call i c =>
    have hB : principal i ≠ B := by
      rintro rfl
      simp [seenWithout] at hsee
    obtain rfl : (i, s.shared.now) = seen := by simpa [seenWithout, hB] using hsee
    have hsame : SameCounters q.shared (atTime q s.shared.now).shared := fun _ _ _ => rfl
    have hthen : Abreast env principal A B Alike s (atTime q s.shared.now) :=
      ⟨h.stage, h.prog, hscreen.moved (fun _ _ _ => rfl) hsame h.alike⟩
    exact hthen.call hscreen rfl hB hm

/-- **A run is, for `A`, the replay of what is seen of it.** -/
theorem Abreast.run (hscreen : Screen env A B Alike) {s q : Deployment.Requests ι}
    (h : Abreast env principal A B Alike s q) {trace : List (Deployment.LimiterMove ι)}
    (hfailure : Guarded (oneProcess env principal).step Deployment.NoFailure s trace) :
    Abreast env principal A B Alike (Trace.run (oneProcess env principal).step s trace)
      (Trace.run (replayCall env principal) q
        (observed (oneProcess env principal).step (seenWithout principal B) s trace)) :=
  hfailure.unwind (fun _ _ _ hm h hsee => h.hidden hscreen hm hsee)
    (fun _ _ _ _ hm h hsee => h.seen hscreen hm hsee) h

end Unwind

/-! ## Isolation -/

/-- `B` cannot change what is decided for `A`: in two runs of one process, from one Redis that has
    nothing but counters for the limiter, that differ in the requests of `B` only, every request of
    `A` is decided alike. -/
def Isolated (env : Env) (A B : Principal) : Prop :=
  ∀ (principal : Nat → Principal) (w : World) (trace trace' : List (Deployment.LimiterMove Nat)),
    w.CountersOnly →
    Guarded (oneProcess env principal).step Deployment.NoFailure
      ((oneProcess env principal).start w) trace →
    Guarded (oneProcess env principal).step Deployment.NoFailure
      ((oneProcess env principal).start w) trace' →
    observed (oneProcess env principal).step (seenWithout principal B)
        ((oneProcess env principal).start w) trace
      = observed (oneProcess env principal).step (seenWithout principal B)
        ((oneProcess env principal).start w) trace' →
    ∀ i r, principal i = A →
      (Decided (run (oneProcess env principal).step ((oneProcess env principal).start w) trace) i r
        ↔ Decided (run (oneProcess env principal).step ((oneProcess env principal).start w) trace')
          i r)

section Screens

variable {env : Env} {A B : Principal}

/-- **A screen isolates**: both runs are replays of one observation. -/
theorem isolated_of_screen {Alike : World → World → Prop} (hscreen : Screen env A B Alike)
    (hstart : ∀ w : World, w.CountersOnly → Alike w w) (hne : A ≠ B) : Isolated env A B := by
  intro principal w trace trace' hw hfailure hfailure' hseen i r hi
  have hbegin : Abreast env principal A B Alike ((oneProcess env principal).start w)
      ((oneProcess env principal).start w) :=
    ⟨fun _ => .begun, fun _ _ => .inl rfl, hstart w hw⟩
  have hrun := hbegin.run hscreen hfailure
  have hrun' := hbegin.run hscreen hfailure'
  rw [← hseen] at hrun'
  have hiB : principal i ≠ B := by
    rw [hi]
    exact hne
  have hprog := (hrun.prog i hiB).resolve_right fun h => h.1 hi
  have hprog' := (hrun'.prog i hiB).resolve_right fun h => h.1 hi
  unfold Decided
  rw [hprog, hprog']

/-- What is seen of a counter. -/
def cellAt (redis : Redis) (now : Nat) (key : String) : Option Cell :=
  (redis.peek now key).map fun e => e.value.cell

theorem nextCount_eq (redis : Redis) (now : Nat) (key : String) :
    nextCount redis now key = match cellAt redis now key with
      | none => some 1
      | some (.counter n) => some (n + 1)
      | some (.text _) => none := by
  unfold nextCount cellAt
  cases redis.peek now key with
  | none => rfl
  | some e =>
    dsimp only [Option.map_some]
    cases e.value.cell <;> rfl

/-- A bump keeps a key in sight alike. -/
theorem cellAt_incrCounter {redis redis' : Redis} {key key' : String} {at' : Nat} {ex : Int}
    (h : ∀ now, cellAt redis now key = cellAt redis' now key) (now : Nat) :
    cellAt (incrCounter redis at' key' ex).2 now key
      = cellAt (incrCounter redis' at' key' ex).2 now key := by
  by_cases hkey : key = key'
  · subst hkey
    have hcount : nextCount redis at' key = nextCount redis' at' key := by
      rw [nextCount_eq, nextCount_eq, h]
    unfold incrCounter
    rw [hcount]
    cases nextCount redis' at' key with
    | none => exact h now
    | some n =>
      dsimp only
      split
      · rw [cellAt, cellAt, peek_remove_self, peek_remove_self]
      · obtain ⟨born, hput⟩ := lookup_put_self redis at' key (⟨.counter n, none⟩ : Cached)
          (at' + seconds ex)
        obtain ⟨born', hput'⟩ := lookup_put_self redis' at' key (⟨.counter n, none⟩ : Cached)
          (at' + seconds ex)
        unfold cellAt Store.peek
        rw [hput, hput']
        by_cases hlive : now < at' + seconds ex <;> simp [Option.filter, hlive]
  · unfold cellAt at h ⊢
    rw [peek_incrCounter_ne _ _ _ _ hkey, peek_incrCounter_ne _ _ _ _ hkey]
    exact h now

/-- The counters of the key are seen alike. -/
def SameSight (env : Env) (A : Principal) (w v : World) : Prop :=
  ∀ now k, cellAt w.redis now (windowKey env A k) = cellAt v.redis now (windowKey env A k)

/-- Keys with buckets of their own: what is seen of the counters of `A`. -/
theorem screen_sameSight (hbucket : A.bucketId env.strHash ≠ B.bucketId env.strHash) :
    Screen env A B (SameSight env A) where
  moved := by
    intro w w' v v' hw hv h now k
    unfold cellAt
    rw [hw now _ (hasPrefix_windowKey env A k), hv now _ (hasPrefix_windowKey env A k)]
    exact h now k
  hidden := by
    intro w v time h now k
    have hkey : windowKey env A k
        ≠ windowKey env B (time.fdiv env.settings.rateLimitWindowSeconds) :=
      fun heq => hbucket (windowKey_inj heq).1
    have hpeek : (count env B time w).2.peek now (windowKey env A k)
        = w.redis.peek now (windowKey env A k) := peek_incrCounter_ne _ _ _ _ hkey
    unfold cellAt
    rw [hpeek]
    exact h now k
  seen := by
    intro w v p time hnow h now k
    unfold count
    rw [hnow]
    exact cellAt_incrCounter (fun now => h now k) now
  decides := by
    intro w v time _ hnow h
    have hcount : nextCount w.redis w.now.us
          (windowKey env A (time.fdiv env.settings.rateLimitWindowSeconds))
        = nextCount v.redis w.now.us
          (windowKey env A (time.fdiv env.settings.rateLimitWindowSeconds)) := by
      rw [nextCount_eq, nextCount_eq, h]
    unfold windowKey at hcount
    unfold count incrCounter windowBucket
    rw [hnow, hcount]
    cases nextCount v.redis w.now.us _ <;> rfl

/-- A bump of the limiter leaves counters, and counts one at least. -/
theorem countersOnly_count (env : Env) {w : World} (hw : w.CountersOnly) (p : Principal)
    (time : Int) : ({ w with redis := (count env p time w).2 } : World).CountersOnly
      ∧ ∃ n : Int, (count env p time w).1 = .ok n ∧ 1 ≤ n := by
  have hlimiter := hasPrefix_windowBucket env p time env.settings.rateLimitWindowSeconds
  obtain ⟨n, hcount, hn⟩ : ∃ n : Int, nextCount w.redis w.now.us
      (windowBucket (p.bucketId env.strHash) time env.settings.rateLimitWindowSeconds) = some n
      ∧ 1 ≤ n := by
    unfold nextCount
    split
    · exact ⟨1, rfl, le_rfl⟩
    · rename_i e he
      obtain ⟨n, hcell, hn⟩ := hw _ _ e hlimiter he
      rw [hcell]
      exact ⟨n + 1, rfl, by omega⟩
  refine ⟨fun now key e hkey he => ?_, n, by simp only [count, incrCounter, hcount], hn⟩
  by_cases hsame : key
      = windowBucket (p.bucketId env.strHash) time env.settings.rateLimitWindowSeconds
  · subst hsame
    exact ⟨n, cell_of_peek_incrCounter hcount he, by omega⟩
  · have hpeek : (count env p time w).2.peek now key = w.redis.peek now key :=
      peek_incrCounter_ne _ _ _ _ hsame
    exact hw now key e hkey (hpeek.symm.trans he)

theorem SameCounters.countersOnly {w w' : World} (h : SameCounters w w') (hw : w.CountersOnly) :
    w'.CountersOnly := fun now key e hkey he => hw now key e hkey ((h now key hkey).symm.trans he)

/-- A limit below one refuses whatever is counted. -/
theorem screen_limit (hlimit : env.settings.rateLimitRequests < 1) :
    Screen env A B fun w v => w.CountersOnly ∧ v.CountersOnly where
  moved hw hv h := ⟨hw.countersOnly h.1, hv.countersOnly h.2⟩
  hidden time h := ⟨(countersOnly_count env h.1 B time).1, h.2⟩
  seen p time _ h := ⟨(countersOnly_count env h.1 p time).1, (countersOnly_count env h.2 p time).1⟩
  decides := by
    intro w v time _ _ h
    obtain ⟨-, n, hn, hone⟩ := countersOnly_count env h.1 A time
    obtain ⟨-, n', hn', hone'⟩ := countersOnly_count env h.2 A time
    have hrefused : ∀ n : Int, 1 ≤ n → env.settings.rateLimitRequests < n := fun n hn => by omega
    rw [hn, hn', verdict, verdict, if_pos (hrefused n hone), if_pos (hrefused n' hone')]

/-- Without a window nothing is counted. -/
theorem screen_noWindow (hwindow : env.settings.rateLimitWindowSeconds = 0) :
    Screen env A B fun _ _ => True where
  moved _ _ _ := trivial
  hidden _ _ := trivial
  seen _ _ _ _ := trivial
  decides _ hne := absurd hwindow hne

end Screens

/-! ## Keys that share a bucket -/

section Shared

variable {ι : Type} [DecidableEq ι] {env : Env} {principal : ι → Principal}

/-- The two calls of a request, one after the other. -/
def inTurn (i : ι) : List (Deployment.LimiterMove ι) := [.call i .calm, .call i .calm]

/-- A request that is served with nothing in between. -/
theorem run_inTurn (env : Env) (principal : ι → Principal)
    (hwindow : env.settings.rateLimitWindowSeconds ≠ 0) (s : Deployment.Requests ι) (i : ι)
    (hprog : s.prog i = (rateLimit env (principal i)).run) {time : Int}
    (htime : time = unixSeconds (env.clock s.shared.now)) :
    (run (oneProcess env principal).step s (inTurn i)).shared
        = { s.shared with redis := (count env (principal i) time s.shared).2 }
      ∧ (run (oneProcess env principal).step s (inTurn i)).prog
        = Function.update s.prog i
            (.pure (verdict env (principal i) (count env (principal i) time s.shared).1)) := by
  subst htime
  obtain ⟨hshared, hprogs⟩ := step_begun env .calm hprog
  have hclock : ((oneProcess env principal).step s (.call i .calm)).prog i
      = countThen env (principal i) (unixSeconds (env.clock s.shared.now)) := by
    rw [hprogs, Function.update_self, afterClock, if_neg hwindow]
  obtain ⟨hshared', hprogs'⟩ := step_timed Choice.healthy_calm hclock
  rw [hshared] at hshared' hprogs'
  rw [hprogs, Function.update_idem] at hprogs'
  exact ⟨hshared', hprogs'⟩

theorem guarded_inTurn {s : Deployment.Requests ι} {i : ι}
    {rest : List (Deployment.LimiterMove ι)}
    (h : Guarded (oneProcess env principal).step Deployment.NoFailure
      (run (oneProcess env principal).step s (inTurn i)) rest) :
    Guarded (oneProcess env principal).step Deployment.NoFailure s (inTurn i ++ rest) :=
  ⟨Choice.healthy_calm, Choice.healthy_calm, h⟩

/-- What is seen of such a request. -/
theorem observed_inTurn (env : Env) (principal : ι → Principal) (s : Deployment.Requests ι) (i : ι)
    (hprog : s.prog i = (rateLimit env (principal i)).run) (B : Principal) :
    observed (oneProcess env principal).step (seenWithout principal B) s (inTurn i)
      = if principal i = B then [] else [(i, s.shared.now), (i, s.shared.now)] := by
  have hshared := (step_begun env .calm hprog).1
  simp only [inTurn, observed, seenWithout, hshared]
  split <;> rfl

end Shared

/-- The first request is made with `A`, the others with `B`. -/
def firstWith (A B : Principal) (i : Nat) : Principal := if i = 0 then A else B

/-- On new year's day the counter of the window of `A` shows `n`. -/
def countedTo (env : Env) (A : Principal) (n : Int) : World :=
  { worldOf tinyDb with
    redis := ExpiringStore.empty.put newYear.us (windowBucket (A.bucketId env.strHash)
      (unixSeconds (env.clock newYear)) env.settings.rateLimitWindowSeconds) ⟨.counter n, none⟩
      (newYear.us + 1) }

section Collision

variable {env : Env} {A B : Principal} {n : Int}

theorem countersOnly_countedTo (hn : 0 ≤ n) : (countedTo env A n).CountersOnly := by
  intro now key e hkey he
  by_cases hsame : key = windowBucket (A.bucketId env.strHash) (unixSeconds (env.clock newYear))
      env.settings.rateLimitWindowSeconds
  · subst hsame
    rw [(peek_put_self _ he).1]
    exact ⟨n, rfl, hn⟩
  · rw [countedTo, peek_put_ne _ _ _ _ hsame] at he
    cases he

theorem nextCount_countedTo (env : Env) (A : Principal) (n : Int) :
    nextCount (countedTo env A n).redis newYear.us
    (windowBucket (A.bucketId env.strHash) (unixSeconds (env.clock newYear))
      env.settings.rateLimitWindowSeconds) = some (n + 1) := by
  obtain ⟨born, hput⟩ := lookup_put_self (ExpiringStore.empty : Redis) newYear.us
    (windowBucket (A.bucketId env.strHash) (unixSeconds (env.clock newYear))
      env.settings.rateLimitWindowSeconds) (⟨.counter n, none⟩ : Cached) (newYear.us + 1)
  have hpeek := peek_eq_some.mpr ⟨hput, Nat.lt_succ_self _⟩
  unfold nextCount countedTo
  rw [hpeek]

/-- A request of `A` that comes first counts on. -/
theorem count_first : (count env A (unixSeconds (env.clock newYear)) (countedTo env A n)).1
    = .ok (n + 1) := by
  unfold count incrCounter
  rw [show (countedTo env A n).now = newYear from rfl, nextCount_countedTo]

/-- A counter that was dropped at once starts anew. -/
theorem nextCount_dropped {redis : Redis} {at' now : Nat} {key : String} {ex m : Int}
    (hcount : nextCount redis at' key = some m) (hex : ex ≤ 0) :
    nextCount (incrCounter redis at' key ex).2 now key = some 1 := by
  have hremoved : (incrCounter redis at' key ex).2 = redis.remove key := by
    simp only [incrCounter, hcount, if_pos hex]
  unfold nextCount
  rw [hremoved, peek_remove_self]

/-- One that comes after a request of `B` on the same counter counts on from there, if the counter
    was kept. -/
theorem count_second (hbucket : A.bucketId env.strHash = B.bucketId env.strHash) {w : World}
    (hw : w = { countedTo env A n with
      redis := (count env B (unixSeconds (env.clock newYear)) (countedTo env A n)).2 }) :
    (count env A (unixSeconds (env.clock newYear)) w).1
      = .ok (if env.settings.rateLimitWindowSeconds ≤ 0 then 1 else n + 1 + 1) := by
  have hnext := nextCount_countedTo env A n
  subst hw
  unfold count
  rw [hbucket] at hnext ⊢
  show (incrCounter (incrCounter (countedTo env A n).redis newYear.us _ _).2 newYear.us _ _).1 = _
  split
  · rename_i hdropped
    rw [incrCounter, nextCount_dropped hnext (by omega)]
  · rename_i hkept
    have hlive : newYear.us < newYear.us + seconds (env.settings.rateLimitWindowSeconds * 2) := by
      unfold seconds
      omega
    rw [incrCounter, (nextCount_incrCounter hnext (by omega) hlive).2]

/-- The requests before the first one of them. -/
def beforeAll (env : Env) (A B : Principal) (n : Int) : Deployment.Requests Nat :=
  (oneProcess env (firstWith A B)).start (countedTo env A n)

/-- A request of `B` is served first. -/
def afterOther (env : Env) (A B : Principal) (n : Int) : Deployment.Requests Nat :=
  run (oneProcess env (firstWith A B)).step (beforeAll env A B n) (inTurn 1)

theorem afterOther_eq (A B : Principal) (n : Int)
    (hwindow : env.settings.rateLimitWindowSeconds ≠ 0) :
    (afterOther env A B n).shared = { countedTo env A n with
        redis := (count env B (unixSeconds (env.clock newYear)) (countedTo env A n)).2 }
      ∧ (afterOther env A B n).prog 0 = (rateLimit env A).run := by
  obtain ⟨hshared, hprogs⟩ := run_inTurn env (firstWith A B) hwindow (beforeAll env A B n) 1 rfl rfl
  refine ⟨hshared, ?_⟩
  unfold afterOther
  rw [hprogs, Function.update_of_ne zero_ne_one]
  rfl

theorem decided_first (hwindow : env.settings.rateLimitWindowSeconds ≠ 0) :
    Decided (run (oneProcess env (firstWith A B)).step (beforeAll env A B n) (inTurn 0)) 0
      (verdict env A (.ok (n + 1))) := by
  have hprogs := (run_inTurn env (firstWith A B) hwindow (beforeAll env A B n) 0 rfl rfl).2
  unfold Decided
  rw [hprogs, Function.update_self]
  exact congrArg (fun r => Prog.pure (verdict env A r)) count_first

theorem decided_second (hwindow : env.settings.rateLimitWindowSeconds ≠ 0)
    (hbucket : A.bucketId env.strHash = B.bucketId env.strHash) :
    Decided (run (oneProcess env (firstWith A B)).step (beforeAll env A B n)
        (inTurn 1 ++ inTurn 0)) 0
      (verdict env A (.ok (if env.settings.rateLimitWindowSeconds ≤ 0 then 1 else n + 1 + 1))) := by
  obtain ⟨hshared, hprog⟩ := afterOther_eq A B n hwindow
  have htime : unixSeconds (env.clock newYear)
      = unixSeconds (env.clock (afterOther env A B n).shared.now) := by
    rw [hshared]
    rfl
  have hprogs := (run_inTurn env (firstWith A B) hwindow (afterOther env A B n) 0 hprog htime).2
  unfold Decided
  rw [run_append]
  show (run _ (afterOther env A B n) (inTurn 0)).prog 0 = _
  rw [hprogs, Function.update_self]
  exact congrArg (fun r => Prog.pure (verdict env A r)) (count_second hbucket hshared)

/-- The two runs differ in the request of `B` only. -/
theorem observed_alike (hwindow : env.settings.rateLimitWindowSeconds ≠ 0) (hne : A ≠ B) :
    observed (oneProcess env (firstWith A B)).step (seenWithout (firstWith A B) B)
        (beforeAll env A B n) (inTurn 0)
      = observed (oneProcess env (firstWith A B)).step (seenWithout (firstWith A B) B)
        (beforeAll env A B n) (inTurn 1 ++ inTurn 0) := by
  obtain ⟨hshared, hprog⟩ := afterOther_eq A B n hwindow
  have hA : firstWith A B 0 ≠ B := hne
  have hB : firstWith A B 1 = B := rfl
  have hfirst := observed_inTurn env (firstWith A B) (beforeAll env A B n) 0 rfl B
  have hother := observed_inTurn env (firstWith A B) (beforeAll env A B n) 1 rfl B
  have hsecond := observed_inTurn env (firstWith A B) (afterOther env A B n) 0 hprog B
  rw [if_neg hA] at hfirst hsecond
  rw [if_pos hB] at hother
  have hnow : (afterOther env A B n).shared.now = (beforeAll env A B n).shared.now := by
    rw [hshared]
    rfl
  rw [observed_append, hother, hfirst, List.nil_append, ← hnow]
  exact hsecond.symm

/-- **Keys that share a bucket** are not isolated: one request of `B` decides what becomes of one of
    `A`. -/
theorem not_isolated (hwindow : env.settings.rateLimitWindowSeconds ≠ 0)
    (hlimit : 1 ≤ env.settings.rateLimitRequests)
    (hbucket : A.bucketId env.strHash = B.bucketId env.strHash) (hne : A ≠ B) :
    ¬ Isolated env A B := by
  intro hisolated
  -- a counter one below the limit, or at it when counters are dropped at once
  obtain ⟨n, hn⟩ : ∃ n, n = env.settings.rateLimitRequests
      - (if env.settings.rateLimitWindowSeconds ≤ 0 then 0 else 1) := ⟨_, rfl⟩
  have hnonneg : 0 ≤ n := by
    rw [hn]
    split <;> omega
  have halike := (hisolated (firstWith A B) (countedTo env A n) (inTurn 0) (inTurn 1 ++ inTurn 0)
    (countersOnly_countedTo hnonneg) (guarded_inTurn trivial)
    (guarded_inTurn (guarded_inTurn trivial)) (observed_alike hwindow hne) 0
    (verdict env A (.ok (n + 1))) rfl).mp (decided_first hwindow)
  have hverdicts : verdict env A (.ok (n + 1))
      = verdict env A (.ok (if env.settings.rateLimitWindowSeconds ≤ 0 then 1 else n + 1 + 1)) :=
    Prog.pure.inj (halike.symm.trans (decided_second hwindow hbucket))
  unfold verdict at hverdicts
  dsimp only at hverdicts
  split at hn
  · rename_i hdropped
    rw [if_pos (by omega), if_pos hdropped, if_neg (by omega)] at hverdicts
    cases hverdicts
  · rename_i hkept
    rw [if_neg (by omega), if_neg hkept, if_pos (by omega)] at hverdicts
    cases hverdicts

end Collision

/-! ## Bucket names -/

/-- Read hexadecimal digits onto an accumulator. -/
def hexValue (acc : Nat) (cs : List Char) : Nat :=
  cs.foldl (fun acc c => 16 * acc + (JsonText.hexVal? c).getD 0) acc

theorem hexValue_digitChar {d : Nat} (hd : d < 16) (acc : Nat) :
    hexValue acc [Nat.digitChar d] = 16 * acc + d := by
  show 16 * acc + (JsonText.hexVal? (Nat.digitChar d)).getD 0 = _
  rw [JsonText.hexVal?_digitChar d hd]
  rfl

theorem hexValue_append (acc : Nat) (cs cs' : List Char) :
    hexValue acc (cs ++ cs') = hexValue (hexValue acc cs) cs' := List.foldl_append

theorem hexValue_toDigits (n : Nat) : hexValue 0 (Nat.toDigits 16 n) = n := by
  induction n using Nat.base_induction 16 (by decide) with
  | single m hm => rw [Nat.toDigits_of_lt_base hm, hexValue_digitChar hm,
      Nat.mul_zero, Nat.zero_add]
  | digit m k hk hm ih =>
    rw [← Nat.toDigits_append_toDigits (by decide) hm hk, hexValue_append, ih,
      Nat.toDigits_of_lt_base hk, hexValue_digitChar hk]

theorem hexValue_replicate_zero (k : Nat) : hexValue 0 (List.replicate k '0') = 0 := by
  induction k with
  | zero => rfl
  | succ k ih => exact ih

/-- The text shows the low 32 bits. -/
theorem hex8_eq_iff (m n : Int) : hex8 m = hex8 n ↔ m % 4294967296 = n % 4294967296 := by
  have hvalue (m : Int) : hexValue 0 (hex8 m).toList = (m % 4294967296).toNat := by
    rw [hex8, String.toList_ofList, List.leftpad, hexValue_append, hexValue_replicate_zero,
      hexValue_toDigits]
  constructor
  · intro h
    have hm := hvalue m
    rw [h, hvalue] at hm
    omega
  · intro h
    rw [hex8, hex8, h]

theorem bucketId_eq_iff (env : Env) (A B : Principal) :
    A.bucketId env.strHash = B.bucketId env.strHash
      ↔ env.strHash A.apiKey % 4294967296 = env.strHash B.apiKey % 4294967296 := by
  rw [← hex8_eq_iff, Principal.bucketId, Principal.bucketId]
  exact ⟨String.append_right_inj _ |>.mp, fun h => by rw [h]⟩

/-! ## Which keys are isolated -/

/-- **A key is isolated from another one** exactly if the low 32 bits of their hashes differ, or the
    limiter treats all requests of all keys alike: its window is zero, or its limit is below one. -/
theorem keys_isolated_iff (env : Env) (A B : Principal) (hne : A ≠ B) :
    Isolated env A B
      ↔ env.strHash A.apiKey % 4294967296 ≠ env.strHash B.apiKey % 4294967296
        ∨ env.settings.rateLimitWindowSeconds = 0 ∨ env.settings.rateLimitRequests < 1 := by
  constructor
  · intro hisolated
    by_contra hnot
    obtain ⟨hhash, hwindow, hlimit⟩ : env.strHash A.apiKey % 4294967296
          = env.strHash B.apiKey % 4294967296 ∧ env.settings.rateLimitWindowSeconds ≠ 0
        ∧ ¬ env.settings.rateLimitRequests < 1 := by
      simpa only [not_or, not_not, ne_eq] using hnot
    exact not_isolated hwindow (not_lt.mp hlimit)
      ((bucketId_eq_iff env A B).mpr hhash) hne hisolated
  · rintro (hhash | hwindow | hlimit)
    · have hbucket : A.bucketId env.strHash ≠ B.bucketId env.strHash :=
        fun h => hhash ((bucketId_eq_iff env A B).mp h)
      exact isolated_of_screen (screen_sameSight hbucket) (fun _ _ _ _ => rfl) hne
    · exact isolated_of_screen (screen_noWindow hwindow) (fun _ _ => trivial) hne
    · exact isolated_of_screen (screen_limit hlimit) (fun _ hw => ⟨hw, hw⟩) hne

/-- Two configured keys whose hashes differ in the bits above the low 32 only. -/
def collidingKeys : Env :=
  { env with
    settings := { apiKeys := "key-a,key-b" }
    strHash := fun s => if s = "key-a" then 1 else 4294967297 }

/-- One request of the second key decides what becomes of one of the first. -/
theorem colliding_keys_not_isolated :
    "key-a" ∈ collidingKeys.settings.apiKeySet ∧ "key-b" ∈ collidingKeys.settings.apiKeySet
      ∧ collidingKeys.strHash "key-a" ≠ collidingKeys.strHash "key-b"
      ∧ ¬ Isolated collidingKeys ⟨"key-a"⟩ ⟨"key-b"⟩ := by
  refine ⟨by decide, by decide, by decide, ?_⟩
  exact not_isolated (by decide) (by decide) ((bucketId_eq_iff _ _ _).mpr (by decide)) (by decide)

/-- The same keys with hashes that differ in the low bits. -/
theorem keys_isolated_apart :
    Isolated { collidingKeys with strHash := fun s => if s = "key-a" then 1 else 2 }
      ⟨"key-a"⟩ ⟨"key-b"⟩ :=
  (keys_isolated_iff _ ⟨"key-a"⟩ ⟨"key-b"⟩ (by decide)).mpr (.inl (by decide))

end GpuIndex
