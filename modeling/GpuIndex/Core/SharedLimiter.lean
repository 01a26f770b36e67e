/-
  The limiter of several processes on one Redis.

  A request of the limiter makes two calls: it reads its process's clock, and it bumps the counter
  of its window.  `LimiterPhase` says how far it has come.  `Tally` is the invariant of a counter:
  it shows at least as many as have bumped it, and no more than the limit of these were let through.
  It is kept as long as a counter that has been bumped is there when it is bumped again.  The limit
  of a key then holds if all its requests of a window bump one counter (`shared_limit`); the name of
  the counter has the process's own hash of the key in it, so two processes may well bump two
  (`two_processes_exceed`).
-/
import GpuIndex.Core.Amid
import GpuIndex.Core.Limiter
import Mathlib.Data.Finset.Card

namespace GpuIndex

open Calendar ExpiringStore Trace

/-! ## Deployments -/

/-- Processes of one image with one configuration, and the requests that each of them serves. -/
structure Deployment (π ι : Type) where
  settings : Settings
  process : π → Env
  sameSettings : ∀ p, (process p).settings = settings
  server : ι → π
  principal : ι → Principal

variable {π ι : Type} [DecidableEq ι]

namespace Deployment

variable (d : Deployment π ι)

/-- The process of a request. -/
def env (i : ι) : Env := d.process (d.server i)

/-- The state of the requests. -/
abbrev Requests (ι : Type) := Pool.State svc ι World Session (Except Exn Principal)

/-- A request takes a step, or the world moves on. -/
abbrev LimiterMove (ι : Type) := Pool.Move ι Choice World

/-- Every request before its first call. -/
def start (w : World) : Requests ι where
  shared := w
  own _ := {}
  prog i := (rateLimit (d.env i) (d.principal i)).run

/-- Take a move. -/
def step (s : Requests ι) (m : LimiterMove ι) : Requests ι := s.step (fun i => handler (d.env i)) m

/-- Redis answers; in between time passes, and the rest of the service leaves the counters alone. -/
def NoFailure (s : Requests ι) : LimiterMove ι → Prop
  | .call _ c => c.Healthy
  | .outside w => s.shared.now.us ≤ w.now.us
      ∧ ∀ now key, hasPrefix "rl:" key = true → w.redis.peek now key = s.shared.redis.peek now key

end Deployment

/-! ## What a request has done -/

/-- The request has read its clock. -/
def ReadClock (s : Deployment.Requests ι) (i : ι) (time : Int) : Prop :=
  (⟨.time, time⟩ : Event) ∈ (s.own i).log

/-- The request has bumped the counter. -/
def Bumped (s : Deployment.Requests ι) (i : ι) (key : String) : Prop :=
  ∃ ex ans, (⟨.redis (.incrExpire key ex), ans⟩ : Event) ∈ (s.own i).log

/-- The request was let through. -/
def Admitted (s : Deployment.Requests ι) (i : ι) : Prop := ∃ p, s.prog i = .pure (.ok p)

/-- How far a request of the limiter has come. -/
inductive LimiterPhase (env : Env) (principal : Principal) :
    Prog svc (Except Exn Principal) → List Event → Prop where
  | begun : LimiterPhase env principal (rateLimit env principal).run []
  | noWindow (time : Int) (zero : env.settings.rateLimitWindowSeconds = 0) :
      LimiterPhase env principal (.pure (.error .zeroDivisionError)) [⟨.time, time⟩]
  | timed (time : Int) : LimiterPhase env principal
      (.call (.redis (.incrExpire (windowBucket (principal.bucketId env.strHash) time
        env.settings.rateLimitWindowSeconds) (env.settings.rateLimitWindowSeconds * 2)))
        fun r => .pure (verdict env principal r)) [⟨.time, time⟩]
  | counted (time : Int) (r : Except RedisError Int) :
      LimiterPhase env principal (.pure (verdict env principal r))
        [⟨.redis (.incrExpire (windowBucket (principal.bucketId env.strHash) time
          env.settings.rateLimitWindowSeconds) (env.settings.rateLimitWindowSeconds * 2)), r⟩,
          ⟨.time, time⟩]

/-- The program of the limiter, call by call. -/
theorem rateLimit_run (env : Env) (principal : Principal) :
    (rateLimit env principal).run = .call .time fun time =>
      if env.settings.rateLimitWindowSeconds = 0 then .pure (.error .zeroDivisionError)
      else .call (.redis (.incrExpire (windowBucket (principal.bucketId env.strHash) time
        env.settings.rateLimitWindowSeconds) (env.settings.rateLimitWindowSeconds * 2)))
        fun r => .pure (verdict env principal r) := by
  unfold rateLimit
  show Prog.call _ _ = _
  congr 1
  funext time
  show (if env.settings.rateLimitWindowSeconds = 0 then _ else _ : Svc Principal).run = _
  split
  · rfl
  · show Prog.call _ _ = _
    congr 1
    funext r
    cases r with
    | error e => rfl
    | ok count =>
      show (if env.settings.rateLimitRequests < count then _ else _ : Svc Principal).run = _
      unfold verdict
      dsimp only
      split <;> rfl

/-! ## One move -/

section Step

variable {d : Deployment π ι} {s : Deployment.Requests ι} {i : ι} {c : Choice}

/-- A request reads its clock. -/
theorem step_clock (hprog : s.prog i = (rateLimit (d.env i) (d.principal i)).run) :
    ∃ time prog, d.step s (.call i c) = ⟨s.shared,
        Function.update s.own i { s.own i with log := ⟨.time, time⟩ :: (s.own i).log },
        Function.update s.prog i prog⟩
      ∧ (∀ p, prog ≠ .pure (.ok p)) ∧ LimiterPhase (d.env i)
      (d.principal i) prog [⟨.time, time⟩] := by
  rw [rateLimit_run] at hprog
  refine ⟨_, _, by simp only [Deployment.step, Pool.State.step, hprog]; rfl, ?_⟩
  dsimp only
  split
  · rename_i hzero
    exact ⟨(fun _ h => by cases h), .noWindow _ hzero⟩
  · exact ⟨(fun _ h => by cases h), .timed _⟩

/-- A request bumps a counter. -/
theorem step_bump (hc : c.Healthy) {key : String} {ex : Int}
    {k : Except RedisError Int → Prog svc (Except Exn Principal)}
    (hprog : s.prog i = .call (.redis (.incrExpire key ex)) k)
    {counted : Except RedisError Int × Redis}
    (hcounted : incrCounter s.shared.redis s.shared.now.us key ex = counted) :
    d.step s (.call i c) = ⟨{ s.shared with redis := counted.2 },
      Function.update s.own i
        { s.own i with log := ⟨.redis (.incrExpire key ex), counted.1⟩ :: (s.own i).log },
      Function.update s.prog i (k counted.1)⟩ := by
  simp only [Deployment.step, Pool.State.step, hprog, Pool.State.answer, handler, exec, perform,
    exec_healthy hc, RedisCmd.serve, hcounted]
  rfl

/-- How far the requests have come after a move. -/
theorem phase_step (hphase : ∀ j, LimiterPhase (d.env j) (d.principal j) (s.prog j) (s.own j).log)
    {m : Deployment.LimiterMove ι} (hm : Deployment.NoFailure s m) (j : ι) :
    LimiterPhase (d.env j) (d.principal j) ((d.step s m).prog j) ((d.step s m).own j).log := by
  by_cases hj : ∃ c, m = .call j c
  · obtain ⟨c, rfl⟩ := hj
    have hown := hphase j
    generalize hprog : s.prog j = prog at hown
    generalize hlog : (s.own j).log = log at hown
    cases hown with
    | begun =>
      obtain ⟨time, prog, hstep, -, hnext⟩ := step_clock (d := d) (c := c) hprog
      rw [hstep]
      simpa only [Function.update_self, hlog] using hnext
    -- a request that has ended takes no more steps
    | noWindow time hzero =>
      have hstep : d.step s (.call j c) = s := by
        simp only [Deployment.step, Pool.State.step, hprog]
      rw [hstep]
      exact hphase j
    | timed time =>
      rw [step_bump hm hprog rfl]
      simp only [Function.update_self, hlog]
      exact .counted time _
    | counted time r =>
      have hstep : d.step s (.call j c) = s := by
        simp only [Deployment.step, Pool.State.step, hprog]
      rw [hstep]
      exact hphase j
  · obtain ⟨hown, hprog⟩ := Pool.step_other (s := s) (h := fun i => handler (d.env i))
      fun c heq => hj ⟨c, heq⟩
    show LimiterPhase _ _ ((s.step _ m).prog j) ((s.step _ m).own j).log
    rw [hown, hprog]
    exact hphase j

end Step

/-- A move that bumps nothing and lets nobody through. -/
structure QuietMove (s s' : Deployment.Requests ι) : Prop where
  bumped : ∀ i key, Bumped s' i key ↔ Bumped s i key
  clock : ∀ i key time, Bumped s i key → ReadClock s' i time → ReadClock s i time
  admitted : ∀ i, Admitted s' i → Admitted s i
  peek : ∀ now key, hasPrefix "rl:" key = true →
    s'.shared.redis.peek now key = s.shared.redis.peek now key

/-- A move in which a request bumps its counter. -/
structure BumpMove (d : Deployment π ι) (s s' : Deployment.Requests ι) (i : ι) (key : String)
    (ex : Int) (counted : Except RedisError Int × Redis) : Prop where
  prog : ∃ k, s.prog i = .call (.redis (.incrExpire key ex)) k
  limiter : hasPrefix "rl:" key = true
  fresh : ∀ key', ¬ Bumped s i key'
  incr : incrCounter s.shared.redis s.shared.now.us key ex = counted
  redis : s'.shared.redis = counted.2
  verdict : s'.prog i = .pure (verdict (d.env i) (d.principal i) counted.1)
  bumped : ∀ j key', Bumped s' j key' ↔ (j = i ∧ key' = key) ∨ Bumped s j key'
  clock : ∀ j time, ReadClock s' j time ↔ ReadClock s j time
  other : ∀ j, j ≠ i → s'.prog j = s.prog j

omit [DecidableEq ι] in
theorem QuietMove.refl (s : Deployment.Requests ι) : QuietMove s s :=
  ⟨fun _ _ => Iff.rfl, fun _ _ _ _ h => h, fun _ h => h, fun _ _ _ => rfl⟩

section Cases

variable {d : Deployment π ι} {s : Deployment.Requests ι} {i : ι} {c : Choice}

/-- A request that reads its clock has bumped nothing, and is not let through yet. -/
theorem quietMove_of_begun (hprog : s.prog i = (rateLimit (d.env i) (d.principal i)).run)
    (hlog : (s.own i).log = []) : QuietMove s (d.step s (.call i c)) := by
  obtain ⟨time, prog, hstep, hrefused, -⟩ := step_clock (d := d) (c := c) hprog
  rw [hstep]
  refine ⟨fun j key => ?_, fun j key time' hb hclock => ?_, fun j ha => ?_, fun _ _ _ => rfl⟩
  · by_cases hj : j = i
    · subst hj
      simp [Bumped, hlog]
    · simp only [Bumped, Function.update_of_ne hj]
  · by_cases hj : j = i
    · subst hj
      obtain ⟨ex, ans, hmem⟩ := hb
      rw [hlog] at hmem
      cases hmem
    · simpa only [ReadClock, Function.update_of_ne hj] using hclock
  · by_cases hj : j = i
    · subst hj
      obtain ⟨p, hp⟩ := ha
      exact absurd ((Function.update_self ..).symm.trans hp) (hrefused p)
    · simpa only [Admitted, Function.update_of_ne hj] using ha

/-- A request that has read its clock bumps the counter of the window. -/
theorem bumpMove_of_timed (hc : c.Healthy) {time : Int} {key : String} {ex : Int}
    (hprog : s.prog i = .call (.redis (.incrExpire key ex)) fun r =>
      .pure (verdict (d.env i) (d.principal i) r))
    (hlog : (s.own i).log = [⟨.time, time⟩]) (hkey : hasPrefix "rl:" key = true) :
    BumpMove d s (d.step s (.call i c)) i key ex
      (incrCounter s.shared.redis s.shared.now.us key ex) := by
  have hstep := step_bump (d := d) hc hprog rfl
  rw [hlog] at hstep
  rw [hstep]
  refine ⟨⟨_, hprog⟩, hkey, fun key' hb => ?_, rfl, rfl, Function.update_self ..,
    fun j key' => ?_, fun j time' => ?_, fun j hj => Function.update_of_ne hj _ _⟩
  · simp [Bumped, hlog] at hb
  · by_cases hj : j = i
    · subst hj
      simp [Bumped, hlog, eq_comm]
    · simp only [Bumped, Function.update_of_ne hj, hj, false_and, false_or]
  · by_cases hj : j = i
    · subst hj
      simp [ReadClock, hlog]
    · simp only [ReadClock, Function.update_of_ne hj]

/-- **Every move** is one or the other. -/
theorem move_cases (hphase : ∀ j, LimiterPhase (d.env j) (d.principal j) (s.prog j) (s.own j).log)
    {m : Deployment.LimiterMove ι} (hm : Deployment.NoFailure s m) :
    QuietMove s (d.step s m)
      ∨ ∃ i c key ex counted, m = .call i c ∧ BumpMove d s (d.step s m) i key ex counted := by
  cases m with
  | outside w => exact .inl ⟨fun _ _ => Iff.rfl, fun _ _ _ _ h => h, fun _ h => h, hm.2⟩
  | call i c =>
    have hown := hphase i
    generalize hprog : s.prog i = prog at hown
    generalize hlog : (s.own i).log = log at hown
    cases hown with
    | begun => exact .inl (quietMove_of_begun hprog hlog)
    | noWindow time hzero =>
      have hstep : d.step s (.call i c) = s := by
        simp only [Deployment.step, Pool.State.step, hprog]
      rw [hstep]
      exact .inl (.refl s)
    | timed time =>
      exact .inr ⟨i, c, _, _, _, rfl,
        bumpMove_of_timed hm hprog hlog (hasPrefix_windowBucket _ _ _ _)⟩
    | counted time r =>
      have hstep : d.step s (.call i c) = s := by
        simp only [Deployment.step, Pool.State.step, hprog]
      rw [hstep]
      exact .inl (.refl s)

end Cases

/-! ## The counters -/

/-- What a counter shows: at least as many as have bumped it, of whom no more than the limit were
    let through. -/
def Tally (d : Deployment π ι) (s : Deployment.Requests ι) (key : String) : Prop :=
  ∃ bumpers : List ι, (∀ i, Bumped s i key ↔ i ∈ bumpers)
    ∧ (∀ now e, s.shared.redis.peek now key = some e →
        ∃ n : Int, e.value.cell = .counter n ∧ (bumpers.length : Int) ≤ n)
    ∧ ∀ admitted : Finset ι, (∀ i ∈ admitted, Bumped s i key ∧ Admitted s i) →
        (admitted.card : Int) ≤ d.settings.rateLimitRequests

/-- A counter is there when it is bumped again. -/
def Deployment.CountersLast (s : Deployment.Requests ι) : Deployment.LimiterMove ι → Prop
  | .call i _ => ∀ key ex k, s.prog i = .call (.redis (.incrExpire key ex)) k →
      (∃ j, Bumped s j key) → (s.shared.redis.peek s.shared.now.us key).isSome
  | .outside _ => True

section Tally

variable {d : Deployment π ι} {s s' : Deployment.Requests ι} {key : String}

omit [DecidableEq ι] in
/-- A move that leaves a counter, and those who have bumped it, as they are. -/
theorem Tally.congr (h : Tally d s key) (hbumped : ∀ i, Bumped s' i key ↔ Bumped s i key)
    (hadmitted : ∀ i, Bumped s i key → Admitted s' i → Admitted s i)
    (hpeek : ∀ now, s'.shared.redis.peek now key = s.shared.redis.peek now key) :
    Tally d s' key := by
  obtain ⟨bumpers, hbumpers, hcounter, hlimit⟩ := h
  refine ⟨bumpers, fun i => (hbumped i).trans (hbumpers i), fun now e he => ?_,
    fun admitted h => ?_⟩
  · rw [hpeek] at he
    exact hcounter now e he
  · refine hlimit admitted fun i hi => ?_
    obtain ⟨hb, ha⟩ := h i hi
    exact ⟨(hbumped i).mp hb, hadmitted i ((hbumped i).mp hb) ha⟩

omit [DecidableEq ι] in
/-- The count of a bump is above the number of those who have bumped before. -/
theorem nextCount_of_tally {redis : Redis} {now : Nat} {bumpers : List ι}
    (hcounter : ∀ now e, redis.peek now key = some e →
      ∃ n : Int, e.value.cell = .counter n ∧ (bumpers.length : Int) ≤ n)
    (hlast : bumpers ≠ [] → (redis.peek now key).isSome) :
    ∃ n : Int, nextCount redis now key = some n ∧ (bumpers.length : Int) + 1 ≤ n := by
  cases hpeek : redis.peek now key with
  | none =>
    have hnil : bumpers = [] := by
      by_contra hne
      have := hlast hne
      rw [hpeek] at this
      cases this
    refine ⟨1, by simp only [nextCount, hpeek], ?_⟩
    rw [hnil]
    exact le_rfl
  | some e =>
    obtain ⟨n, hcell, hle⟩ := hcounter now e hpeek
    exact ⟨n + 1, by simp only [nextCount, hpeek, hcell], by omega⟩

/-- What is seen of a counter that has been bumped. -/
theorem cell_of_peek_incrCounter {redis : Redis} {at' now : Nat} {ex n : Int} {e : Entry Cached}
    (hcount : nextCount redis at' key = some n)
    (he : (incrCounter redis at' key ex).2.peek now key = some e) : e.value.cell = .counter n := by
  simp only [incrCounter, hcount] at he
  split at he
  · rw [peek_remove_self] at he
    cases he
  · rw [(peek_put_self _ he).1]

/-- **A bump**: one more who has bumped, let through if the count is within the limit. -/
theorem Tally.bump (h : Tally d s key) {i : ι} {ex : Int} {counted : Except RedisError Int × Redis}
    (hmove : BumpMove d s s' i key ex counted)
    (hlast : (∃ j, Bumped s j key) → (s.shared.redis.peek s.shared.now.us key).isSome) :
    Tally d s' key := by
  obtain ⟨bumpers, hbumpers, hcounter, hbound⟩ := h
  have hbumped (j : ι) : Bumped s' j key ↔ j = i ∨ Bumped s j key := by
    rw [hmove.bumped, and_iff_left rfl]
  have hthere : bumpers ≠ [] → (s.shared.redis.peek s.shared.now.us key).isSome := by
    intro hne
    obtain ⟨j, hj⟩ := List.exists_mem_of_ne_nil bumpers hne
    exact hlast ⟨j, (hbumpers j).mpr hj⟩
  obtain ⟨n, hcount, hn⟩ := nextCount_of_tally hcounter hthere
  have hans : counted.1 = .ok n := by
    rw [← hmove.incr]
    simp only [incrCounter, hcount]
  -- the new bumper is counted in front of the others
  refine ⟨i :: bumpers, fun j => ?_, fun now e he => ?_, fun admitted hadmitted => ?_⟩
  · rw [hbumped, List.mem_cons, hbumpers]
  · rw [hmove.redis, ← hmove.incr] at he
    refine ⟨n, cell_of_peek_incrCounter hcount he, ?_⟩
    rw [List.length_cons]
    push_cast
    exact hn
  · by_cases hroom : n ≤ d.settings.rateLimitRequests
    · have hsubset : admitted ⊆ (i :: bumpers).toFinset := by
        intro j hj
        rw [List.mem_toFinset, List.mem_cons, ← hbumpers]
        exact (hbumped j).mp (hadmitted j hj).1
      have hcard := (Finset.card_le_card hsubset).trans (List.toFinset_card_le _)
      rw [List.length_cons] at hcard
      omega
    · -- this request is refused, so those let through are the same as before
      refine hbound admitted fun j hj => ?_
      obtain ⟨hb, p, hp⟩ := hadmitted j hj
      have hji : j ≠ i := by
        rintro rfl
        have hover : (d.env j).settings.rateLimitRequests < n := by
          rw [Deployment.env, d.sameSettings]
          exact not_le.mp hroom
        rw [hmove.verdict, hans, verdict, if_pos hover] at hp
        cases hp
      refine ⟨((hbumped j).mp hb).resolve_left hji, p, ?_⟩
      rw [← hmove.other j hji]
      exact hp

end Tally

/-! ## Runs -/

/-- Every request is somewhere in the limiter, and every counter shows its tally. -/
structure Deployment.Counting (d : Deployment π ι) (s : Deployment.Requests ι) : Prop where
  phase : ∀ i, LimiterPhase (d.env i) (d.principal i) (s.prog i) (s.own i).log
  tally : ∀ key, hasPrefix "rl:" key = true → Tally d s key

/-- What is under the limiter's prefix is a counter. -/
def World.CountersOnly (w : World) : Prop :=
  ∀ now key e, hasPrefix "rl:" key = true → w.redis.peek now key = some e →
    ∃ n : Int, e.value.cell = .counter n ∧ 0 ≤ n

omit [DecidableEq ι] in
theorem not_bumped_start (d : Deployment π ι) (w : World) (i : ι) (key : String) :
    ¬ Bumped (d.start w) i key := by
  rintro ⟨ex, ans, hmem⟩
  cases hmem

omit [DecidableEq ι] in
theorem Deployment.counting_start (d : Deployment π ι) {w : World}
    (hlimit : 0 ≤ d.settings.rateLimitRequests) (hw : w.CountersOnly) :
    d.Counting (d.start w) where
  phase := fun _ => .begun
  tally := by
    intro key hkey
    refine ⟨[], fun i => ?_, fun now e he => hw now key e hkey he, fun admitted h => ?_⟩
    · simp only [not_bumped_start d w i key, List.not_mem_nil]
    · have hnone : admitted = ∅ :=
        Finset.eq_empty_of_forall_notMem fun i hi => not_bumped_start d w i key (h i hi).1
      rw [hnone]
      exact hlimit

/-- **One move** keeps the counters. -/
theorem Deployment.Counting.step {d : Deployment π ι} {s : Deployment.Requests ι}
    (h : d.Counting s) {m : Deployment.LimiterMove ι} (hm : Deployment.NoFailure s m)
    (hlast : Deployment.CountersLast s m) : d.Counting (d.step s m) where
  phase := phase_step h.phase hm
  tally := by
    intro key hkey
    rcases move_cases h.phase hm with hquiet | ⟨i, c, key₀, ex, counted, rfl, hbump⟩
    · exact (h.tally key hkey).congr (hquiet.bumped · key) (fun i _ => hquiet.admitted i)
        (hquiet.peek · key hkey)
    · by_cases hkey₀ : key = key₀
      · subst hkey₀
        obtain ⟨k, hprog⟩ := hbump.prog
        exact (h.tally key hkey).bump hbump (hlast key ex k hprog)
      · refine (h.tally key hkey).congr (fun j => ?_) (fun j hb ha => ?_) fun now => ?_
        · rw [hbump.bumped]
          exact or_iff_right fun hj => hkey₀ hj.2
        · have hji : j ≠ i := by
            rintro rfl
            exact hbump.fresh key hb
          rw [Admitted, ← hbump.other j hji]
          exact ha
        · rw [hbump.redis, ← hbump.incr]
          exact peek_incrCounter_ne _ _ _ _ hkey₀

/-! ## The limit of a key -/

/-- The requests of a key that fell in one window have bumped one counter. -/
def Deployment.OneCounter (d : Deployment π ι) (p : Principal) (s : Deployment.Requests ι) : Prop :=
  ∀ i j time time' key key', d.principal i = p → d.principal j = p →
    ReadClock s i time → ReadClock s j time' →
    time.fdiv d.settings.rateLimitWindowSeconds = time'.fdiv d.settings.rateLimitWindowSeconds →
    Bumped s i key → Bumped s j key' → key = key'

/-- A request of the key bumps the counter that the others of its window have bumped. -/
def Deployment.BumpsAlike (d : Deployment π ι) (p : Principal) (s : Deployment.Requests ι) :
    Deployment.LimiterMove ι → Prop
  | .call i _ => ∀ key ex k, s.prog i = .call (.redis (.incrExpire key ex)) k → d.principal i = p →
      ∀ j time time' key', d.principal j = p → ReadClock s i time → ReadClock s j time' →
        time.fdiv d.settings.rateLimitWindowSeconds
          = time'.fdiv d.settings.rateLimitWindowSeconds →
        Bumped s j key' → key' = key
  | .outside _ => True

/-- **One move** keeps them on one counter. -/
theorem Deployment.OneCounter.step {d : Deployment π ι} {p : Principal} {s : Deployment.Requests ι}
    (h : d.OneCounter p s) (hcounting : d.Counting s) {m : Deployment.LimiterMove ι}
    (hm : Deployment.NoFailure s m) (halike : d.BumpsAlike p s m) :
    d.OneCounter p (d.step s m) := by
  intro i j time time' key key' hi hj hclock hclock' hwindow hb hb'
  rcases move_cases hcounting.phase hm with hquiet | ⟨i₀, c, key₀, ex, counted, rfl, hbump⟩
  · rw [hquiet.bumped] at hb hb'
    exact h i j time time' key key' hi hj (hquiet.clock i key time hb hclock)
      (hquiet.clock j key' time' hb' hclock') hwindow hb hb'
  · obtain ⟨k, hprog⟩ := hbump.prog
    rw [hbump.clock] at hclock hclock'
    rw [hbump.bumped] at hb hb'
    -- the one that bumps now comes last, whichever of the two it is
    rcases hb with ⟨rfl, rfl⟩ | hb
    · rcases hb' with ⟨rfl, rfl⟩ | hb'
      · rfl
      · exact (halike key ex k hprog hi j time time' key' hj hclock hclock' hwindow hb').symm
    · rcases hb' with ⟨rfl, rfl⟩ | hb'
      · exact halike key' ex k hprog hj i time' time key hi hclock' hclock hwindow.symm hb
      · exact h i j time time' key key' hi hj hclock hclock' hwindow hb hb'

omit [DecidableEq ι] in
/-- Whoever was let through has read the clock and bumped a counter of the limiter. -/
theorem Admitted.bumped {d : Deployment π ι} {s : Deployment.Requests ι} (h : d.Counting s) {i : ι}
    (hi : Admitted s i) : ∃ key, hasPrefix "rl:" key = true ∧ Bumped s i key := by
  obtain ⟨p, hp⟩ := hi
  have hphase := h.phase i
  rw [hp] at hphase
  generalize hprog : (Prog.pure (.ok p) : Prog svc (Except Exn Principal)) = prog at hphase
  generalize hlog : (s.own i).log = log at hphase
  cases hphase with
  | begun =>
    rw [rateLimit_run] at hprog
    cases hprog
  | noWindow => cases hprog
  | timed => cases hprog
  | counted time r =>
    have hevent : Bumped s i (windowBucket ((d.principal i).bucketId (d.env i).strHash) time
        (d.env i).settings.rateLimitWindowSeconds) :=
      ⟨_, r, hlog ▸ List.mem_cons_self⟩
    exact ⟨_, hasPrefix_windowBucket (d.env i) (d.principal i) time _, hevent⟩

/-- **The limit of a key over all processes**: in every run in which its requests of a window bump
    one counter, and no counter expires between two bumps. -/
theorem shared_limit (d : Deployment π ι) (p : Principal)
    (hlimit : 0 ≤ d.settings.rateLimitRequests) (w : World) (hw : w.CountersOnly)
    (trace : List (Deployment.LimiterMove ι))
    (hfailure : Guarded d.step Deployment.NoFailure (d.start w) trace)
    (halike : Guarded d.step (d.BumpsAlike p) (d.start w) trace)
    (hlast : Guarded d.step Deployment.CountersLast (d.start w) trace)
    (window : Int) (admitted : Finset ι)
    (hadmitted : ∀ i ∈ admitted, d.principal i = p ∧ Admitted (run d.step (d.start w) trace) i
      ∧ ∃ time, ReadClock (run d.step (d.start w) trace) i time
        ∧ time.fdiv d.settings.rateLimitWindowSeconds = window) :
    (admitted.card : Int) ≤ d.settings.rateLimitRequests := by
  have hstart : d.Counting (d.start w) ∧ d.OneCounter p (d.start w) :=
    ⟨d.counting_start hlimit hw, fun i _ _ _ key _ _ _ _ _ _ hb =>
      absurd hb (not_bumped_start d w i key)⟩
  have hinv : d.Counting (run d.step (d.start w) trace)
      ∧ d.OneCounter p (run d.step (d.start w) trace) :=
    ((hfailure.and halike).and hlast).inv
      (P := fun s => d.Counting s ∧ d.OneCounter p s)
      (fun s m h hm => ⟨h.1.step hm.1.1 hm.2, h.2.step h.1 hm.1.1 hm.1.2⟩) hstart
  -- all the admitted have bumped the counter of the first, so its tally bounds them
  obtain ⟨hcounting, hone⟩ := hinv
  rcases admitted.eq_empty_or_nonempty with rfl | ⟨i₀, hi₀⟩
  · exact hlimit
  · obtain ⟨hp₀, hadm₀, time₀, hclock₀, hwindow₀⟩ := hadmitted i₀ hi₀
    obtain ⟨key₀, hkey₀, hb₀⟩ := Admitted.bumped hcounting hadm₀
    obtain ⟨bumpers, -, -, hbound⟩ := hcounting.tally key₀ hkey₀
    refine hbound admitted fun i hi => ?_
    obtain ⟨hp, hadm, time, hclock, hwindow⟩ := hadmitted i hi
    obtain ⟨key, -, hb⟩ := Admitted.bumped hcounting hadm
    have hkey := hone i i₀ time time₀ key key₀ hp hp₀ hclock hclock₀ (hwindow.trans hwindow₀.symm)
      hb hb₀
    exact ⟨hkey ▸ hb, hadm⟩

/-! ## Processes that agree on the bucket -/

omit [DecidableEq ι] in
/-- The counter that a request has bumped, or is about to bump, is that of the window it read. -/
theorem LimiterPhase.bumped_eq {d : Deployment π ι} {s : Deployment.Requests ι} {i : ι}
    (h : LimiterPhase (d.env i) (d.principal i) (s.prog i) (s.own i).log) {key : String}
    {time : Int} (hclock : ReadClock s i time)
    (hkey : Bumped s i key ∨ ∃ ex k, s.prog i = .call (.redis (.incrExpire key ex)) k) :
    key = windowBucket ((d.principal i).bucketId (d.env i).strHash) time
      d.settings.rateLimitWindowSeconds := by
  have hsettings : (d.env i).settings = d.settings := d.sameSettings _
  rw [← hsettings]
  unfold ReadClock at hclock
  unfold Bumped at hkey
  generalize s.prog i = prog at h hkey
  generalize (s.own i).log = log at h hclock hkey
  cases h with
  | begun => cases hclock
  | noWindow time' hzero =>
    rcases hkey with ⟨ex, ans, hmem⟩ | ⟨ex, k, hprog⟩
    · simp at hmem
    · cases hprog
  | timed time' =>
    obtain rfl : time = time' := by simpa using hclock
    rcases hkey with ⟨ex, ans, hmem⟩ | ⟨ex, k, hprog⟩
    · simp at hmem
    · cases hprog
      rfl
  | counted time' r =>
    obtain rfl : time = time' := by simpa using hclock
    rcases hkey with ⟨ex, ans, hmem⟩ | ⟨ex, k, hprog⟩
    · simp only [List.mem_cons, Event.mk.injEq, Op.redis.injEq, RedisCmd.incrExpire.injEq] at hmem
      rcases hmem with h | h | h
      · exact h.1.1
      · cases h.1
      · cases h
    · cases hprog

/-- How far the requests have come after a run. -/
theorem Deployment.phase_run (d : Deployment π ι) {w : World}
    {trace : List (Deployment.LimiterMove ι)}
    (hfailure : Guarded d.step Deployment.NoFailure (d.start w) trace) (i : ι) :
    LimiterPhase (d.env i) (d.principal i) ((run d.step (d.start w) trace).prog i)
      ((run d.step (d.start w) trace).own i).log :=
  hfailure.inv
    (P := fun s => ∀ i, LimiterPhase (d.env i) (d.principal i) (s.prog i) (s.own i).log)
    (fun _ _ h hm => phase_step h hm) (fun _ => .begun) i

/-- Processes that give a key one bucket bump one counter. -/
theorem Deployment.bumpsAlike_of_sameBucket (d : Deployment π ι) (p : Principal)
    (hbucket : ∀ i j, d.principal i = p → d.principal j = p →
      p.bucketId (d.env i).strHash = p.bucketId (d.env j).strHash) (w : World)
    {trace : List (Deployment.LimiterMove ι)}
    (hfailure : Guarded d.step Deployment.NoFailure (d.start w) trace) :
    Guarded d.step (d.BumpsAlike p) (d.start w) trace := by
  refine guarded_iff.mpr fun before m after htrace => ?_
  have hphase := d.phase_run (guarded_append.mp (htrace ▸ hfailure)).1
  cases m with
  | outside w' => trivial
  | call i c =>
    intro key ex k hprog hi j time time' key' hj hclock hclock' hwindow hb
    have hkey := (hphase i).bumped_eq hclock (.inr ⟨ex, k, hprog⟩)
    have hkey' := (hphase j).bumped_eq hclock' (.inl hb)
    rw [hi] at hkey
    rw [hj] at hkey'
    rw [hkey, hkey', hbucket i j hi hj, windowBucket, windowBucket, hwindow]

/-- Two processes, each with its own hash of a text. -/
def twoProcesses (hash : Nat → Int) : Deployment Nat Nat where
  settings := onePerMinute.settings
  process n := { onePerMinute with strHash := fun _ => hash n }
  sameSettings _ := rfl
  server i := i
  principal _ := devKey

/-- Two requests, one after the other. -/
def oneByOne : List (Deployment.LimiterMove Nat) :=
  [.call 0 .calm, .call 0 .calm, .call 1 .calm, .call 1 .calm]

/-- The requests after some of the moves. -/
def requestsAfter (hash : Nat → Int) (trace : List (Deployment.LimiterMove Nat)) :
    Deployment.Requests Nat :=
  run (twoProcesses hash).step ((twoProcesses hash).start (worldOf tinyDb)) trace

theorem readClock_requestsAfter {hash : Nat → Int} {i : Nat} {ans : Except RedisError Int}
    {key : String} {ex : Int} (h : ((requestsAfter hash oneByOne).own i).log
      = [⟨.redis (.incrExpire key ex), ans⟩, ⟨.time, unixSeconds newYear⟩]) :
    ReadClock (requestsAfter hash oneByOne) i (unixSeconds newYear) := by
  unfold ReadClock
  rw [h]
  exact List.mem_cons_of_mem _ List.mem_cons_self

theorem two_processes_exceed :
    (twoProcesses Int.ofNat).settings.rateLimitRequests = 1
      ∧ Guarded (twoProcesses Int.ofNat).step Deployment.NoFailure
        ((twoProcesses Int.ofNat).start (worldOf tinyDb)) oneByOne
      ∧ ∀ i ∈ ({0, 1} : Finset Nat), (twoProcesses Int.ofNat).principal i = devKey
        ∧ Admitted (requestsAfter Int.ofNat oneByOne) i
        ∧ ReadClock (requestsAfter Int.ofNat oneByOne) i (unixSeconds newYear) := by
  refine ⟨rfl, ⟨rfl, rfl, rfl, rfl, trivial⟩, fun i hi => ?_⟩
  rcases Finset.mem_insert.mp hi with rfl | hi
  · exact ⟨rfl, ⟨devKey, by with_unfolding_all rfl⟩,
      readClock_requestsAfter (by with_unfolding_all rfl)⟩
  · obtain rfl := Finset.mem_singleton.mp hi
    exact ⟨rfl, ⟨devKey, by with_unfolding_all rfl⟩,
      readClock_requestsAfter (by with_unfolding_all rfl)⟩

/-- On two processes that agree, the second request finds the counter of the first. -/
theorem countersLast_oneByOne : Guarded (twoProcesses fun _ => 0).step Deployment.CountersLast
    ((twoProcesses fun _ => 0).start (worldOf tinyDb)) oneByOne := by
  have hbegun (env : Env) (key : String) (ex : Int)
      (k : Except RedisError Int → Prog svc (Except Exn Principal)) :
      (rateLimit env devKey).run ≠ .call (.redis (.incrExpire key ex)) k := by
    rw [rateLimit_run]
    exact fun h => nomatch h
  refine ⟨fun key ex k hprog => absurd hprog (hbegun _ key ex k), ?_,
    fun key ex k hprog => absurd hprog (hbegun _ key ex k), ?_, trivial⟩
  · -- so far one clock has been read, and nothing bumped
    rintro key ex k - ⟨j, ex', ans, hmem⟩
    have hlog : ((requestsAfter (fun _ => 0) [.call 0 .calm]).own j).log
        = if j = 0 then [⟨.time, unixSeconds newYear⟩] else [] := by
      by_cases hj : j = 0
      · rw [if_pos hj, hj]
        with_unfolding_all rfl
      · rw [if_neg hj]
        have hother := Pool.step_other (s := (twoProcesses fun _ => 0).start (worldOf tinyDb))
          (h := fun i => handler ((twoProcesses fun _ => 0).env i)) (m := .call 0 .calm)
          fun c h => hj (Pool.Move.call.inj h).1.symm
        exact congrArg Session.log hother.1
    have hmem' : _ ∈ ((requestsAfter (fun _ => 0) [.call 0 .calm]).own j).log := hmem
    rw [hlog] at hmem'
    split at hmem' <;> simp at hmem'
  · intro key ex k hprog _
    have hcalm : Guarded (twoProcesses fun _ => 0).step Deployment.NoFailure
        ((twoProcesses fun _ => 0).start (worldOf tinyDb))
        [.call 0 .calm, .call 0 .calm, .call 1 .calm] := ⟨rfl, rfl, rfl, trivial⟩
    have hclock :
        ReadClock (requestsAfter (fun _ => 0) [.call 0 .calm, .call 0 .calm, .call 1 .calm])
        1 (unixSeconds newYear) := by
      have hlog : ((requestsAfter (fun _ => 0) [.call 0 .calm, .call 0 .calm, .call 1 .calm]).own
          1).log = [⟨.time, unixSeconds newYear⟩] := by
        with_unfolding_all rfl
      unfold ReadClock
      rw [hlog]
      exact List.mem_cons_self
    have hkey := ((twoProcesses fun _ => 0).phase_run hcalm 1).bumped_eq hclock
      (.inr ⟨ex, k, hprog⟩)
    rw [hkey]
    with_unfolding_all rfl

theorem shared_limit_two :
    ((({0} : Finset Nat).card : Nat) : Int)
      ≤ (twoProcesses fun _ => 0).settings.rateLimitRequests :=
  have hfailure : Guarded (twoProcesses fun _ => 0).step Deployment.NoFailure
      ((twoProcesses fun _ => 0).start (worldOf tinyDb)) oneByOne := ⟨rfl, rfl, rfl, rfl, trivial⟩
  shared_limit (twoProcesses fun _ => 0) devKey (by decide) (worldOf tinyDb)
    (fun _ _ _ _ h => nomatch h) oneByOne hfailure
    ((twoProcesses fun _ => 0).bumpsAlike_of_sameBucket devKey (fun _ _ _ _ => rfl) _ hfailure)
    countersLast_oneByOne _ {0} fun i hi => by
      obtain rfl := Finset.mem_singleton.mp hi
      exact ⟨rfl, ⟨devKey, by with_unfolding_all rfl⟩, unixSeconds newYear,
        readClock_requestsAfter (by with_unfolding_all rfl), rfl⟩

end GpuIndex
