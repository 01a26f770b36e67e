/-
  What cached reads answer with, in any run of requests.

  Calls may fail one by one, Redis may drop entries, other programs may add prices.  Every cached
  read still answers with the rows of one selection from one committed state of the tables
  (`reads_answer_from_snapshots`).  An invalidation that was lost, or a response that was stored too
  late, leaves rows out for no longer than the time to live and the longest request together
  (`staleness_bounded`): what is older than that has died.
-/
import GpuIndex.Api.SharedCache

namespace GpuIndex

open Calendar ExpiringStore Trace

variable {ι : Type} [DecidableEq ι]

namespace Traffic

/-- The worlds in which the calls of a request were answered. -/
def life (t : Traffic ι) (w : World) (trace : List (Move ι)) (i : ι) (v : World) : Prop :=
  ∃ before c later, trace = before ++ .call i c :: later
    ∧ (∃ op k, (t.after w before).prog i = .call op k) ∧ v = (t.after w before).shared

/-- Calls may fail.  From outside, time passes, entries of the cache are lost, and prices are
    added. -/
def Unreliable (s : Threads ι) : Move ι → Prop
  | .call _ _ => True
  | .outside w => s.shared.now.us ≤ w.now.us ∧ s.shared.db.Grows w.db
      ∧ ∀ keyPrefix ∈ cachePrefixes, ∀ now key e, hasPrefix keyPrefix key = true →
          w.redis.peek now key = some e → s.shared.redis.peek now key = some e

end Traffic

variable {t : Traffic ι} {w : World}

/-! ## Time and tables -/

/-- A move takes no time back and removes no row. -/
theorem Traffic.Unreliable.grows {s : Traffic.Threads ι} {m : Traffic.Move ι}
    (hm : Traffic.Unreliable s m) : s.shared.now.us ≤ (t.step s m).shared.now.us
      ∧ s.shared.db.Grows (t.step s m).shared.db := by
  cases m with
  | outside w => exact ⟨hm.1, hm.2.1⟩
  | call i c =>
    cases hprog : s.prog i with
    | pure r =>
      have hstep : t.step s (.call i c) = s := by simp only [Traffic.step, Pool.State.step, hprog]
      rw [hstep]
      exact ⟨le_rfl, .refl _⟩
    | call op k =>
      have hstep : (t.step s (.call i c)).shared
          = (exec (t.env i) c op ⟨s.shared, s.own i⟩).2.world := by
        simp only [Traffic.step, Pool.State.step, hprog]
        rfl
      obtain ⟨hgrows, hnow⟩ := exec_grows (t.env i) c op ⟨s.shared, s.own i⟩
      rw [hstep, hnow]
      exact ⟨le_rfl, hgrows⟩

/-- Nor do all the moves from one point of a run to a later one. -/
theorem Traffic.grows_between {before mid : List (Traffic.Move ι)}
    (hrun : Guarded t.step Traffic.Unreliable (t.start w) (before ++ mid)) :
    (t.after w before).shared.now.us ≤ (t.after w (before ++ mid)).shared.now.us
      ∧ (t.after w before).shared.db.Grows (t.after w (before ++ mid)).shared.db := by
  rw [Traffic.after_append]
  refine (guarded_append.mp hrun).2.inv (P := fun s : Traffic.Threads ι =>
    (t.after w before).shared.now.us ≤ s.shared.now.us
      ∧ (t.after w before).shared.db.Grows s.shared.db) (fun s m h hm => ?_) ⟨le_rfl, .refl _⟩
  have hgrows := hm.grows (t := t)
  exact ⟨h.1.trans hgrows.1, h.2.trans hgrows.2⟩

/-! ## Sharing the cache -/

/-- A run answers each request in its life. -/
theorem Traffic.allowed {trace : List (Traffic.Move ι)}
    (hrun : Guarded t.step Traffic.Unreliable (t.start w) trace) :
    Guarded t.step (Pool.Allowed (fun i c op w' l => Alive (t.life w trace) i c op ⟨w', l⟩)
      fun _ => Steady t.env (t.life w trace)) (t.start w) trace := by
  refine guarded_iff.mpr fun before m later hsplit => ?_
  have hm := guarded_iff.mp hrun before m later hsplit
  cases m with
  | call i c => exact fun op k hprog => ⟨before, c, later, hsplit, ⟨op, k, hprog⟩, rfl⟩
  | outside v =>
    intro i
    obtain ⟨hlater, hgrows, hentries⟩ := hm
    refine ⟨hlater, hgrows, fun h => h.of_entries fun keyPrefix hcache key e hunder he => ?_⟩
    exact peek_of_le (hentries keyPrefix hcache _ key e hunder he) hlater

omit [DecidableEq ι] in
/-- Every request complies from its start. -/
theorem Traffic.all_comply (himage : OneImage t.env) (hcold : w.Cold) (life : ι → World → Prop) :
    Pool.AllComply (fun i c op w' l => Alive life i c op ⟨w', l⟩) (fun i => handler (t.env i))
      (fun _ => Steady t.env life) (fun _ x y => KeepsSteady t.env life ⟨x.1, x.2⟩ ⟨y.1, y.2⟩)
      (fun i r _ l => (t.request i).route.Cached →
        SharedAnswer t.env life i (t.request i).route r l.source) (t.start w) :=
  fun i => sharing_serveRequest (m := ⟨w, {}⟩) himage (t.request i) hcold.filled

/-- **Snapshots**: in every run, a cached read that has ended has answered with the rows of one
    selection from the tables as they were committed at one point of the run, made by itself or for
    the same key, or with an error of its own. -/
theorem reads_answer_from_snapshots (t : Traffic ι) (himage : OneImage t.env) (w : World)
    (hcold : w.Cold) (trace : List (Traffic.Move ι))
    (hrun : Guarded t.step Traffic.Unreliable (t.start w) trace) (i : ι)
    (hroute : (t.request i).route.Cached) (r : Except Exn Response)
    (hr : (t.after w trace).prog i = .pure r) :
    SharedAnswer t.env (t.life w trace) i (t.request i).route r ((t.after w trace).own i).source :=
  Pool.ended_run (compatible_steady t.env (t.life w trace))
    (Traffic.all_comply himage hcold (t.life w trace)) (Traffic.allowed hrun) hr hroute

/-- The process of the three requests. -/
theorem oneImage_readIngestRead : OneImage readIngestRead.env where
  fmt _ _ := rfl
  parse _ d := parseDatetime_strDatetime d

theorem cold_worldOf (db : Database) : (worldOf db).Cold := fun _ _ _ _ => rfl

theorem unreliable_calls (s : Traffic.Threads Nat) (requests : List Nat) :
    Guarded readIngestRead.step Traffic.Unreliable s (calls requests) := by
  refine guarded_iff.mpr fun before m after h => ?_
  have hmem : m ∈ calls requests := h ▸ List.mem_append_right _ List.mem_cons_self
  obtain ⟨i, -, rfl⟩ := List.mem_map.mp hmem
  trivial

/-- The first read stores its answer after the ingest has responded; the second finds it. -/
theorem reads_answer_from_snapshots_stale :
    SharedAnswer readIngestRead.env
      (readIngestRead.life
        (worldOf (catalogue ⟨1, by decide⟩)) (calls (untilResponse ++ sinceResponse)))
      2 (readIngestRead.request 2).route (.ok ⟨200, .summary (emptySummary "H100 SXM"), []⟩)
      ((afterCalls (untilResponse ++ sinceResponse)).own 2).source :=
  reads_answer_from_snapshots readIngestRead oneImage_readIngestRead
    (worldOf (catalogue ⟨1, by decide⟩)) (cold_worldOf _) (calls (untilResponse ++ sinceResponse))
    (unreliable_calls _ _) 2 trivial _ (by with_unfolding_all rfl)

/-! ## Staleness -/

/-- A world that a request has lived in after a point of the run has the tables of that point. -/
theorem Traffic.life_grows {before later : List (Traffic.Move ι)} {i : ι} {v : World}
    (hrun : Guarded t.step Traffic.Unreliable (t.start w) (before ++ later))
    (hv : t.life w (before ++ later) i v)
    (hafter : (∀ m ∈ before, ∀ c, m ≠ .call i c) ∨ (t.after w before).shared.now.us < v.now.us) :
    (t.after w before).shared.db.Grows v.db := by
  obtain ⟨upto, c, rest, hsplit, -, rfl⟩ := hv
  have hprefix : upto <+: before ++ later := ⟨_, hsplit.symm⟩
  rcases List.prefix_or_prefix_of_prefix
    (List.prefix_append before later) hprefix with ⟨mid, rfl⟩ | ⟨mid, rfl⟩
  · rw [hsplit] at hrun
    exact (Traffic.grows_between (guarded_append.mp hrun).1).2
  · rcases hafter with hstarts | hlt
    · -- the call cannot be among the moves before
      rw [List.append_assoc, List.append_cancel_left_eq] at hsplit
      cases mid with
      | nil =>
        rw [List.append_nil]
        exact .refl _
      | cons m mid =>
        rw [List.cons_append, List.cons.injEq] at hsplit
        exact absurd hsplit.1 (hstarts m (List.mem_append_right _ List.mem_cons_self) c)
    · have hle := (Traffic.grows_between (guarded_append.mp hrun).1).1
      omega

/-- **Staleness**: no request takes longer than `longest` and no entry lives longer than `ttl`.
    Then a cached read that starts when so much time has passed answers from tables that have every
    row there was, whatever failed. -/
theorem staleness_bounded (t : Traffic ι) (himage : OneImage t.env) (w : World) (hcold : w.Cold)
    (before later : List (Traffic.Move ι))
    (hrun : Guarded t.step Traffic.Unreliable (t.start w) (before ++ later)) (longest ttl : Nat)
    (hlongest : ∀ j v v', t.life w (before ++ later) j v → t.life w (before ++ later) j v' →
      v'.now.us ≤ v.now.us + longest)
    (httl : ∀ j, seconds (t.env j).settings.cacheTtlSeconds ≤ ttl) (i : ι)
    (hroute : (t.request i).route.Cached) (hstarts : ∀ m ∈ before, ∀ c, m ≠ .call i c)
    (hlate : ∀ v, t.life w (before ++ later) i v →
      (t.after w before).shared.now.us + longest + ttl ≤ v.now.us)
    (response : Response) (hanswer : (t.after w (before ++ later)).prog i = .pure (.ok response)) :
    ∃ db,
      SharedAnswer t.env (t.life w (before ++ later)) i (t.request i).route (.ok response)
        (some db)
      ∧ (t.after w before).shared.db.Grows db := by
  have hshared := reads_answer_from_snapshots t himage w hcold _ hrun i hroute _ hanswer
  -- an entry that is still seen was selected when the rows were there
  have hgrows {κ ρ : Type} {cq : CachedQuery κ ρ} {q : κ} {x : Selection ι κ} {rows : List ρ}
      {source : Option Database}
      (hx : x.Answers cq t.env (t.life w (before ++ later)) i q rows source) :
      ∃ db, source = some db ∧ (t.after w before).shared.db.Grows db := by
    refine ⟨_, hx.source, ?_⟩
    rcases hx.recent with hthread | ⟨stored, seen, hstored, hseen, hinOrder, hfresh⟩
    · exact Traffic.life_grows hrun hx.yields.read (.inl (hthread ▸ hstarts))
    · refine Traffic.life_grows hrun hx.yields.read (.inr ?_)
      have hbrief := hlongest x.thread x.read stored hx.yields.read hstored
      have hseenLate := hlate seen hseen
      have hlife := httl x.thread
      omega
  generalize ((t.after w (before ++ later)).own i).source = source at hshared
  generalize (t.request i).route = route at hshared
  cases hshared with
  | prices seen answers =>
    obtain ⟨db, rfl, hdb⟩ := hgrows answers
    exact ⟨db, .prices seen answers, hdb⟩
  | index answers =>
    obtain ⟨db, rfl, hdb⟩ := hgrows answers
    exact ⟨db, .index answers, hdb⟩

/-! ## A minute after an ingest -/

/-- `2026-01-01T00:01:00` UTC. -/
def aMinuteLater : Instant := ⟨63902822460000000, by decide⟩

/-- The ingest is served while the first read is; what that read stores is stale. -/
def staleStored : List Nat := untilResponse ++ [0]

theorem stale_entry : ((afterCalls staleStored).shared.redis.peek newYear.us
    (pricesKey (pricesOfOne none))).isSome := by
  with_unfolding_all rfl

/-- A minute passes, and the second read is served. -/
def readAfterAMinute : List (Traffic.Move Nat) :=
  .outside { (afterCalls staleStored).shared with now := aMinuteLater }
    :: calls (secondTurn ++ [2])

/-- Calls take no time. -/
theorem now_calls (s : Traffic.Threads Nat) (requests : List Nat) :
    (run readIngestRead.step s (calls requests)).shared.now = s.shared.now := by
  induction requests generalizing s with
  | nil => rfl
  | cons i requests ih =>
    refine (ih (readIngestRead.step s (.call i .calm))).trans ?_
    cases hprog : s.prog i with
    | pure r => simp only [Traffic.step, Pool.State.step, hprog]
    | call op k =>
      have hstep : (readIngestRead.step s (.call i .calm)).shared
          = (exec (readIngestRead.env i) .calm op ⟨s.shared, s.own i⟩).2.world := by
        simp only [Traffic.step, Pool.State.step, hprog]
        rfl
      rw [hstep]
      exact exec_now (readIngestRead.env i) .calm op ⟨s.shared, s.own i⟩

/-- Each of some calls is made at the time they all are made. -/
theorem calls_split {requests : List Nat} {before later : List (Traffic.Move Nat)} {i : Nat}
    {c : Choice} (h : calls requests = before ++ .call i c :: later) (s : Traffic.Threads Nat) :
    i ∈ requests ∧ (run readIngestRead.step s before).shared.now = s.shared.now := by
  obtain ⟨first, rest, hrequests, hbefore, hrest⟩ := List.map_eq_append_iff.mp h
  obtain ⟨j, rest', rfl, hj, -⟩ := List.map_eq_cons_iff.mp hrest
  obtain ⟨rfl, -⟩ := Pool.Move.call.inj hj
  subst hrequests hbefore
  exact ⟨List.mem_append_right _ List.mem_cons_self, now_calls s first⟩

/-- The ingest and the first read live in the first minute, the second read in the next. -/
theorem life_readAfterAMinute {i : Nat} {v : World}
    (h : readIngestRead.life (worldOf (catalogue ⟨1, one_range⟩))
      (calls staleStored ++ readAfterAMinute)
      i v) : (i = 0 ∨ i = 1) ∧ v.now = newYear ∨ i = 2 ∧ v.now = aMinuteLater := by
  obtain ⟨before, c, later, hsplit, -, rfl⟩ := h
  rcases List.append_eq_append_iff.mp hsplit with ⟨mid, hbefore, hmid⟩ | ⟨mid, hfirst, hlater⟩
  · cases mid with
    | nil => cases hmid
    | cons m mid =>
      rw [readAfterAMinute, List.cons_append, List.cons.injEq] at hmid
      obtain ⟨hi, hnow⟩ :=
        calls_split hmid.2 (readIngestRead.after (worldOf (catalogue ⟨1, one_range⟩))
        (calls staleStored ++ [m]))
      refine .inr ⟨by simpa [secondTurn] using hi, ?_⟩
      rw [hbefore, ← List.singleton_append, ← List.append_assoc, Traffic.after_append,
        hnow, ← hmid.1]
      rfl
  · cases mid with
    | nil => cases hlater
    | cons m mid =>
      rw [List.cons_append, List.cons.injEq] at hlater
      rw [← hlater.1] at hfirst
      obtain ⟨hi, hnow⟩ :=
        calls_split hfirst (readIngestRead.start (worldOf (catalogue ⟨1, one_range⟩)))
      have hthread : i = 0 ∨ i = 1 ∨ i = 0 := by simpa [staleStored, untilResponse] using hi
      exact .inl ⟨by omega, hnow⟩

/-- The answer of a minute later: the price that was ingested. -/
def pricesOfOneItem : PriceSummaryOut where
  gpuModel := "H100 SXM"
  regionCount := 1
  providerCount := 1
  cheapestUsdPerHour := .finite (5 / 2)
  median30dUsdPerHour := some (.finite (5 / 2))
  points := [⟨"AWS", "us-east-1", "aws-h100-8x", .finite (5 / 2), "available", utc newYear⟩]

theorem staleness_bounded_aMinute :
    ((afterCalls staleStored).shared.redis.peek newYear.us
      (pricesKey (pricesOfOne none))).isSome
    ∧ ∃ db,
      SharedAnswer readIngestRead.env (readIngestRead.life (worldOf (catalogue ⟨1, one_range⟩))
        (calls staleStored ++ readAfterAMinute)) 2 (readIngestRead.request 2).route
        (.ok ⟨200, .summary pricesOfOneItem, []⟩) (some db)
      ∧ (readIngestRead.after (worldOf (catalogue ⟨1, one_range⟩))
          (calls staleStored)).shared.db.Grows db := by
  have hnow :
      (readIngestRead.after (worldOf (catalogue ⟨1, one_range⟩)) (calls staleStored)).shared.now
      = newYear := now_calls _ _
  have hminute : newYear.us + 60000000 = aMinuteLater.us := rfl
  refine ⟨stale_entry, ?_⟩
  refine staleness_bounded readIngestRead oneImage_readIngestRead
    (worldOf (catalogue ⟨1, one_range⟩)) (cold_worldOf _) (calls staleStored) readAfterAMinute
    ?_ 0 60000000 ?_
    (fun _ => (by decide : seconds env.settings.cacheTtlSeconds ≤ 60000000)) 2 trivial ?_ ?_ _ ?_
  · refine guarded_append.mpr ⟨unreliable_calls _ _, ⟨?_, .refl _, fun _ _ _ _ _ _ h => h⟩,
      unreliable_calls _ _⟩
    rw [now_calls]
    exact (by decide : newYear.us ≤ aMinuteLater.us)
  · intro j v v' hv hv'
    rcases life_readAfterAMinute hv with ⟨hj, hfirst⟩ | ⟨rfl, hfirst⟩
    · rcases life_readAfterAMinute hv' with ⟨-, hlast⟩ | ⟨h, -⟩
      · rw [hfirst, hlast, Nat.add_zero]
      · omega
    · rcases life_readAfterAMinute hv' with ⟨h, -⟩ | ⟨-, hlast⟩
      · omega
      · rw [hfirst, hlast, Nat.add_zero]
  · rintro m hm c rfl
    obtain ⟨i, hi, heq⟩ := List.mem_map.mp hm
    obtain ⟨rfl, -⟩ := Pool.Move.call.inj heq
    simp [staleStored, untilResponse] at hi
  · intro v hv
    rcases life_readAfterAMinute hv with ⟨h, -⟩ | ⟨-, hlast⟩
    · omega
    · rw [hlast, hnow, Nat.add_zero, hminute]
  · with_unfolding_all rfl

end GpuIndex
