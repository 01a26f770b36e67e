/-
  How long a counter lives.

  The limiter gives a counter two windows to live from each bump.  That is enough: when every
  request is counted in the window that it has read, or in the next one, by the clock of Redis, no
  counter expires before it is bumped again (`countersLast_of_inTime`).

  The crux is `LivesOn`: a counter that has been bumped is there until the window after its own has
  ended.  One window to live would not do, since a counter may be bumped first at the very beginning
  of its window and again at the very end of the next.
-/
import GpuIndex.Core.SharedLimiter

namespace GpuIndex

open ExpiringStore Trace

/-! ## Windows -/

/-- When the window after the one of this index has ended, in microseconds. -/
def nextWindowEnd (width index : Int) : Int := epochMicros + (index + 2) * width * 1000000

/-- The instant is in the window of the index, or in the next one. -/
def InTime (width index : Int) (now : Nat) : Prop :=
  epochMicros + index * width * 1000000 ≤ (now : Int) ∧ (now : Int) < nextWindowEnd width index

theorem toList_windowBucket (bucket : String) (time window : Int) :
    (windowBucket bucket time window).toList
      = bucket.toList ++ ':' :: (toString (time.fdiv window)).toList := by
  rw [windowBucket, String.append_assoc, String.toList_append, String.toList_append]
  rfl

/-- The name of a counter tells its window. -/
theorem windowBucket_inj {bucket bucket' : String} {time time' window window' : Int}
    (h : windowBucket bucket time window = windowBucket bucket' time' window') :
    time.fdiv window = time'.fdiv window' := by
  have hlist := congrArg String.toList h
  rw [toList_windowBucket, toList_windowBucket] at hlist
  obtain ⟨-, hk⟩ := Joined.last_inj (Joined.not_mem_toString (by decide) (by decide) _)
    (Joined.not_mem_toString (by decide) (by decide) _) hlist
  exact Joined.toString_injective (String.toList_injective hk)

section Store

variable {redis : Redis} {at' now : Nat} {key : String} {ex n : Int}

/-- A counter that was bumped is there until it expires. -/
theorem peek_incrCounter_self (hcount : nextCount redis at' key = some n) (hex : 0 < ex)
    (hlive : now < at' + seconds ex) : ((incrCounter redis at' key ex).2.peek now key).isSome := by
  obtain ⟨born, hlookup⟩ := lookup_put_self redis at' key
    (⟨.counter n, none⟩ : Cached) (at' + seconds ex)
  rw [(nextCount_incrCounter hcount hex hlive).1, peek_eq_some.mpr ⟨hlookup, hlive⟩]
  rfl

/-- A bump in time keeps the counter until the window after its own has ended. -/
theorem lt_expiry {width index : Int} (hwidth : 0 < width) (hin : InTime width index at')
    (hnow : (now : Int) < nextWindowEnd width index) : now < at' + seconds (width * 2) := by
  obtain ⟨hbegun, -⟩ := hin
  have htwo : ((seconds (width * 2) : Nat) : Int) = width * 2 * 1000000 := by
    unfold seconds
    push_cast
    rw [Int.toNat_of_nonneg (by omega)]
  have hend : nextWindowEnd width index
      = epochMicros + index * width * 1000000 + width * 2 * 1000000 := by
    unfold nextWindowEnd
    ring
  omega

end Store

/-! ## Counters -/

variable {π ι : Type}

namespace Deployment

/-- The counter that a request has bumped is there until the window after the one it read has
    ended. -/
def LivesOn (d : Deployment π ι) (s : Requests ι) : Prop :=
  ∀ i key time, Bumped s i key → ReadClock s i time →
    ∀ now : Nat, (now : Int) < nextWindowEnd d.settings.rateLimitWindowSeconds
      (time.fdiv d.settings.rateLimitWindowSeconds) → (s.shared.redis.peek now key).isSome

/-- A request is counted in the window it has read, or in the next one, by the clock of Redis. -/
def CountedInTime (d : Deployment π ι) (s : Requests ι) : LimiterMove ι → Prop
  | .call i _ => ∀ key ex k, s.prog i = .call (.redis (.incrExpire key ex)) k → ∀ time,
      ReadClock s i time → InTime d.settings.rateLimitWindowSeconds
        (time.fdiv d.settings.rateLimitWindowSeconds) s.shared.now.us
  | .outside _ => True

end Deployment

/-- A request that is about to be counted has read its clock, and asks for two windows. -/
theorem LimiterPhase.asks {env : Env} {principal : Principal}
    {prog : Prog svc (Except Exn Principal)} {log : List Event}
    (h : LimiterPhase env principal prog log) {key : String} {ex : Int}
    {k : Except RedisError Int → Prog svc (Except Exn Principal)}
    (hprog : prog = .call (.redis (.incrExpire key ex)) k) :
    ex = env.settings.rateLimitWindowSeconds * 2 ∧ ∃ time, log = [⟨.time, time⟩] := by
  cases h with
  | begun =>
    rw [rateLimit_run] at hprog
    cases hprog
  | noWindow => cases hprog
  | timed time =>
    cases hprog
    exact ⟨rfl, time, rfl⟩
  | counted => cases hprog

section Moves

variable {d : Deployment π ι} {s : Deployment.Requests ι}

/-- Who has bumped a counter has read a clock. -/
theorem Deployment.Counting.clock (h : d.Counting s) {i : ι} {key : String} (hb : Bumped s i key) :
    ∃ time, ReadClock s i time := by
  have hphase := h.phase i
  unfold Bumped at hb
  unfold ReadClock
  generalize s.prog i = prog at hphase
  generalize (s.own i).log = log at hphase hb ⊢
  obtain ⟨ex, ans, hmem⟩ := hb
  cases hphase with
  | begun => cases hmem
  | noWindow time => exact ⟨time, List.mem_cons_self⟩
  | timed time => exact ⟨time, List.mem_cons_self⟩
  | counted time r => exact ⟨time, List.mem_cons_of_mem _ List.mem_cons_self⟩

variable [DecidableEq ι]

omit [DecidableEq ι] in
/-- Who has bumped a counter has read the window in its name. -/
theorem Deployment.Counting.key_eq (h : d.Counting s) {i : ι} {key : String} {time : Int}
    (hclock : ReadClock s i time)
    (hkey : Bumped s i key ∨ ∃ ex k, s.prog i = .call (.redis (.incrExpire key ex)) k) :
    key = windowBucket ((d.principal i).bucketId (d.env i).strHash) time
      d.settings.rateLimitWindowSeconds :=
  (h.phase i).bumped_eq hclock hkey

omit [DecidableEq ι] in
/-- In time, a counter is there when it is bumped again. -/
theorem Deployment.LivesOn.countersLast (hlives : d.LivesOn s) (h : d.Counting s)
    {m : Deployment.LimiterMove ι} (hin : d.CountedInTime s m) : Deployment.CountersLast s m := by
  cases m with
  | outside w => trivial
  | call i c =>
    rintro key ex k hprog ⟨j, hb⟩
    obtain ⟨-, time, hlog⟩ := (h.phase i).asks hprog
    have hclock : ReadClock s i time := by
      unfold ReadClock
      rw [hlog]
      exact List.mem_cons_self
    obtain ⟨time', hclock'⟩ := h.clock hb
    have hkey := h.key_eq hclock (.inr ⟨ex, k, hprog⟩)
    have hwindow := windowBucket_inj (hkey.symm.trans (h.key_eq hclock' (.inl hb)))
    refine hlives j key time' hb hclock' _ ?_
    rw [← hwindow]
    exact (hin key ex k hprog time hclock).2

/-- **One move** keeps the counters alive. -/
theorem Deployment.LivesOn.step (hlives : d.LivesOn s) (h : d.Counting s)
    (hwidth : 0 < d.settings.rateLimitWindowSeconds) {m : Deployment.LimiterMove ι}
    (hm : Deployment.NoFailure s m) (hin : d.CountedInTime s m) : d.LivesOn (d.step s m) := by
  have hlimiter {i : ι} {key : String} {time : Int} (hclock : ReadClock s i time)
      (hb : Bumped s i key) : hasPrefix "rl:" key = true := by
    rw [h.key_eq hclock (.inl hb)]
    exact hasPrefix_windowBucket (d.env i) (d.principal i) time _
  intro j key time hb hclock now hnow
  rcases move_cases h.phase hm with hquiet | ⟨i, c, key₀, ex, counted, rfl, hbump⟩
  · rw [hquiet.bumped] at hb
    have hclock' := hquiet.clock j key time hb hclock
    rw [hquiet.peek now key (hlimiter hclock' hb)]
    exact hlives j key time hb hclock' now hnow
  · obtain ⟨k, hprog⟩ := hbump.prog
    rw [hbump.bumped] at hb
    rw [hbump.clock] at hclock
    obtain ⟨hex, time₀, hlog⟩ := (h.phase i).asks hprog
    have hclock₀ : ReadClock s i time₀ := by
      unfold ReadClock
      rw [hlog]
      exact List.mem_cons_self
    have hkey₀ := h.key_eq hclock₀ (.inr ⟨ex, k, hprog⟩)
    rw [hbump.redis, ← hbump.incr]
    by_cases hkey : key = key₀
    · subst hkey
      -- the bump gives it two windows more, and it is the counter of the window they all read
      have hwindow : time.fdiv d.settings.rateLimitWindowSeconds
          = time₀.fdiv d.settings.rateLimitWindowSeconds := by
        rcases hb with ⟨rfl, -⟩ | hb
        · exact windowBucket_inj ((h.key_eq hclock (.inr ⟨ex, k, hprog⟩)).symm.trans hkey₀)
        · exact windowBucket_inj ((h.key_eq hclock (.inl hb)).symm.trans hkey₀)
      obtain ⟨bumpers, hbumpers, hcounter, -⟩ := h.tally key hbump.limiter
      have hlast : bumpers ≠ [] → (s.shared.redis.peek s.shared.now.us key).isSome := by
        intro hne
        obtain ⟨j', hj'⟩ := List.exists_mem_of_ne_nil bumpers hne
        exact hlives.countersLast h hin key ex k hprog ⟨j', (hbumpers j').mpr hj'⟩
      obtain ⟨n, hcount, -⟩ := nextCount_of_tally hcounter hlast
      have hsettings : (d.env i).settings = d.settings := d.sameSettings _
      rw [hsettings] at hex
      rw [hex]
      rw [hwindow] at hnow
      exact peek_incrCounter_self hcount (by omega)
        (lt_expiry hwidth (hin key ex k hprog time₀ hclock₀) hnow)
    · rw [peek_incrCounter_ne _ _ _ _ hkey]
      exact hlives j key time (hb.resolve_left fun h => hkey h.2) hclock now hnow

/-- **Two windows are enough**: in a run whose requests are counted in time, no counter expires
    before it is bumped again. -/
theorem countersLast_of_inTime (hlimit : 0 ≤ d.settings.rateLimitRequests)
    (hwidth : 0 < d.settings.rateLimitWindowSeconds) {w : World} (hw : w.CountersOnly)
    {trace : List (Deployment.LimiterMove ι)}
    (hfailure : Guarded d.step Deployment.NoFailure (d.start w) trace)
    (hin : Guarded d.step d.CountedInTime (d.start w) trace) :
    Guarded d.step Deployment.CountersLast (d.start w) trace :=
  (hfailure.and hin).imp (P := fun s => d.Counting s ∧ d.LivesOn s)
    (fun _ _ h hm => ⟨h.1.step hm.1 (h.2.countersLast h.1 hm.2), h.2.step h.1 hwidth hm.1 hm.2⟩)
    (fun _ _ h hm => h.2.countersLast h.1 hm.2)
    ⟨d.counting_start hlimit hw, fun i key _ hb => absurd hb (not_bumped_start d w i key)⟩

end Moves

end GpuIndex
