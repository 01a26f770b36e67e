/-
  How long the bounded fan-out takes.

  A fetch takes its latency, the event loop takes no time: a waiting task gets a free permit at once
  (`Permits.Timed`).

  **`fan_out_time`**: such a run is a run of the fan-out that time has been added to, it goes on
  until `gather` returns, and `gather` returns between the time the fetches take on all permits and
  Graham's bound.  Fetches that all take the same time are made in waves.
-/
import GpuIndex.Lib.TimedPermits
import GpuIndex.Services.FanOut
import Mathlib.Algebra.BigOperators.Fin
import Mathlib.Algebra.Order.Ring.Rat
import Mathlib.Tactic.NormNum

namespace GpuIndex

open Permits Trace

/-- The tasks of a list of fetchers, in time. -/
abbrev TimedFanOut {ε α : Type} (fetchers : List (Fetcher ε α)) :=
  Timed (Fin fetchers.length) (Except ε α) ℚ

section

variable {ε α : Type} {fetchers : List (Fetcher ε α)} {latency : Fin fetchers.length → ℚ}

/-- The moves of the tasks, where each fetch takes its latency. -/
def TimedFanOut.Allowed (latency : Fin fetchers.length → ℚ) :
    TimedFanOut fetchers → TimedMove (Fin fetchers.length) (Except ε α) ℚ → Prop :=
  Timed.Allowed (fun i r => (fetchers.get i).mayEnd r) latency

/-- What `gather` returns, once every task has ended. -/
def TimedFanOut.gathered (s : TimedFanOut fetchers) : Option (List (Except ε α)) :=
  FanOut.gathered s.toState

/-- A state of the fan-out in time, and what led to it. -/
inductive TimedFanOutRun (settings : IngestSettings) (concurrency : Option Int)
    (latency : Fin fetchers.length → ℚ) :
    List (TimedMove (Fin fetchers.length) (Except ε α) ℚ) → TimedFanOut fetchers → Prop where
  | run {s : FanOut fetchers} {trace : List (TimedMove (Fin fetchers.length) (Except ε α) ℚ)}
      (start : fanOutFetch settings concurrency fetchers = .ok s)
      (allowed : Guarded Timed.step (TimedFanOut.Allowed latency) ⟨s, 0, fun _ => 0⟩ trace) :
      TimedFanOutRun settings concurrency latency trace (run Timed.step ⟨s, 0, fun _ => 0⟩ trace)

/-- What holds in a state of a fan-out in time. -/
structure TimelyFanOut (settings : IngestSettings) (concurrency : Option Int)
    (latency : Fin fetchers.length → ℚ)
    (trace : List (TimedMove (Fin fetchers.length) (Except ε α) ℚ)) (s : TimedFanOut fetchers) :
    Prop where
  /-- Without the time it is a state of the fan-out. -/
  untimed : FanOutRun settings concurrency fetchers (trace.filterMap TimedMove.move?) s.toState
  /-- It can go on until `gather` returns. -/
  completes : ∃ more, ∃ s' : TimedFanOut fetchers,
    TimedFanOutRun settings concurrency latency (trace ++ more) s'
    ∧ ∃ results, s'.gathered = some results
  /-- While a fetcher waits, all permits have been at work from the start. -/
  busy : (∃ i, s.phase i = .waiting) → fanOutLimit settings concurrency * s.now = s.work latency
  /-- `gather` returns no sooner than the work is done on all permits, and after every fetch. -/
  least : ∀ results, s.gathered = some results →
    Finset.univ.sum latency ≤ fanOutLimit settings concurrency * s.now ∧ ∀ i, latency i ≤ s.now
  /-- No state is later than a longest fetch after the rest of the work on all permits. -/
  most : ∀ longest, 0 ≤ longest → (∀ i, latency i ≤ longest) →
    fanOutLimit settings concurrency * s.now
      ≤ Finset.univ.sum latency + (fanOutLimit settings concurrency - 1) * longest
  /-- Fetches of one latency are made in waves. -/
  waves : ∀ results wave, s.gathered = some results → 0 < wave →
    (∀ i, latency i = wave) →
    s.now = ((fetchers.length + fanOutLimit settings concurrency - 1)
      / fanOutLimit settings concurrency : Int) * wave

/-- The semaphore has its permits. -/
theorem TimedFanOutRun.exists_trace {settings : IngestSettings} {concurrency : Option Int}
    {trace : List (TimedMove (Fin fetchers.length) (Except ε α) ℚ)} {s : TimedFanOut fetchers}
    (h : TimedFanOutRun settings concurrency latency trace s)
    (hlimit : 1 ≤ fanOutLimit settings concurrency) :
    ∃ limit : Nat, fanOutLimit settings concurrency = limit ∧ 1 ≤ limit
      ∧ fanOutFetch settings concurrency fetchers = .ok (.initial limit)
      ∧ Guarded Timed.step (TimedFanOut.Allowed latency) (.initial limit) trace
      ∧ s = Trace.run Timed.step (.initial limit) trace := by
  obtain ⟨hstart, hallowed⟩ := h
  obtain ⟨limit, hnat⟩ :=
    Int.eq_ofNat_of_zero_le (show 0 ≤ fanOutLimit settings concurrency by omega)
  have hinitial : fanOutFetch settings concurrency fetchers = .ok (.initial limit) := by
    rw [fanOutFetch, if_neg (by omega), hnat, Int.toNat_natCast]
  rw [hinitial] at hstart
  obtain rfl := Except.ok.inj hstart
  exact ⟨limit, hnat, by omega, hinitial, hallowed, rfl⟩

/-- `gather` returns once every task has ended. -/
theorem TimedFanOut.ended {s : TimedFanOut fetchers} {results : List (Except ε α)}
    (h : s.gathered = some results) (i : Fin fetchers.length) : ∃ r, s.phase i = .ended r := by
  obtain ⟨r, -, hr⟩ := (gathered_eq_some h).2 i
  exact ⟨r, hr⟩

section Returned

variable {settings : IngestSettings} {concurrency : Option Int}
  {trace : List (TimedMove (Fin fetchers.length) (Except ε α) ℚ)} {s : TimedFanOut fetchers}
  {results : List (Except ε α)}

/-- `gather` returns no sooner than the work is done on all permits, and after every fetch. -/
theorem TimedFanOutRun.least (h : TimedFanOutRun settings concurrency latency trace s)
    (hlimit : 1 ≤ fanOutLimit settings concurrency) (hlatency : ∀ i, 0 ≤ latency i)
    (hresults : s.gathered = some results) :
    Finset.univ.sum latency ≤ fanOutLimit settings concurrency * s.now
      ∧ ∀ i, latency i ≤ s.now := by
  obtain ⟨limit, hnat, -, -, hallowed, rfl⟩ := h.exists_trace hlimit
  have hpaced := Timed.paced_run hlatency hallowed
  rw [hnat, Int.cast_natCast]
  exact ⟨hpaced.sum_le (TimedFanOut.ended hresults), hpaced.latency_le (TimedFanOut.ended hresults)⟩

/-- No state is later than a longest fetch after the rest of the work on all permits. -/
theorem TimedFanOutRun.most (h : TimedFanOutRun settings concurrency latency trace s)
    (hlimit : 1 ≤ fanOutLimit settings concurrency) (hlatency : ∀ i, 0 ≤ latency i) {longest : ℚ}
    (hzero : 0 ≤ longest) (hlongest : ∀ i, latency i ≤ longest) :
    fanOutLimit settings concurrency * s.now
      ≤ Finset.univ.sum latency + (fanOutLimit settings concurrency - 1) * longest := by
  obtain ⟨limit, hnat, hlimit', -, hallowed, rfl⟩ := h.exists_trace hlimit
  have hpaced := Timed.paced_run hlatency hallowed
  rw [hnat, Int.cast_natCast]
  exact hpaced.now_le hlimit' hzero fun i => ⟨hlatency i, hlongest i⟩

/-- Fetches of one latency are made in waves. -/
theorem TimedFanOutRun.waves {wave : ℚ}
    (h : TimedFanOutRun settings concurrency (fun _ => wave) trace s)
    (hlimit : 1 ≤ fanOutLimit settings concurrency) (hwave : 0 < wave)
    (hresults : s.gathered = some results) :
    s.now = ((fetchers.length + fanOutLimit settings concurrency - 1)
      / fanOutLimit settings concurrency : Int) * wave := by
  obtain ⟨limit, hnat, hlimit', -, hallowed, rfl⟩ := h.exists_trace hlimit
  have hpaced := Timed.paced_run (fun _ => hwave.le) hallowed
  have hnow := hpaced.now_eq (Timed.inWaves_run hallowed) (TimedFanOut.ended hresults) hlimit' hwave
  have hsub : ((fetchers.length + limit - 1 : Nat) : Int) = fetchers.length + limit - 1 := by omega
  rw [Fintype.card_fin] at hnow
  rw [hnow, hnat, ← hsub]
  norm_cast

end Returned

/-- **Fan-out in time**, for every list of fetchers and their latencies, every limit from one on,
    and every order in which tasks get permits. -/
theorem fan_out_time (settings : IngestSettings) (concurrency : Option Int)
    (hlimit : 1 ≤ fanOutLimit settings concurrency) (latency : Fin fetchers.length → ℚ)
    (hlatency : ∀ i, 0 ≤ latency i)
    (trace : List (TimedMove (Fin fetchers.length) (Except ε α) ℚ)) (s : TimedFanOut fetchers)
    (h : TimedFanOutRun settings concurrency latency trace s) :
    TimelyFanOut settings concurrency latency trace s := by
  obtain ⟨limit, hnat, hlimit', hinitial, hallowed, hs⟩ := h.exists_trace hlimit
  have hpaced := Timed.paced_run hlatency hallowed
  obtain ⟨hguarded, huntimed⟩ := Timed.untimed hallowed
  refine
    { untimed := ?_, completes := ?_, busy := ?_
      least := fun results hresults => h.least hlimit hlatency hresults
      most := fun longest hzero hlongest => h.most hlimit hlatency hzero hlongest
      waves := fun results wave hresults hwave hsame => ?_ }
  · rw [hs, huntimed]
    exact .run hinitial hguarded
  · obtain ⟨more, hmore, hall⟩ :=
      hpaced.exists_completion hlimit' hlatency fun i => (fetchers.get i).ends
    refine ⟨more, _, .run hinitial (guarded_append.mpr ⟨hallowed, hmore⟩), ?_⟩
    rw [run_append]
    exact gathered_isSome hall
  · rw [hs, hnat, Int.cast_natCast]
    exact hpaced.busy
  · obtain rfl : latency = fun _ => wave := funext hsame
    exact h.waves hlimit hwave hresults

end

/-- Both feeds take 50 milliseconds, and there is one permit. -/
def oneAtATimeTimed : List (TimedMove (Fin twoFeeds.length) (Except Exn String) ℚ) :=
  [.move (.start (1 : Fin 2)), .pass 50, .move (.finish (1 : Fin 2) (.error .valueError)),
    .move (.start (0 : Fin 2)), .pass 50, .move (.finish (0 : Fin 2) (.ok "ok"))]

/-- While one feed runs, no other can start, and time may pass until it ends. -/
theorem oneAtATime_allowed :
    Guarded Timed.step (TimedFanOut.Allowed fun _ : Fin twoFeeds.length => 50)
      ⟨.initial 1, 0, fun _ => 0⟩ oneAtATimeTimed := by
  refine ⟨⟨rfl, by decide⟩,
    ⟨by decide +kernel, ⟨(1 : Fin 2), rfl⟩, fun _ h => absurd h.2 (lt_irrefl 0), fun i _ => ?_⟩,
    ⟨⟨rfl, rfl⟩, by decide +kernel⟩, ⟨rfl, by decide⟩,
    ⟨by decide +kernel, ⟨(0 : Fin 2), rfl⟩, fun _ h => absurd h.2 (lt_irrefl 0), fun i hi => ?_⟩,
    ⟨⟨rfl, rfl⟩, by decide +kernel⟩, trivial⟩
  · revert i
    exact Fin.forall_fin_two.mpr ⟨fun _ => by decide +kernel, fun _ => by decide +kernel⟩
  · revert i
    refine Fin.forall_fin_two.mpr ⟨fun _ => by decide +kernel, fun hi => ?_⟩
    -- the other feed has ended
    cases hi

theorem fan_out_time_two :
    ∃ s : TimedFanOut twoFeeds, s.gathered = some [.ok "ok", .error .valueError] ∧ s.now = 100
      ∧ TimelyFanOut {} (some 1) (fun _ => 50) oneAtATimeTimed s :=
  ⟨run Timed.step ⟨.initial 1, 0, fun _ => 0⟩ oneAtATimeTimed, rfl, by decide +kernel,
    fan_out_time {} (some 1) (by decide) (fun _ => 50) (fun _ => by norm_num) oneAtATimeTimed _
      (.run rfl oneAtATime_allowed)⟩

end GpuIndex
