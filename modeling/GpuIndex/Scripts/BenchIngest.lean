/-
  `bench_ingest.py`: the fan-out against a loop that fetches one feed after the other.

  A feed sleeps for its latency times a jitter that each call draws anew, so the two sides of the
  comparison do not fetch the same work.  A fetch takes its sleep and some lateness: from being
  granted its permit until it gives it back it waits for the event loop, and timers fire late.
  `late` bounds it for the fetches of a run; the numbers are exact until they are printed.

  SPECIFICATION (`speedup_bounds`).  Let `spread` be the longest fetch there can be over the
  shortest.  With `n` feeds and `k` permits the speed-up is at most `spread * min k n` and at least
  `n * k / (n + k - 1) / spread`, and what is printed is within a twentieth of it, whatever is drawn
  and however the tasks are scheduled; the limit printed as the best is the best.
-/
import GpuIndex.Core.CacheCounters
import GpuIndex.Services.FanOutTime
import Mathlib.Algebra.Order.Field.Basic
import Mathlib.Data.List.MinMax
import Mathlib.Tactic.FieldSimp

namespace GpuIndex

open Permits Trace

/-! ## The script -/

/-- What `random.uniform(0.6, 1.4)` draws. -/
structure Jitter where
  factor : ℚ
  range : 3 / 5 ≤ factor ∧ factor ≤ 7 / 5

/-- How long `fetch` of `make_feed(latency_s)` sleeps. -/
def Jitter.slept (latencyS : ℚ) (jitter : Jitter) : ℚ := latencyS * jitter.factor

/-- A call of `fetch`: what it draws, and what it takes besides its sleep. -/
structure FeedCall (late : ℚ) where
  jitter : Jitter
  lateness : ℚ
  range : 0 ≤ lateness ∧ lateness ≤ late

/-- How long it takes. -/
def FeedCall.took {late : ℚ} (latencyS : ℚ) (fetched : FeedCall late) : ℚ :=
  fetched.jitter.slept latencyS + fetched.lateness

theorem fifty_range : (50 : Int) ≤ 50 ∧ (50 : Int) ≤ 200 := by decide

/-- The feed of `make_feed`: after its sleep it returns `random.randint(50, 200)` rows. -/
def makeFeed : Fetcher Exn Int where
  mayEnd r := ∃ rows, r = .ok rows ∧ 50 ≤ rows ∧ rows ≤ 200
  ends := ⟨.ok 50, 50, rfl, fifty_range⟩

/-- `feeds` of `main`. -/
def makeFeeds (feeds : Nat) : List (Fetcher Exn Int) := List.replicate feeds makeFeed

section Script

variable {late : ℚ}

/-- `sequential(feeds)`, in milliseconds, of these calls. -/
def sequential (latencyS start : ℚ) (fetches : List (FeedCall late)) : ℚ :=
  (fetches.foldl (fun now fetched => now + fetched.took latencyS) start - start) * 1000

/-- What `concurrent(feeds, limit)` may return, in milliseconds. -/
inductive Concurrent (latencyS late : ℚ) (feeds : Nat) (limit : Int) : ℚ → Prop where
  | gathered {fetches : Fin (makeFeeds feeds).length → FeedCall late}
      {trace : List (TimedMove (Fin (makeFeeds feeds).length) (Except Exn Int) ℚ)}
      {s : TimedFanOut (makeFeeds feeds)} {results : List (Except Exn Int)}
      (run : TimedFanOutRun {} (some limit) (fun i => (fetches i).took latencyS) trace s)
      (returns : s.gathered = some results) : Concurrent latencyS late feeds limit (s.now * 1000)

/-- The numbers of a run: `seq_ms`, and the entries of `results` in the order they are made. -/
structure BenchReport where
  seqMs : ℚ
  results : List (Int × ℚ)

/-- A run of `main` with `--feeds` and `--latency-ms`, whose fetches are at most so late. -/
structure BenchRun (feeds : Nat) (latencyMs late : ℚ) (report : BenchReport) : Prop where
  sequential : ∃ fetches : List (FeedCall late), ∃ start, fetches.length = feeds
    ∧ report.seqMs = sequential (latencyMs / 1000) start fetches
  concurrent : List.Forall₂
    (fun limit entry => entry.1 = limit ∧ Concurrent (latencyMs / 1000) late feeds limit entry.2)
    [4, 8, 16, 32] report.results

/-- A number as `:.1f` prints it. -/
def oneDecimal (q : ℚ) : ℚ := roundHalfEven (q * 10) / 10

/-- What is printed of a limit: milliseconds, and how many times faster. -/
structure BenchLine where
  limit : Int
  ms : ℚ
  faster : ℚ

/-- What is printed. -/
structure BenchOutput where
  sequential : ℚ
  concurrent : List BenchLine
  best : BenchLine

/-- The line of an entry, with `seq_ms / ms`. -/
def BenchReport.line (report : BenchReport) (entry : Int × ℚ) : Except Exn BenchLine :=
  if entry.2 = 0 then .error .zeroDivisionError
  else .ok ⟨entry.1, oneDecimal entry.2, oneDecimal (report.seqMs / entry.2)⟩

/-- What `main` prints; the best is `min(results, key=results.get)`. -/
def BenchReport.output (report : BenchReport) : Except Exn BenchOutput := do
  let concurrent ← report.results.mapM report.line
  match report.results.argmin Prod.snd with
  | none => throw .valueError
  | some best => return ⟨oneDecimal report.seqMs, concurrent, ← report.line best⟩

end Script

/-! ## Printed numbers -/

theorem roundHalfEven_near (q : ℚ) : q - 1 / 2 ≤ roundHalfEven q ∧ roundHalfEven q ≤ q + 1 / 2 := by
  have hlow := Int.floor_le q
  have hhigh := Int.lt_floor_add_one q
  unfold roundHalfEven
  split
  · constructor <;> linarith
  · split
    · push_cast
      constructor <;> linarith
    · split
      · constructor <;> linarith
      · push_cast
        constructor <;> linarith

theorem roundHalfEven_mono {p q : ℚ} (h : p ≤ q) : roundHalfEven p ≤ roundHalfEven q := by
  have hfloor := Int.floor_le_floor h
  rcases hfloor.lt_or_eq with hlt | heq
  · -- a whole number lies between them
    have hstep {r : ℚ} : ⌊r⌋ ≤ roundHalfEven r ∧ roundHalfEven r ≤ ⌊r⌋ + 1 := by
      unfold roundHalfEven
      split_ifs <;> omega
    exact hstep.2.trans (hlt.trans_le hstep.1)
  · unfold roundHalfEven
    rw [← heq]
    split_ifs <;> first | omega | (exfalso; linarith)

theorem oneDecimal_near (q : ℚ) : q - 1 / 20 ≤ oneDecimal q ∧ oneDecimal q ≤ q + 1 / 20 := by
  obtain ⟨hlow, hhigh⟩ := roundHalfEven_near (q * 10)
  rw [oneDecimal]
  constructor <;> linarith

theorem oneDecimal_mono {p q : ℚ} (h : p ≤ q) : oneDecimal p ≤ oneDecimal q := by
  have hround : (roundHalfEven (p * 10) : ℚ) ≤ roundHalfEven (q * 10) := by
    exact_mod_cast roundHalfEven_mono (by linarith)
  rw [oneDecimal, oneDecimal]
  linarith

/-! ## What each side takes -/

/-- The shortest fetch there can be. -/
def shortestFetch (latencyS : ℚ) : ℚ := 3 / 5 * latencyS

/-- The longest fetch there can be. -/
def longestFetch (latencyS late : ℚ) : ℚ := 7 / 5 * latencyS + late

/-- How many times the shortest fetch the longest one takes: `7 / 3` if none is late. -/
def spread (latencyS late : ℚ) : ℚ := longestFetch latencyS late / shortestFetch latencyS

section Range

variable {latencyS late : ℚ}

theorem FeedCall.took_range (hlatency : 0 < latencyS) (fetched : FeedCall late) :
    shortestFetch latencyS ≤ fetched.took latencyS
      ∧ fetched.took latencyS ≤ longestFetch latencyS late := by
  obtain ⟨hleast, hmost⟩ := fetched.jitter.range
  obtain ⟨hzero, hlate⟩ := fetched.range
  have hslept : 3 / 5 * latencyS ≤ fetched.jitter.factor * latencyS :=
    mul_le_mul_of_nonneg_right hleast hlatency.le
  have hslept' : fetched.jitter.factor * latencyS ≤ 7 / 5 * latencyS :=
    mul_le_mul_of_nonneg_right hmost hlatency.le
  rw [took, Jitter.slept, shortestFetch, longestFetch]
  constructor
  · linarith only [hslept, hzero]
  · linarith only [hslept', hlate]

/-- The loop takes the time of all fetches. -/
theorem sequential_range (hlatency : 0 < latencyS) (start : ℚ) (fetches : List (FeedCall late)) :
    1000 * shortestFetch latencyS * fetches.length ≤ sequential latencyS start fetches
      ∧ sequential latencyS start fetches
        ≤ 1000 * longestFetch latencyS late * fetches.length := by
  have hnow : ∀ now, now + shortestFetch latencyS * fetches.length
        ≤ fetches.foldl (fun now fetched => now + fetched.took latencyS) now
      ∧ fetches.foldl (fun now fetched => now + fetched.took latencyS) now
        ≤ now + longestFetch latencyS late * fetches.length := by
    induction fetches with
    | nil => simp
    | cons fetched fetches ih =>
      intro now
      obtain ⟨hleast, hmost⟩ := fetched.took_range hlatency
      obtain ⟨ihleast, ihmost⟩ := ih (now + fetched.took latencyS)
      rw [List.foldl_cons, List.length_cons, Nat.cast_succ]
      constructor
      · linarith only [hleast, ihleast]
      · linarith only [hmost, ihmost]
  obtain ⟨hleast, hmost⟩ := hnow start
  rw [sequential]
  constructor
  · linarith only [hleast]
  · linarith only [hmost]

/-- The fan-out takes the time of all fetches on its permits, up to one fetch for each permit. -/
theorem Concurrent.range {feeds : Nat} {limit : Int} {ms : ℚ}
    (h : Concurrent latencyS late feeds limit ms) (hlatency : 0 < latencyS) (hfeeds : 1 ≤ feeds)
    (hlimit : 1 ≤ limit) :
    1000 * shortestFetch latencyS * feeds ≤ limit * ms ∧ 1000 * shortestFetch latencyS ≤ ms
      ∧ limit * ms ≤ 1000 * longestFetch latencyS late * (feeds + limit - 1) := by
  obtain @⟨fetches, trace, s, results, hrun, hresults⟩ := h
  have hpermits : fanOutLimit {} (some limit) = limit := if_neg (by omega)
  have hlength : (makeFeeds feeds).length = feeds := List.length_replicate
  have htook := fun i => (fetches i).took_range hlatency
  have hshort : 0 < shortestFetch latencyS := mul_pos (by norm_num) hlatency
  have hzero : ∀ i, 0 ≤ (fetches i).took latencyS := fun i => hshort.le.trans (htook i).1
  obtain ⟨hleast, hlongest⟩ := hrun.least (by omega) hzero hresults
  have hlong : 0 ≤ longestFetch latencyS late := (hzero ⟨0, by omega⟩).trans (htook _).2
  have hmost := hrun.most (by omega) hzero hlong fun i => (htook i).2
  have hcard : ((Finset.univ : Finset (Fin (makeFeeds feeds).length)).card : ℚ) = feeds := by
    rw [Finset.card_univ, Fintype.card_fin, hlength]
  -- what the fetches take together
  have hwork : feeds * shortestFetch latencyS
      ≤ Finset.univ.sum fun i => (fetches i).took latencyS := by
    have h := Finset.card_nsmul_le_sum Finset.univ (fun i => (fetches i).took latencyS) _
      fun i _ => (htook i).1
    rwa [nsmul_eq_mul, hcard] at h
  have hwork' : (Finset.univ.sum fun i => (fetches i).took latencyS)
      ≤ feeds * longestFetch latencyS late := by
    have h := Finset.sum_le_card_nsmul Finset.univ (fun i => (fetches i).took latencyS) _
      fun i _ => (htook i).2
    rwa [nsmul_eq_mul, hcard] at h
  have hfirst := (htook ⟨0, by omega⟩).1.trans (hlongest ⟨0, by omega⟩)
  rw [hpermits] at hleast hmost
  refine ⟨by linarith only [hleast, hwork], by linarith only [hfirst], ?_⟩
  linarith only [hmost, hwork']

/-! ## The speed-up -/

/-- What a speed-up is, in terms of the feeds, the permits and the spread of the fetches. -/
structure SpeedupBounds (feeds : Nat) (limit : Int) (spread slack speedup : ℚ) : Prop where
  byPermits : speedup ≤ spread * limit + slack
  byFeeds : speedup ≤ spread * feeds + slack
  least : (feeds : ℚ) * limit / (feeds + limit - 1) / spread - slack ≤ speedup

theorem speedup_range {feeds : Nat} {limit : Int} {seqMs ms : ℚ} (hlatency : 0 < latencyS)
    (hlate : 0 ≤ late) (hfeeds : 1 ≤ feeds) (hlimit : 1 ≤ limit)
    (hseq : 1000 * shortestFetch latencyS * feeds ≤ seqMs
      ∧ seqMs ≤ 1000 * longestFetch latencyS late * feeds)
    (h : Concurrent latencyS late feeds limit ms) :
    SpeedupBounds feeds limit (spread latencyS late) 0 (seqMs / ms) := by
  obtain ⟨hwork, hlongest, hmost⟩ := h.range hlatency hfeeds hlimit
  have hshort : 0 < shortestFetch latencyS := mul_pos (by norm_num) hlatency
  have hlong : 0 < longestFetch latencyS late := by
    have hslept : 0 < 7 / 5 * latencyS := mul_pos (by norm_num) hlatency
    rw [longestFetch]
    linarith only [hslept, hlate]
  have hms : 0 < ms := by linarith only [hlongest, hshort]
  have hn : (1 : ℚ) ≤ feeds := by exact_mod_cast hfeeds
  have hk : (1 : ℚ) ≤ limit := by exact_mod_cast hlimit
  have hroom : (0 : ℚ) < feeds + limit - 1 := by linarith only [hn, hk]
  -- the longest fetch is `spread` times the shortest
  have hspread : spread latencyS late * shortestFetch latencyS = longestFetch latencyS late :=
    div_mul_cancel₀ _ hshort.ne'
  have hspreadPos : 0 < spread latencyS late := div_pos hlong hshort
  constructor
  · have hall := mul_le_mul_of_nonneg_left hwork hspreadPos.le
    rw [add_zero, div_le_iff₀ hms]
    have hsplit : spread latencyS late * (1000 * shortestFetch latencyS * feeds)
        = 1000 * longestFetch latencyS late * feeds := by
      rw [← hspread]
      ring
    linarith only [hseq.2, hall, hsplit]
  · have hall := mul_le_mul_of_nonneg_left hlongest
      (mul_nonneg hspreadPos.le (show (0 : ℚ) ≤ feeds by linarith only [hn]))
    rw [add_zero, div_le_iff₀ hms]
    have hsplit : spread latencyS late * feeds * (1000 * shortestFetch latencyS)
        = 1000 * longestFetch latencyS late * feeds := by
      rw [← hspread]
      ring
    linarith only [hseq.2, hall, hsplit]
  · have hscaled : (limit : ℚ) * feeds * ms
        ≤ 1000 * longestFetch latencyS late * feeds * (feeds + limit - 1) := by
      have h := mul_le_mul_of_nonneg_right hmost (show (0 : ℚ) ≤ feeds by linarith only [hn])
      linarith only [h]
    have hseq' := mul_le_mul_of_nonneg_right hseq.1 (mul_pos hspreadPos hroom).le
    have hsplit : 1000 * shortestFetch latencyS * feeds
          * (spread latencyS late * (feeds + limit - 1))
        = 1000 * longestFetch latencyS late * feeds * (feeds + limit - 1) := by
      rw [← hspread]
      ring
    rw [sub_zero, le_div_iff₀ hms, div_div, div_mul_eq_mul_div,
      div_le_iff₀ (mul_pos hroom hspreadPos)]
    linarith only [hscaled, hseq', hsplit]

end Range

/-! ## What is printed -/

/-- A printed speed-up is within a twentieth. -/
theorem SpeedupBounds.printed {feeds : Nat} {limit : Int} {spread speedup : ℚ}
    (h : SpeedupBounds feeds limit spread 0 speedup) :
    SpeedupBounds feeds limit spread (1 / 20) (oneDecimal speedup) := by
  obtain ⟨hbyPermits, hbyFeeds, hleast⟩ := h
  obtain ⟨hlow, hhigh⟩ := oneDecimal_near speedup
  constructor
  · linarith only [hbyPermits, hhigh]
  · linarith only [hbyFeeds, hhigh]
  · linarith only [hleast, hlow]

/-- The four entries of `results`. -/
theorem BenchRun.results {feeds : Nat} {latencyMs late : ℚ} {report : BenchReport}
    (h : BenchRun feeds latencyMs late report) : ∃ ms4 ms8 ms16 ms32,
      report.results = [(4, ms4), (8, ms8), (16, ms16), (32, ms32)]
        ∧ Concurrent (latencyMs / 1000) late feeds 4 ms4
        ∧ Concurrent (latencyMs / 1000) late feeds 8 ms8
        ∧ Concurrent (latencyMs / 1000) late feeds 16 ms16
        ∧ Concurrent (latencyMs / 1000) late feeds 32 ms32 := by
  have hresults := h.concurrent
  generalize report.results = results at hresults
  rcases hresults with _ | @⟨_, ⟨_, ms4⟩, _, _, ⟨rfl, h4⟩, hresults⟩
  rcases hresults with _ | @⟨_, ⟨_, ms8⟩, _, _, ⟨rfl, h8⟩, hresults⟩
  rcases hresults with _ | @⟨_, ⟨_, ms16⟩, _, _, ⟨rfl, h16⟩, hresults⟩
  rcases hresults with _ | @⟨_, ⟨_, ms32⟩, _, _, ⟨rfl, h32⟩, hresults⟩
  cases hresults
  exact ⟨ms4, ms8, ms16, ms32, rfl, h4, h8, h16, h32⟩

/-- The line of an entry that took some time. -/
def BenchReport.lineOf (report : BenchReport) (entry : Int × ℚ) : BenchLine :=
  ⟨entry.1, oneDecimal entry.2, oneDecimal (report.seqMs / entry.2)⟩

/-- **What is printed** where every entry took some time: a line for each, and the least of them. -/
theorem BenchReport.output_eq {report : BenchReport} (hseq : 0 ≤ report.seqMs)
    (hsome : report.results ≠ []) (hpos : ∀ entry ∈ report.results, 0 < entry.2) :
    ∃ best ∈ report.results, report.output = .ok ⟨oneDecimal report.seqMs,
        report.results.map report.lineOf, report.lineOf best⟩
      ∧ ∀ entry ∈ report.results, best.2 ≤ entry.2
        ∧ report.seqMs / entry.2 ≤ report.seqMs / best.2 := by
  have hline {entry : Int × ℚ} (hentry : entry ∈ report.results) :
      report.line entry = .ok (report.lineOf entry) := if_neg (hpos entry hentry).ne'
  have hlines : report.results.mapM report.line = .ok (report.results.map report.lineOf) := by
    have hall : ∀ entries ⊆ report.results,
        entries.mapM report.line = .ok (entries.map report.lineOf) := by
      intro entries
      induction entries with
      | nil => exact fun _ => rfl
      | cons entry entries ih =>
        intro hsub
        obtain ⟨hentry, hrest⟩ := List.cons_subset.mp hsub
        rw [List.mapM_cons, hline hentry, ih hrest]
        rfl
    exact hall _ (List.Subset.refl _)
  obtain ⟨best, hbest⟩ := Option.ne_none_iff_exists'.mp fun h =>
    hsome (List.argmin_eq_none (f := Prod.snd).mp h)
  have hmem : best ∈ report.results := List.argmin_mem hbest
  refine ⟨best, hmem, ?_, fun entry hentry => ?_⟩
  · rw [output, hlines]
    dsimp only [bind, Except.bind]
    rw [hbest]
    dsimp only
    rw [hline hmem]
    rfl
  · have hle := List.le_of_mem_argmin hentry hbest
    exact ⟨hle, div_le_div_of_nonneg_left hseq (hpos best hmem) hle⟩

/-- **The speed-up** that the benchmark prints, for any number of feeds, any latency and any
    lateness, whatever the feeds draw and however the tasks are scheduled. -/
theorem speedup_bounds (feeds : Nat) (hfeeds : 1 ≤ feeds) (latencyMs : ℚ) (hlatency : 0 < latencyMs)
    (late : ℚ) (report : BenchReport) (h : BenchRun feeds latencyMs late report) :
    ∃ output, report.output = .ok output
      ∧ output.concurrent.map BenchLine.limit = [4, 8, 16, 32]
      ∧ (∀ line ∈ output.concurrent,
          SpeedupBounds feeds line.limit (spread (latencyMs / 1000) late) (1 / 20) line.faster)
      ∧ output.best ∈ output.concurrent
      ∧ (∀ line ∈ output.concurrent, output.best.ms ≤ line.ms ∧ line.faster ≤ output.best.faster)
      ∧ 32 * feeds / (feeds + 31) / spread (latencyMs / 1000) late - 1 / 20
        ≤ output.best.faster := by
  obtain ⟨ms4, ms8, ms16, ms32, hresults, h4, h8, h16, h32⟩ := h.results
  obtain ⟨fetches, start, hcount, hseq⟩ := h.sequential
  have hlatency' : 0 < latencyMs / 1000 := div_pos hlatency (by norm_num)
  have hshort : 0 < shortestFetch (latencyMs / 1000) := mul_pos (by norm_num) hlatency'
  have hrange := sequential_range hlatency' start fetches
  rw [hcount, ← hseq] at hrange
  have hlate : 0 ≤ late := by
    have hsome : 0 < fetches.length := by omega
    exact (fetches[0].range.1).trans (fetches[0].range.2)
  have hpos : ∀ {limit : Int} {ms}, 1 ≤ limit → Concurrent (latencyMs / 1000) late feeds limit ms →
      0 < ms := fun hlimit h => by
    have hleast := (h.range hlatency' hfeeds hlimit).2.1
    linarith only [hleast, hshort]
  have hbounds : ∀ (limit : Int) {ms}, 1 ≤ limit →
      Concurrent (latencyMs / 1000) late feeds limit ms →
      SpeedupBounds feeds limit (spread (latencyMs / 1000) late) (1 / 20)
        (report.lineOf (limit, ms)).faster :=
    fun _ _ hlimit h => (speedup_range hlatency' hlate hfeeds hlimit hrange h).printed
  have hseqpos : 0 ≤ report.seqMs :=
    (mul_nonneg (mul_nonneg (by norm_num) hshort.le) (Nat.cast_nonneg feeds)).trans hrange.1
  have hall : ∀ entry ∈ report.results, 0 < entry.2 := by
    rw [hresults]
    simp only [List.forall_mem_cons]
    exact ⟨hpos (by decide) h4, hpos (by decide) h8, hpos (by decide) h16, hpos (by decide) h32,
      fun _ h => by cases h⟩
  obtain ⟨best, hmem, houtput, hleast⟩ := report.output_eq hseqpos (by rw [hresults]; simp) hall
  refine ⟨_, houtput, ?_, ?_, List.mem_map_of_mem hmem, ?_, ?_⟩
  · rw [hresults]
    rfl
  · rw [List.forall_mem_map, hresults]
    simp only [List.forall_mem_cons]
    exact ⟨hbounds 4 (by decide) h4, hbounds 8 (by decide) h8, hbounds 16 (by decide) h16,
      hbounds 32 (by decide) h32, fun _ h => by cases h⟩
  · rw [List.forall_mem_map]
    intro entry hentry
    obtain ⟨hms, hfaster⟩ := hleast entry hentry
    exact ⟨oneDecimal_mono hms, oneDecimal_mono hfaster⟩
  · -- at least as good as with 32 permits
    have hleast32 := (hbounds 32 (by decide) h32).least
    have hbest : (report.lineOf (32, ms32)).faster ≤ (report.lineOf best).faster :=
      oneDecimal_mono (hleast (32, ms32) (by rw [hresults]; simp)).2
    refine le_trans (le_of_eq ?_) (hleast32.trans hbest)
    rw [show (feeds : ℚ) + ((32 : Int) : ℚ) - 1 = feeds + 31 by push_cast; ring, mul_comm (32 : ℚ)]
    rfl

/-! ## Two feeds -/

theorem two_jitter_range : (3 / 5 : ℚ) ≤ 3 / 5 ∧ (3 / 5 : ℚ) ≤ 7 / 5
    ∧ (3 / 5 : ℚ) ≤ 1 ∧ (1 : ℚ) ≤ 7 / 5 := by norm_num

theorem two_lateness_range : (0 : ℚ) ≤ 1 / 1000 ∧ (1 / 1000 : ℚ) ≤ 1 / 500
    ∧ (0 : ℚ) ≤ 1 / 500 := by norm_num

/-- A fetch without jitter, one millisecond late. -/
def slowFetch : FeedCall (1 / 500) :=
  ⟨⟨1, two_jitter_range.2.2⟩, 1 / 1000, two_lateness_range.1, two_lateness_range.2.1⟩

/-- The shortest sleep, as late as can be. -/
def quickFetch : FeedCall (1 / 500) :=
  ⟨⟨3 / 5, two_jitter_range.1, two_jitter_range.2.1⟩, 1 / 500, two_lateness_range.2.2, le_rfl⟩

theorem two_feeds : 0 < (makeFeeds 2).length ∧ 1 < (makeFeeds 2).length := by decide

/-- Two feeds. -/
def slowFeed : Fin (makeFeeds 2).length := ⟨0, two_feeds.1⟩

def quickFeed : Fin (makeFeeds 2).length := ⟨1, two_feeds.2⟩

/-- What they take. -/
def twoFetches (i : Fin (makeFeeds 2).length) : FeedCall (1 / 500) :=
  if i.val = 0 then slowFetch else quickFetch

/-- Both feeds have a permit at once. -/
def bothAtOnce : List (TimedMove (Fin (makeFeeds 2).length) (Except Exn Int) ℚ) :=
  [.move (.start slowFeed), .move (.start quickFeed), .pass (50 / 1000),
    .move (.finish quickFeed (.ok 50)), .pass (31 / 1000), .move (.finish slowFeed (.ok 200))]

theorem bothAtOnce_allowed {limit : Nat} (hlimit : 2 ≤ limit) :
    Guarded Timed.step (TimedFanOut.Allowed fun i => (twoFetches i).took (80 / 1000))
      ⟨.initial limit, 0, fun _ => 0⟩ bothAtOnce := by
  refine ⟨⟨rfl, show 0 < limit by omega⟩, ⟨rfl, show 0 < limit - 1 by omega⟩,
    ⟨by decide +kernel, ⟨slowFeed, rfl⟩, ?_, ?_⟩, ⟨⟨rfl, 50, rfl, by decide⟩, ?_⟩,
    ⟨by decide +kernel, ⟨slowFeed, rfl⟩, ?_, ?_⟩, ⟨⟨rfl, 200, rfl, by decide⟩, ?_⟩, trivial⟩
  · rintro i ⟨h, -⟩
    revert i
    exact Fin.forall_fin_two.mpr ⟨(by rintro ⟨⟩), (by rintro ⟨⟩)⟩
  · intro i
    revert i
    exact Fin.forall_fin_two.mpr
      ⟨fun _ => (by decide +kernel : (0 : ℚ) + 50 / 1000 ≤ 0 + slowFetch.took (80 / 1000)),
        fun _ => (by decide +kernel : (0 : ℚ) + 50 / 1000 ≤ 0 + quickFetch.took (80 / 1000))⟩
  · exact (by decide +kernel : (0 : ℚ) + quickFetch.took (80 / 1000) = 0 + 50 / 1000)
  · rintro i ⟨h, -⟩
    revert i
    exact Fin.forall_fin_two.mpr ⟨(by rintro ⟨⟩), (by rintro ⟨⟩)⟩
  · intro i
    revert i
    exact Fin.forall_fin_two.mpr
      ⟨fun _ => (by decide +kernel :
          (0 : ℚ) + 50 / 1000 + 31 / 1000 ≤ 0 + slowFetch.took (80 / 1000)), (by rintro ⟨⟩)⟩
  · exact (by decide +kernel : (0 : ℚ) + slowFetch.took (80 / 1000) = 0 + 50 / 1000 + 31 / 1000)

theorem two_concurrent {limit : Int} (hlimit : 2 ≤ limit) :
    Concurrent (80 / 1000) (1 / 500) 2 limit 81 := by
  have hlimit' : fanOutLimit {} (some limit) = limit := if_neg (by omega)
  have hstart : fanOutFetch {} (some limit) (makeFeeds 2) = .ok (.initial limit.toNat) := by
    rw [fanOutFetch, hlimit', if_neg (by omega)]
  have h := Concurrent.gathered
    (.run hstart (bothAtOnce_allowed (show 2 ≤ limit.toNat by omega))) rfl
  have hms : (run Timed.step ⟨.initial limit.toNat, 0, fun _ => 0⟩ bothAtOnce).now * 1000 = 81 := by
    show (0 + 50 / 1000 + 31 / 1000 : ℚ) * 1000 = 81
    norm_num
  rwa [hms] at h

/-- The run of two feeds that take the same in the loop. -/
def twoReport : BenchReport := ⟨131, [(4, 81), (8, 81), (16, 81), (32, 81)]⟩

theorem benchRun_two : BenchRun 2 80 (1 / 500) twoReport where
  sequential := ⟨[slowFetch, quickFetch], 0, rfl, by decide +kernel⟩
  concurrent :=
    .cons ⟨rfl, two_concurrent (by decide)⟩ (.cons ⟨rfl, two_concurrent (by decide)⟩
      (.cons ⟨rfl, two_concurrent (by decide)⟩ (.cons ⟨rfl, two_concurrent (by decide)⟩ .nil)))

theorem speedup_bounds_two :
    ∃ output, twoReport.output = .ok output
      ∧ output.concurrent.map BenchLine.limit = [4, 8, 16, 32]
      ∧ (∀ line ∈ output.concurrent,
          SpeedupBounds 2 line.limit (spread (80 / 1000) (1 / 500)) (1 / 20) line.faster)
      ∧ output.best ∈ output.concurrent
      ∧ (∀ line ∈ output.concurrent, output.best.ms ≤ line.ms ∧ line.faster ≤ output.best.faster)
      ∧ 32 * (2 : Nat) / ((2 : Nat) + 31) / spread (80 / 1000) (1 / 500) - 1 / 20
        ≤ output.best.faster :=
  speedup_bounds 2 (by decide) 80 (by norm_num) (1 / 500) twoReport benchRun_two

end GpuIndex
