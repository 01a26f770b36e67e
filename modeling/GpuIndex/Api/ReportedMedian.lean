/-
  The median that `GET /v1/gpus/{gpu_id}/prices` reports.

  The query takes the median over every observation in the window, but hands it out in the rows that
  pass the filter, and the handler reads it off the first of them.  Where nothing passes there is no
  row to read it off, and no median is reported (`median_summaryOf`).  So the median does not depend
  on the filter exactly where the window is empty or the filters let something through
  (**`median_unfiltered_iff`**).
-/
import GpuIndex.Api.PriceSummary

namespace GpuIndex

open Calendar OrderBy
open JsonText (FloatFormat FloatVal)

/-- The observations of the GPU in the window of a request, whatever their availability. -/
def windowObservations (env : Env) (q : PricesQuery) (m : Machine) : List PricePoint :=
  requestPrices env { q with availability := none } m

/-- Their median, as a double. -/
def windowMedian (env : Env) (q : PricesQuery) (m : Machine) : Option FloatVal :=
  (percentileCont ((windowObservations env q m).map fun p => p.usdPerHour.value)).map env.fmt.round

section Median

variable {env : Env} {q : PricesQuery} {m : Machine}

/-- The median of no values is missing, and no other. -/
theorem percentileCont_eq_none {values : List ℚ} : percentileCont values = none ↔ values = [] := by
  constructor
  · intro h
    by_contra hne
    obtain ⟨med, hmed⟩ := exists_percentileCont hne
    rw [hmed] at h
    cases h
  · rintro rfl
    rfl

theorem windowMedian_eq_none : windowMedian env q m = none ↔ windowObservations env q m = [] := by
  rw [windowMedian, Option.map_eq_none_iff, percentileCont_eq_none, List.map_eq_nil_iff]

/-- The observations in the window are those that an unfiltered request is about. -/
theorem matchingPrices_none (db : Database) (gpu : Integer) (since : Instant) :
    matchingPrices db gpu since none = db.pricePoints.filter (inWindow gpu since) := by
  refine List.filter_congr fun p _ => ?_
  simp [matchesAvailability]

/-- **The summary** reports the median of the window, if anything passes the filter. -/
theorem median_summaryOf {collation : Collation} {fmt : FloatFormat} {plan : Plan} {db : Database}
    {gpu : Integer} {since : Instant} {availability : Option String} {limit : Nat}
    (hlimit : limit ≠ 0) (model : String) :
    (summaryOf model (latestPricesSql collation fmt plan db gpu since availability
        limit)).median30dUsdPerHour
      = if matchingPrices db gpu since availability = [] then none
        else (medianPrice db gpu since).map fmt.round := by
  have hnil : latestPricesSql collation fmt plan db gpu since availability limit = []
      ↔ matchingPrices db gpu since availability = [] := by
    rw [latestPricesSql_eq_nil hlimit, List.eq_nil_iff_forall_not_mem]
    simp only [mem_matchingPrices, not_and]
  cases hrows : latestPricesSql collation fmt plan db gpu since availability limit with
  | nil =>
    rw [if_pos (hnil.mp hrows)]
    rfl
  | cons r rows =>
    rw [if_neg fun h => List.cons_ne_nil r rows (hrows.symm.trans (hnil.mpr h))]
    -- every row carries the median of the window
    have hr : r ∈ latestPricesSql collation fmt plan db gpu since availability limit := by
      rw [hrows]
      exact List.mem_cons_self
    obtain ⟨p, -, rfl⟩ := List.mem_map.mp hr
    rfl

/-- An answer from the database reports the median of the window exactly if the window is empty or
    something passes the filter. -/
theorem reports_windowMedian_iff {availability : Option String} {m' : Machine}
    (hdb : m'.world.db = m.world.db) (hnow : m'.world.now = m.world.now)
    (hkey : m'.Uncached (pricesKey { q with availability := availability }))
    {choices : Nat → Choice} {s : PriceSummaryOut}
    (h : (runSvc env choices (gpuPrices env { q with availability := availability }) m').1
      = .ok s) :
    s.median30dUsdPerHour = windowMedian env q m
      ↔ windowObservations env q m = []
        ∨ requestPrices env { q with availability := availability } m ≠ [] := by
  obtain ⟨plan, id, since, model, hid, hsince, rfl⟩ := gpuPrices_from_database hkey h
  rw [hnow] at hsince
  rw [hdb, median_summaryOf (by decide), ← windowMedian_eq_none]
  have hwindow :
      windowObservations env q m = m.world.db.pricePoints.filter (inWindow id since) := by
    rw [windowObservations, requestPrices, hid, hsince]
    exact matchingPrices_none _ _ _
  have hmatching : requestPrices env { q with availability := availability } m
      = matchingPrices m.world.db id since (truthy availability) := by
    rw [requestPrices, hid, hsince]
  have hmedian : (medianPrice m.world.db id since).map env.fmt.round = windowMedian env q m := by
    rw [windowMedian, hwindow, medianPrice]
  rw [hmatching, hmedian]
  split
  · rename_i hnone
    rw [or_iff_left (not_not.mpr hnone), eq_comm]
  · rename_i hsome
    exact ⟨fun _ => .inr hsome, fun _ => rfl⟩

end Median

/-- **The median does not depend on the filter**, for two answers from one database at one instant
    to requests that differ in the filter only, exactly if the window is empty or both filters let
    something through: then both report the median of all observations in the window. -/
theorem median_unfiltered_iff (env : Env) (q : PricesQuery)
    (availability availability' : Option String) (m m' : Machine) (hdb : m'.world.db = m.world.db)
    (hnow : m'.world.now = m.world.now)
    (hkey : m.Uncached (pricesKey { q with availability := availability }))
    (hkey' : m'.Uncached (pricesKey { q with availability := availability' }))
    (choices choices' : Nat → Choice) (s s' : PriceSummaryOut)
    (hs : (runSvc env choices (gpuPrices env { q with availability := availability }) m).1 = .ok s)
    (hs' : (runSvc env choices' (gpuPrices env { q with availability := availability' }) m').1
      = .ok s') :
    (s.median30dUsdPerHour = s'.median30dUsdPerHour
        ∧ s.median30dUsdPerHour = windowMedian env q m)
      ↔ windowObservations env q m = []
        ∨ requestPrices env { q with availability := availability } m ≠ []
          ∧ requestPrices env { q with availability := availability' } m ≠ [] := by
  rw [or_and_left, ← reports_windowMedian_iff rfl rfl hkey hs,
    ← reports_windowMedian_iff hdb hnow hkey' hs']
  constructor
  · rintro ⟨hsame, hmedian⟩
    exact ⟨hmedian, hsame.symm.trans hmedian⟩
  · rintro ⟨hmedian, hmedian'⟩
    exact ⟨hmedian.trans hmedian'.symm, hmedian⟩

theorem answerOfSoldOut_median :
    (answerOfSoldOut (some "unavailable")).map (fun s => s.median30dUsdPerHour.isSome) = .ok false
      ∧ (answerOfSoldOut none).map (fun s => s.median30dUsdPerHour.isSome) = .ok true := by
  constructor <;> with_unfolding_all rfl

/-- Nothing in the table is unavailable, so a request for that reports no median. -/
theorem median_lost_soldOut :
    ∃ s s₀, answerOfSoldOut (some "unavailable") = .ok s ∧ answerOfSoldOut none = .ok s₀
      ∧ s.median30dUsdPerHour ≠ s₀.median30dUsdPerHour := by
  obtain ⟨s, hs, hnone⟩ := exists_answer answerOfSoldOut_median.1
  obtain ⟨s₀, hs₀, hsome⟩ := exists_answer answerOfSoldOut_median.2
  refine ⟨s, s₀, hs, hs₀, fun hsame => ?_⟩
  rw [hsame, hsome] at hnone
  cases hnone

theorem median_unfiltered_soldOut :
    ∃ s s₀, answerOfSoldOut (some "constrained") = .ok s ∧ answerOfSoldOut none = .ok s₀
      ∧ ((s.median30dUsdPerHour = s₀.median30dUsdPerHour
          ∧ s.median30dUsdPerHour
            = windowMedian env (pricesOfOne none) (machineOf pricesOf_soldOut))
        ↔ windowObservations env (pricesOfOne none) (machineOf pricesOf_soldOut) = []
          ∨ requestPrices env (pricesOfOne (some "constrained")) (machineOf pricesOf_soldOut) ≠ []
            ∧ requestPrices env (pricesOfOne none) (machineOf pricesOf_soldOut) ≠ []) := by
  obtain ⟨s, hs⟩ := exists_answerOfSoldOut (some "constrained") fun a ha => by
    cases ha
    decide
  obtain ⟨s₀, hs₀⟩ := exists_answerOfSoldOut none nofun
  exact ⟨s, s₀, hs, hs₀, median_unfiltered_iff env (pricesOfOne none) (some "constrained") none
    (machineOf pricesOf_soldOut) (machineOf pricesOf_soldOut) rfl rfl rfl rfl _ _ s s₀ hs hs₀⟩

end GpuIndex
