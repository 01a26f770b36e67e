/-
  Answers before and after ingests.

  Ingest requests add prices and change nothing else, so answers move one way.  SPECIFICATION: over
  one window the ranking gets no shorter and no place of it dearer (**`ranking_gets_no_dearer`**),
  and what the latest prices show of a provider and region is not replaced by anything older, over
  any two windows (**`prices_move_forward`**).

  The crux of the first is `OrderBy.getElem_cost_le`: a GPU may lose its place only to cheaper ones,
  so the places are compared and not the GPUs.
-/
import GpuIndex.Api.StoredBatches
import GpuIndex.Services.ComparedAnswers

namespace GpuIndex

open Calendar OrderBy

section Grows

variable {db db' : Database} {workload : String} {precision : Option String} {since : Instant}

/-! ## The ranking -/

theorem Database.Grows.offersOf_subset (h : db.Grows db') (since : Instant) (gpuId : Integer) :
    offersOf db since gpuId ⊆ offersOf db' since gpuId := by
  intro p hp
  obtain ⟨hmem, hoffer⟩ := mem_offersOf.mp hp
  exact mem_offersOf.mpr ⟨h.pricePoints.subset hmem, hoffer⟩

theorem Database.Grows.runsOf_eq (h : db.Grows db') (workload : String) (precision : Option String)
    (gpuId : Integer) :
    runsOf db' workload precision gpuId = runsOf db workload precision gpuId := by
  rw [runsOf, runsOf, h.benchmarkRuns]

/-- A pair of a price and a run is still there. -/
theorem Database.Grows.costsOf_subset (h : db.Grows db') (gpuId : Integer) :
    costsOf db workload precision since gpuId ⊆ costsOf db' workload precision since gpuId := by
  rintro x ⟨p, hp, b, hb, rfl⟩
  exact ⟨p, h.offersOf_subset since gpuId hp, b,
    (h.runsOf_eq workload precision gpuId).symm ▸ hb, rfl⟩

/-- A GPU that has a pair still has one. -/
theorem Database.Grows.rankedModels_sublist (h : db.Grows db') :
    (rankedModels db workload precision since).Sublist
      (rankedModels db' workload precision since) := by
  rw [rankedModels, rankedModels, h.gpuModels]
  refine List.monotone_filter_right _ fun g hg => ?_
  obtain ⟨hoffers, hruns⟩ := of_decide_eq_true hg
  refine decide_eq_true ⟨fun hnone => ?_, ?_⟩
  · obtain ⟨p, hp⟩ := List.exists_mem_of_ne_nil _ hoffers
    exact absurd (hnone ▸ h.offersOf_subset since g.id hp) List.not_mem_nil
  · rwa [h.runsOf_eq]

/-- A GPU that has a pair has a least cost. -/
theorem exists_isLeast_costsOf {g : GpuModel} (hg : g ∈ rankedModels db workload precision since) :
    ∃ x, IsLeast (costsOf db workload precision since g.id) x := by
  obtain ⟨hoffers, hruns⟩ := of_decide_eq_true (List.mem_filter.mp hg).2
  obtain ⟨p, hp⟩ := List.exists_mem_of_ne_nil _ hoffers
  obtain ⟨b, hb⟩ := List.exists_mem_of_ne_nil _ hruns
  have hmem : ∀ x, x ∈ (offersOf db since g.id).flatMap
        (fun p => (runsOf db workload precision g.id).map (costOf p))
      ↔ x ∈ costsOf db workload precision since g.id := by
    intro x
    simp only [List.mem_flatMap, List.mem_map]
    exact ⟨fun ⟨p, hp, b, hb, hx⟩ => ⟨p, hp, b, hb, hx.symm⟩,
      fun ⟨p, hp, b, hb, hx⟩ => ⟨p, hp, b, hb, hx.symm⟩⟩
  obtain ⟨x, hx, hleast⟩ := (Order.asc (id : ℚ → ℚ)).exists_least
    (List.ne_nil_of_mem ((hmem _).mpr ⟨p, hp, b, hb, rfl⟩))
  exact ⟨x, (hmem x).mp hx, fun y hy => hleast y ((hmem y).mpr hy)⟩

/-- **Two rankings** of which the second has more prices: it has as many places, and each costs no
    more than it did. -/
theorem RankedByCost.getElem_le (h : db.Grows db')
    {limit : Nat} {ranked ranked' : List (GpuModel × ℚ)}
    (hranked : RankedByCost db workload precision since limit ranked)
    (hranked' : RankedByCost db' workload precision since limit ranked') :
    ranked.length ≤ ranked'.length ∧ ∀ i (hi : i < ranked.length) (hi' : i < ranked'.length),
      ranked'[i].2 ≤ ranked[i].2 := by
  have hmodels : (rankedModels db workload precision since).Sublist
      (rankedModels db' workload precision since) := h.rankedModels_sublist
  have hlength := hmodels.length_le
  constructor
  · rw [hranked.length, hranked'.length]
    omega
  · intro i hi hi'
    refine getElem_cost_le hranked.ascending hranked'.ascending hranked.distinct
      (fun e he => ?_) hi hi'
    have hleast := hranked.least e he
    have hmodel := hmodels.subset (hranked.models e he)
    by_cases hin : e.1 ∈ ranked'.map Prod.fst
    · obtain ⟨e', he', hname⟩ := List.mem_map.mp hin
      refine .inl ⟨e', he', by rw [hname], ?_⟩
      have hleast' := hranked'.least e' he'
      rw [hname] at hleast'
      exact hleast'.2 (h.costsOf_subset e.1.id hleast.1)
    · -- it has lost its place to GPUs that cost no more
      obtain ⟨x, hx⟩ := exists_isLeast_costsOf hmodel
      have hle : x ≤ e.2 := hx.2 (h.costsOf_subset e.1.id hleast.1)
      exact .inr fun e' he' => (hranked'.omitted e.1 hmodel hin x hx e' he').trans hle

end Grows

/-- Values that ingests store are not negative. -/
theorem Offered.nonneg {env : Env} {db db' : Database} {items : List PricePointIn}
    (h : Offered env db items db') (hprices : ∀ p ∈ db.pricePoints, 0 ≤ p.usdPerHour.value) :
    ∀ p ∈ db'.pricePoints, 0 ≤ p.usdPerHour.value := by
  obtain ⟨values, added, hobserved, hadded, hwinners⟩ := h.added
  intro p hp
  rw [hadded] at hp
  rcases List.mem_append.mp hp with hp | hp
  · exact hprices p hp
  · have hvalue : p.toPriceValues ∈ values :=
      (FirstWins.winners_sublist _ _ _).subset (hwinners ▸ List.mem_map_of_mem hp)
    obtain ⟨item, -, hitem⟩ := forall₂_mem_right hobserved hvalue
    have hscaled := ofRat?_eq_some hitem.usdPerHour
    have hpositive := item.usdPerHour_range.1
    have hnonneg : 0 ≤ p.usdPerHour.scaled :=
      hscaled ▸ roundHalfAway_nonneg (by positivity)
    exact div_nonneg (Int.cast_nonneg hnonneg) (by positivity)

/-- **The ranking gets no dearer** by ingest requests: it has at least as many places over the same
    window, and every place costs no more than it did. -/
theorem ranking_gets_no_dearer (env : Env) (choices choices' : Nat → Choice) (workload : String)
    (precision : Option String) (days : Int) (limit : Nat) (m m' : Machine)
    (hprices : ∀ p ∈ m.world.db.pricePoints, 0 ≤ p.usdPerHour.value)
    (payloads : List (List PricePointIn)) (hposts : Posts env m.world.db payloads m'.world.db)
    (hnow : m'.world.now = m.world.now) {rows rows' : List IndexRow}
    (hrows : (runSvc env choices (computeIndex workload precision days limit) m).1 = .ok rows)
    (hrows' : (runSvc env choices' (computeIndex workload precision days limit) m').1 = .ok rows') :
    ∃ since ranked ranked', minusDays (env.clock m.world.now) days = .ok since
      ∧ RankedByCost m.world.db workload precision since limit ranked
      ∧ RankedByCost m'.world.db workload precision since limit ranked'
      ∧ rows.map (fun r => (r.gpuModel, r.usdPerMillionUnits))
        = ranked.map (fun e => (e.1.modelName, some (env.fmt.round e.2)))
      ∧ rows'.map (fun r => (r.gpuModel, r.usdPerMillionUnits))
        = ranked'.map (fun e => (e.1.modelName, some (env.fmt.round e.2)))
      ∧ ranked.length ≤ ranked'.length
      ∧ ∀ i (hi : i < ranked.length) (hi' : i < ranked'.length), ranked'[i].2 ≤ ranked[i].2 := by
  obtain ⟨since, plan, hsince, rfl⟩ := computeIndex_ok hrows
  obtain ⟨since', plan', hsince', rfl⟩ := computeIndex_ok hrows'
  rw [hnow] at hsince'
  obtain rfl := Except.ok.inj (hsince.symm.trans hsince')
  have hoffered := hposts.offered
  have hranked : RankedByCost m.world.db workload precision since limit
      ((rankedRows plan m.world.db workload precision since limit).map entryOf) :=
    rankedByCost hprices
  have hranked' : RankedByCost m'.world.db workload precision since limit
      ((rankedRows plan' m'.world.db workload precision since limit).map entryOf) :=
    rankedByCost (hoffered.nonneg hprices)
  exact ⟨since, _, _, hsince, hranked, hranked', indexSql_entries env.fmt, indexSql_entries env.fmt,
    hranked.getElem_le hoffered.grows hranked'⟩

theorem west_length : LengthWithin 32 "us-west-2" := by decide

theorem dollar_range : 0 < (1 : ℚ) ∧ (1 : ℚ) ≤ 1000 := by norm_num

/-- An item of another region, at a lower price. -/
def westItem : PricePointIn :=
  { oneItem with
    region := "us-west-2"
    region_length := west_length
    usdPerHour := 1
    usdPerHour_range := dollar_range }

/-- A request that adds it to the market. -/
def postWest : Except Exn Response × Machine :=
  runSvc env (fun _ => .calm) (serveRequest env ⟨some "local-dev-key", .ingest [westItem]⟩)
    ⟨worldOf market, {}⟩

theorem postWest_answered : postWest.1 = .ok ⟨202, .ingest ⟨1, 0, 0, []⟩, []⟩ := by
  with_unfolding_all rfl

theorem posts_west : Posts env market [[westItem]] postWest.2.world.db :=
  .answered (w := worldOf market) (Prod.ext postWest_answered rfl) (.nil _)

/-- The first row of the index after it. -/
def westRanked : IndexRow :=
  { marketRanking.head (List.cons_ne_nil _ _) with
    bestUsdPerHour := halves.round 1
    usdPerMillionUnits := some (halves.round 250)
    region := usWest2 }

theorem indexAfterWest :
    (runSvc env (fun _ => .calm) (computeIndex "llm-inference-7b" none 30 50)
        ⟨postWest.2.world, {}⟩).1
      = .ok (westRanked :: marketRanking.tail) := by with_unfolding_all rfl

theorem ranking_gets_no_dearer_west :
    ∃ since ranked ranked', minusDays (env.clock newYear) 30 = .ok since
      ∧ RankedByCost market "llm-inference-7b" none since 50 ranked
      ∧ RankedByCost postWest.2.world.db "llm-inference-7b" none since 50 ranked'
      ∧ marketRanking.map (fun r => (r.gpuModel, r.usdPerMillionUnits))
        = ranked.map (fun e => (e.1.modelName, some (halves.round e.2)))
      ∧ (westRanked :: marketRanking.tail).map (fun r => (r.gpuModel, r.usdPerMillionUnits))
        = ranked'.map (fun e => (e.1.modelName, some (halves.round e.2)))
      ∧ ranked.length ≤ ranked'.length
      ∧ ∀ i (hi : i < ranked.length) (hi' : i < ranked'.length), ranked'[i].2 ≤ ranked[i].2 :=
  ranking_gets_no_dearer env _ _ "llm-inference-7b" none 30 50 ⟨worldOf market, {}⟩
    ⟨postWest.2.world, {}⟩ market_nonneg [[westItem]] posts_west (by with_unfolding_all rfl)
    indexOfMarket_rows indexAfterWest

/-! ## The latest prices -/

/-- **Prices move forward**: of every provider and region that was shown, ingest requests later and
    over any window, the rows show an observation that is no older, unless the one shown was made
    before the window began. -/
theorem prices_move_forward (env : Env) (choices choices' : Nat → Choice)
    (gpuModelId days days' : Int) (availability : Option String) (limit limit' : Nat)
    (m m' : Machine) (payloads : List (List PricePointIn))
    (hposts : Posts env m.world.db payloads m'.world.db) {rows rows' : List LatestRow}
    (hrows : (runSvc env choices (latestPrices gpuModelId days availability limit) m).1 = .ok rows)
    (hrows' : (runSvc env choices' (latestPrices gpuModelId days' availability limit') m').1
      = .ok rows')
    (hall : rows'.length < limit') :
    ∃ since, minusDays (env.clock m'.world.now) days' = .ok since
      ∧ ∀ r ∈ rows, r.observedAt < since ∨ ∃ r' ∈ rows', r'.provider = r.provider
        ∧ r'.region = r.region ∧ r.observedAt ≤ r'.observedAt := by
  obtain ⟨gpu, since, plan, hgpu, hsince, rfl⟩ := latestPrices_ok hrows
  obtain ⟨gpu', since', plan', hgpu', hsince', rfl⟩ := latestPrices_ok hrows'
  obtain rfl := Option.some.inj (hgpu.symm.trans hgpu')
  have hgrows := hposts.offered.grows
  refine ⟨since', hsince', fun r hr => ?_⟩
  rw [latestPricesSql_eq] at hr
  obtain ⟨c, hc, rfl⟩ := List.mem_map.mp hr
  have hselected :=
    selected_chosenPrices env.collation plan m.world.db gpu since (truthy availability) limit
  have hselected' := selected_chosenPrices env.collation plan' m'.world.db gpu since'
    (truthy availability) limit'
  obtain ⟨hmem, hwindow, hmatches⟩ := mem_matchingPrices.mp
    (mem_firstRows.mp (hselected.first (List.mem_map_of_mem hc))).1
  rcases lt_or_ge c.1.observedAt since' with hout | hin
  · exact .inl hout
  · -- its group is among those of the second answer
    have hmatching : c.1 ∈ matchingPrices m'.world.db gpu since' (truthy availability) :=
      mem_matchingPrices.mpr ⟨hgrows.pricePoints.subset hmem,
        decide_eq_true ⟨(of_decide_eq_true hwindow).1, hin⟩, hmatches⟩
    rw [latestPricesSql_eq, List.length_map] at hall
    have heach := hselected'.firstOfEach (hselected'.keys_le (by rwa [List.length_map]))
    obtain ⟨p, hp, hgroup⟩ := heach.covers c.1 hmatching
    have hnewest := (mem_firstRows.mp (heach.first p hp)).2 c.1 hmatching hgroup.symm
    obtain ⟨c', hc', rfl⟩ := List.mem_map.mp hp
    refine .inr ⟨latestRow env.fmt (medianPrice m'.world.db gpu since') c'.1 c'.2, ?_,
      ?_, ?_, hnewest⟩
    · rw [latestPricesSql_eq]
      exact List.mem_map_of_mem hc'
    · -- one provider, by its id
      have hprovider := provider_of_mem_chosenPrices hc
      have hprovider' := provider_of_mem_chosenPrices hc'
      rw [Database.provider?, hgrows.providers, (Prod.mk.inj hgroup).1] at hprovider'
      rw [Option.some.inj (hprovider'.symm.trans hprovider)]
      rfl
    · exact (Prod.mk.inj hgroup).2

/-- The latest prices after the request. -/
def latestAfterWest : List LatestRow :=
  [{ awsRow (9 / 4) with
      region := usWest2
      usdPerHour := halves.round 1 },
    awsRow (9 / 4), { gcpRow with median30d := (awsRow (9 / 4)).median30d }]

theorem latestOfWest :
    (runSvc env (fun _ => .calm) (latestPrices 1 30 (some "available") 200)
        ⟨postWest.2.world, {}⟩).1
      = .ok latestAfterWest := by with_unfolding_all rfl

theorem prices_move_forward_west :
    ∃ since, minusDays (env.clock postWest.2.world.now) 30 = .ok since
      ∧ ∀ r ∈ marketMonth, r.observedAt < since ∨ ∃ r' ∈ latestAfterWest, r'.provider = r.provider
        ∧ r'.region = r.region ∧ r.observedAt ≤ r'.observedAt :=
  prices_move_forward env _ _ 1 30 30 (some "available") 200 200 ⟨worldOf market, {}⟩
    ⟨postWest.2.world, {}⟩ [[westItem]] posts_west latestOfMarket_month latestOfWest (by decide)

end GpuIndex
