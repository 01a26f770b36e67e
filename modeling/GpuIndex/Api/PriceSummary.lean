/-
  What `GET /v1/gpus/{gpu_id}/prices` says of the table.

  A request that is served from the database answers with the summary of the rows some plan selects
  (`gpuPrices_from_database`, `gpuPrices_planned`).  The first 200 groups are all it sees: its
  counts are right for every plan exactly when no region and no provider can be pushed out
  (`summary_exact_iff`).  Its filter is applied before the newest price of a group is taken, so it
  shows current capacity exactly when no group has changed (`availability_filter_iff`).
-/
import GpuIndex.Api.RouteSpecs
import GpuIndex.Api.Responses
import GpuIndex.Services.LatestPrices

namespace GpuIndex

open Calendar OrderBy
open JsonText (FloatFormat FloatVal)

/-! ## Served from the database -/

/-- The key is not in the cache. -/
def Machine.Uncached (m : Machine) (key : String) : Prop :=
  m.world.redis.peek m.world.now.us key = none

section Served

variable {env : Env} {q : PricesQuery} {m : Machine}

/-- What a request selects, in terms of the query. -/
theorem sql_of_selectPrices {plan : Plan} {now : Instant} {db : Database} {rows : List LatestRow}
    (h : selectPrices env plan now db q = .ok rows) :
    ∃ id since, Integer.ofInt? q.gpuId = some id
      ∧ minusDays (env.clock now) q.windowDays = .ok since
      ∧ rows = latestPricesSql env.collation env.fmt plan db id since
        (truthy q.availability) 200 := by
  rw [selectPrices_eq] at h
  obtain ⟨since, hsince, h⟩ := bind_ok h
  have heval := raised_ok h
  by_cases hsend : SendableLatest q.gpuId (truthy q.availability) 200
  · obtain ⟨id, hid⟩ := hsend.gpuModelId
    rw [eval_latestPrices_ok hid hsend.availability hsend.limit] at heval
    exact ⟨id, since, hid, hsince, (Except.ok.inj heval).symm⟩
  · rw [eval_latestPrices_error hsend] at heval
    cases heval

/-- **An answer from the database** is the summary of the rows some plan selects. -/
theorem gpuPrices_from_database (hkey : m.Uncached (pricesKey q)) {choices : Nat → Choice}
    {s : PriceSummaryOut} (h : (runSvc env choices (gpuPrices env q) m).1 = .ok s) :
    ∃ plan id since model, Integer.ofInt? q.gpuId = some id
      ∧ minusDays (env.clock m.world.now) q.windowDays = .ok since
      ∧ s = summaryOf model (latestPricesSql env.collation env.fmt plan m.world.db id since
          (truthy q.availability) 200) := by
  have hrun := runSvc_of_wp choices (C := fun _ => True) (fun _ => trivial)
    (@wp_gpuPrices env _ q m)
  rw [h] at hrun
  obtain ⟨loaded, m₁, -, hread, hend⟩ := hrun
  cases loaded with
  | error e => cases hend.1
  | ok gpu =>
    obtain ⟨read, hthrough, hbuild⟩ := hend
    cases hthrough with
    | hit entry _ _ =>
      rw [hread.redis, hread.tables.now, hkey] at entry
      cases entry
    | raised => cases hbuild
    | fresh miss produced _ =>
      cases produced with
      | @rows plan rows _ selected _ _ _ _ _ =>
        rw [miss.tables.now, miss.tables.db, hread.tables.now, hread.tables.db] at selected
        obtain ⟨id, since, hid, hsince, rfl⟩ := sql_of_selectPrices selected
        refine ⟨plan, id, since, gpu.modelName.val, hid, hsince, ?_⟩
        exact Except.ok.inj (hbuild.trans (priceSummary_latestJson gpu.modelName.val _))

/-- The server answers, and meets rows as the plan says. -/
def Choice.Planned (plan : Plan) (c : Choice) : Prop := c.dbError = none ∧ c.plan = plan

/-- Every plan is the plan of some run. -/
theorem gpuPrices_planned (hkey : m.Uncached (pricesKey q)) (plan : Plan) {id : Integer}
    {since : Instant} {gpu : GpuModel} (hid : Integer.ofInt? q.gpuId = some id)
    (hgpu : m.world.db.gpuModel? id = some gpu)
    (hsince : minusDays (env.clock m.world.now) q.windowDays = .ok since)
    (hfilter : ∀ a ∈ truthy q.availability, NoNul a) :
    (runSvc env (answering plan) (gpuPrices env q) m).1
      = .ok (summaryOf gpu.modelName.val (latestPricesSql env.collation env.fmt plan m.world.db id
          since (truthy q.availability) 200)) := by
  refine runSvc_of_wp (answering plan) (C := Choice.Planned plan) (Q := fun r _ => r = _)
    (fun _ => ⟨rfl, rfl⟩) ?_
  unfold gpuPrices
  refine Svc.wp_seq (wp_loadGpu_found (fun _ h => h.1) hid hgpu) (fun g m₁ h => ?_)
    (fun e m₁ h => nomatch h.1)
  obtain ⟨hg, htables, hredis⟩ := h
  obtain rfl := Except.ok.inj hg
  rw [← htables.now] at hsince
  refine Svc.wp_mono (wp_pricesRead (fun _ h => h.1) hid hsince hfilter g.modelName.val)
    fun r m₂ h => ?_
  cases h with
  | hit entry _ =>
    rw [hredis, htables.now, hkey] at entry
    cases entry
  | @fresh c answers =>
    rw [htables.db, answers.2]

end Served

/-! ## Counting values -/

section Dedup

variable {α β γ : Type} [DecidableEq β] [DecidableEq γ]

/-- Some of the values are as many as all of them exactly when they are all of them. -/
theorem length_dedup_eq_iff {l₁ l₂ : List β} (h : l₁ ⊆ l₂) :
    l₁.dedup.length = l₂.dedup.length ↔ l₂ ⊆ l₁ := by
  have hsubset : l₁.dedup ⊆ l₂.dedup := fun b hb =>
    List.mem_dedup.mpr (h (List.mem_dedup.mp hb))
  constructor
  · intro hlength b hb
    have hperm := (List.subperm_of_subset (List.nodup_dedup l₁) hsubset).perm_of_length_le
      (le_of_eq hlength.symm)
    exact List.mem_dedup.mp (hperm.mem_iff.mpr (List.mem_dedup.mpr hb))
  · intro hback
    refine ((List.perm_ext_iff_of_nodup (List.nodup_dedup _) (List.nodup_dedup _)).mpr
      fun b => ?_).length_eq
    rw [List.mem_dedup, List.mem_dedup]
    exact ⟨fun hb => h hb, fun hb => hback hb⟩

/-- Two columns that tell the same rows apart have equally many values. -/
theorem length_dedup_map_congr {l : List α} {f : α → β} {g : α → γ}
    (h : ∀ a ∈ l, ∀ b ∈ l, f a = f b ↔ g a = g b) :
    (l.map f).dedup.length = (l.map g).dedup.length := by
  induction l with
  | nil => rfl
  | cons a l ih =>
    have htail := ih fun b hb c hc =>
      h b (List.mem_cons_of_mem _ hb) c (List.mem_cons_of_mem _ hc)
    have hmem : f a ∈ l.map f ↔ g a ∈ l.map g := by
      rw [List.mem_map, List.mem_map]
      exact exists_congr fun b => and_congr_right fun hb =>
        h b (List.mem_cons_of_mem _ hb) a List.mem_cons_self
    rw [List.map_cons, List.map_cons]
    by_cases hf : f a ∈ l.map f
    · rw [List.dedup_cons_of_mem hf, List.dedup_cons_of_mem (hmem.mp hf), htail]
    · rw [List.dedup_cons_of_notMem hf, List.dedup_cons_of_notMem (mt hmem.mpr hf),
        List.length_cons, List.length_cons, htail]

end Dedup

/-- The minimum is the first of numbers none of which is less than it. -/
theorem minFloat_eq_head {x : FloatVal} {xs : List FloatVal}
    (h : ∀ y ∈ xs, floatLt y x = false) : minFloat x xs = x := by
  induction xs with
  | nil => rfl
  | cons y xs ih =>
    have hy : floatLt y x = false := h y List.mem_cons_self
    have htail := ih fun z hz => h z (List.mem_cons_of_mem _ hz)
    rw [minFloat, List.foldl_cons, hy]
    exact htail

/-! ## The aggregates -/

/-- The observations a request is about. -/
def requestPrices (env : Env) (q : PricesQuery) (m : Machine) : List PricePoint :=
  match Integer.ofInt? q.gpuId, minusDays (env.clock m.world.now) q.windowDays with
  | some id, .ok since => matchingPrices m.world.db id since (truthy q.availability)
  | _, _ => []

/-- A request is about no observations, or its parameters are ones that the server can be asked. -/
theorem requestPrices_cases (env : Env) (q : PricesQuery) (m : Machine) :
    requestPrices env q m = []
      ∨ ∃ id since, Integer.ofInt? q.gpuId = some id
        ∧ minusDays (env.clock m.world.now) q.windowDays = .ok since
        ∧ requestPrices env q m
          = matchingPrices m.world.db id since (truthy q.availability) := by
  rw [requestPrices]
  split
  · rename_i id since hid hsince
    exact .inr ⟨id, since, hid, hsince, rfl⟩
  · exact .inl rfl

theorem mem_table_of_requestPrices {env : Env} {q : PricesQuery} {m : Machine} {p : PricePoint}
    (h : p ∈ requestPrices env q m) : p ∈ m.world.db.pricePoints := by
  unfold requestPrices at h
  split at h
  · exact (mem_matchingPrices.mp h).1
  · exact absurd h List.not_mem_nil

/-- The aggregates of a summary are those of the observations: their regions, their providers, and
    the least price among the newest observations of the groups. -/
structure ExactSummary (env : Env) (matching : List PricePoint) (s : PriceSummaryOut) : Prop where
  regionCount : s.regionCount = (matching.map fun p => p.region).dedup.length
  providerCount : s.providerCount = (matching.map fun p => p.providerId).dedup.length
  cheapest : ∃ newest, FirstOfEach PricePoint.group newestFirst matching newest
    ∧ ∃ p ∈ newest, (∀ p' ∈ newest, p.usdPerHour.value ≤ p'.usdPerHour.value)
      ∧ s.cheapestUsdPerHour = env.fmt.round p.usdPerHour.value

/-- No region and no provider can be pushed out of the first 200 groups: each has a group whose
    newest observations all have fewer than 200 groups of other regions (of other providers) before
    them. -/
structure AllVisible (collation : Collation) (matching : List PricePoint) : Prop where
  regions : Shown PricePoint.group newestFirst (cheapestFirst collation) 200
    (fun p : PricePoint => p.region) matching
  providers : Shown PricePoint.group newestFirst (cheapestFirst collation) 200
    (fun p : PricePoint => p.providerId) matching

theorem AllVisible.nil (collation : Collation) : AllVisible collation [] where
  regions := fun _ h => absurd h List.not_mem_nil
  providers := fun _ h => absurd h List.not_mem_nil

section Aggregates

variable {collation : Collation} {db : Database} {gpu : Integer} {since : Instant}
  {availability : Option String} {plan : Plan} {limit : Nat}

/-- Where something matches, the GPU is there and the filter has no NUL. -/
theorem exists_gpu_of_matching {p : PricePoint}
    (hp : p ∈ matchingPrices db gpu since availability) :
    (∃ model, db.gpuModel? gpu = some model) ∧ ∀ a ∈ availability, NoNul a := by
  obtain ⟨hmem, hwindow, hfilter⟩ := mem_matchingPrices.mp hp
  constructor
  · have hgpu := db.constraints.price_points_gpu_model_id_fkey p.toPriceValues
      (List.mem_map_of_mem hmem)
    obtain ⟨model, hmodel, hid⟩ := List.mem_map.mp hgpu
    rw [(of_decide_eq_true hwindow).1] at hid
    refine Option.isSome_iff_exists.mp (List.find?_isSome.mpr ⟨model, hmodel, ?_⟩)
    exact decide_eq_true hid
  · intro a ha
    rw [matchesAvailability, Option.all_eq_true] at hfilter
    rw [← of_decide_eq_true (hfilter a ha)]
    exact p.availability.noNul

/-- The values of an attribute that the chosen prices show are as many as there are, exactly when
    every one of them is shown. -/
theorem chosen_count_iff {κ : Type} [DecidableEq κ] (attr : PricePoint → κ) :
    (((chosenPrices collation plan db gpu since availability limit).map Prod.fst).map
        attr).dedup.length = ((matchingPrices db gpu since availability).map attr).dedup.length
      ↔ ∀ p ∈ matchingPrices db gpu since availability,
          ∃ t ∈ (chosenPrices collation plan db gpu since availability limit).map Prod.fst,
            attr t = attr p := by
  have hselected := selected_chosenPrices collation plan db gpu since availability limit
  rw [length_dedup_eq_iff fun v hv => ?_]
  · constructor
    · intro h p hp
      exact List.mem_map.mp (h (List.mem_map_of_mem hp))
    · intro h v hv
      obtain ⟨p, hp, rfl⟩ := List.mem_map.mp hv
      exact List.mem_map.mpr (h p hp)
  · obtain ⟨t, ht, rfl⟩ := List.mem_map.mp hv
    exact List.mem_map_of_mem (mem_firstRows.mp (hselected.first ht)).1

/-- **Every plan shows every value of an attribute** exactly when none can be pushed out. -/
theorem shown_iff {κ : Type} [DecidableEq κ] {attr : PricePoint → κ}
    (hattr : ∀ p p' : PricePoint, p.group = p'.group → attr p = attr p') :
    (∀ plan, ∀ p ∈ matchingPrices db gpu since availability,
        ∃ t ∈ (chosenPrices collation plan db gpu since availability limit).map Prod.fst,
          attr t = attr p)
      ↔ Shown PricePoint.group newestFirst (cheapestFirst collation) limit attr
          (matchingPrices db gpu since availability) := by
  constructor
  · intro h
    by_contra hhidden
    rw [← shown_congr (firstRows_latestOrder collation _)] at hhidden
    obtain ⟨p, hp, P, Q, hnone⟩ := exists_selected_hiding hattr hhidden
    obtain ⟨t, ht, heq⟩ := h (.preferring P Q) p hp
    exact hnone _ (favours_chosenPrices collation P Q db gpu since availability limit) t ht heq
  · intro hshown plan p hp
    exact (selected_chosenPrices collation plan db gpu since availability limit).shows
      hattr hshown hp

theorem region_of_group (p p' : PricePoint) (h : p.group = p'.group) : p.region = p'.region :=
  congrArg Prod.snd h

theorem provider_of_group (p p' : PricePoint) (h : p.group = p'.group) :
    p.providerId = p'.providerId :=
  congrArg Prod.fst h

/-! ### The summary of chosen prices -/

theorem summaryOf_regionCount (fmt : FloatFormat) (model : String) :
    (summaryOf model
      (latestPricesSql collation fmt plan db gpu since availability limit)).regionCount
      = (((chosenPrices collation plan db gpu since availability limit).map Prod.fst).map
          fun p => p.region).dedup.length := by
  have hcount : ((latestPricesSql collation fmt plan db gpu since availability limit).map
      fun r => r.region.val).dedup.length
      = (((chosenPrices collation plan db gpu since availability limit).map Prod.fst).map
          fun p => p.region).dedup.length := by
    rw [latestPricesSql_eq, List.map_map, List.map_map]
    exact length_dedup_map_congr fun a _ b _ => Varchar.val_injective.eq_iff
  rw [← hcount]
  cases latestPricesSql collation fmt plan db gpu since availability limit <;> rfl

theorem summaryOf_providerCount (fmt : FloatFormat) (model : String) :
    (summaryOf model
        (latestPricesSql collation fmt plan db gpu since availability limit)).providerCount
      = (((chosenPrices collation plan db gpu since availability limit).map Prod.fst).map
          fun p => p.providerId).dedup.length := by
  have hcount : ((latestPricesSql collation fmt plan db gpu since availability limit).map
      fun r => r.provider.val).dedup.length
      = (((chosenPrices collation plan db gpu since availability limit).map Prod.fst).map
          fun p => p.providerId).dedup.length := by
    rw [latestPricesSql_eq, List.map_map, List.map_map]
    refine length_dedup_map_congr fun a ha b hb => ?_
    -- a provider is known by its name as by its id
    obtain ⟨hamem, haid⟩ := Database.mem_of_provider? (provider_of_mem_chosenPrices ha)
    obtain ⟨hbmem, hbid⟩ := Database.mem_of_provider? (provider_of_mem_chosenPrices hb)
    show a.2.name.val = b.2.name.val ↔ a.1.providerId = b.1.providerId
    rw [Varchar.val_injective.eq_iff, ← haid, ← hbid]
    constructor
    · intro hname
      rw [db.provider_eq_of_name_eq hamem hbmem hname]
    · intro hid
      rw [List.inj_on_of_nodup_map db.constraints.providers_pkey hamem hbmem hid]
  rw [← hcount]
  cases latestPricesSql collation fmt plan db gpu since availability limit <;> rfl

/-- The cheapest price is the least of the newest observations, whatever is left out. -/
theorem summaryOf_cheapest {fmt : FloatFormat} (model : String) (hlimit : 0 < limit)
    (hround : ∀ x y, x ≤ y → floatLt (fmt.round y) (fmt.round x) = false)
    (hne : matchingPrices db gpu since availability ≠ []) :
    ∃ newest, FirstOfEach PricePoint.group newestFirst (matchingPrices db gpu since availability)
        newest
      ∧ ∃ p ∈ newest, (∀ p' ∈ newest, p.usdPerHour.value ≤ p'.usdPerHour.value)
        ∧ (summaryOf model (latestPricesSql collation fmt plan db gpu since availability
            limit)).cheapestUsdPerHour = fmt.round p.usdPerHour.value := by
  obtain ⟨newest, hnewest, htop⟩ :=
    selected_chosenPrices collation plan db gpu since availability limit
  refine ⟨newest, hnewest, ?_⟩
  obtain ⟨p, hp⟩ := List.exists_mem_of_ne_nil _ hne
  obtain ⟨c, hc, -⟩ := hnewest.covers p hp
  have hlength := htop.length
  rw [latestPricesSql_eq]
  cases hchosen : chosenPrices collation plan db gpu since availability limit with
  | nil =>
    rw [hchosen] at hlength
    have := List.length_pos_of_mem hc
    simp only [List.map_nil, List.length_nil] at hlength
    omega
  | cons r rest =>
    rw [hchosen, List.map_cons] at htop
    have hle (p' : PricePoint) (hp' : p' ∈ newest) :
        r.1.usdPerHour.value ≤ p'.usdPerHour.value := by
      by_cases hin : p' ∈ r.1 :: rest.map Prod.fst
      · rcases List.mem_cons.mp hin with rfl | hin
        · exact le_refl _
        · exact (List.rel_of_pairwise_cons htop.sorted hin).1
      · exact ((htop.of_not_mem hp' hin).2 r.1 List.mem_cons_self).1
    refine ⟨r.1, htop.mem List.mem_cons_self, hle, ?_⟩
    show minFloat (fmt.round r.1.usdPerHour.value) _ = _
    refine minFloat_eq_head fun y hy => ?_
    rw [List.map_map] at hy
    obtain ⟨r', hr', rfl⟩ := List.mem_map.mp hy
    exact hround _ _ (hle r'.1 (htop.mem (List.mem_cons_of_mem _ (List.mem_map_of_mem hr'))))

/-- What can be pushed out makes the summary of some plan wrong. -/
theorem allVisible_of_exact {env : Env}
    (h : ∀ plan, ∀ p ∈ matchingPrices db gpu since availability, ∃ model,
      ExactSummary env (matchingPrices db gpu since availability) (summaryOf model
        (latestPricesSql env.collation env.fmt plan db gpu since availability 200))) :
    AllVisible env.collation (matchingPrices db gpu since availability) where
  regions := by
    refine (shown_iff region_of_group).mp fun plan p hp => ?_
    obtain ⟨model, hsummary⟩ := h plan p hp
    exact (chosen_count_iff _).mp
      ((summaryOf_regionCount _ model).symm.trans hsummary.regionCount) p hp
  providers := by
    refine (shown_iff provider_of_group).mp fun plan p hp => ?_
    obtain ⟨model, hsummary⟩ := h plan p hp
    exact (chosen_count_iff _).mp
      ((summaryOf_providerCount _ model).symm.trans hsummary.providerCount) p hp

/-- Where nothing can be pushed out, the summary of every plan is exact. -/
theorem AllVisible.exact {env : Env}
    (h : AllVisible env.collation (matchingPrices db gpu since availability))
    (hround : ∀ x y, x ≤ y → floatLt (env.fmt.round y) (env.fmt.round x) = false)
    (hne : matchingPrices db gpu since availability ≠ []) (plan : Plan) (model : String) :
    ExactSummary env (matchingPrices db gpu since availability) (summaryOf model
      (latestPricesSql env.collation env.fmt plan db gpu since availability 200)) where
  regionCount := by
    rw [summaryOf_regionCount]
    exact (chosen_count_iff _).mpr ((shown_iff region_of_group).mpr h.regions plan)
  providerCount := by
    rw [summaryOf_providerCount]
    exact (chosen_count_iff _).mpr ((shown_iff provider_of_group).mpr h.providers plan)
  cheapest := summaryOf_cheapest model (by decide) hround hne

end Aggregates

/-- **The aggregates are exact** in every answer from the database exactly when no region and no
    provider can be pushed out of the first 200 groups. -/
theorem summary_exact_iff (env : Env) (q : PricesQuery) (m : Machine)
    (hkey : m.Uncached (pricesKey q))
    (hround : ∀ x y, x ≤ y → floatLt (env.fmt.round y) (env.fmt.round x) = false) :
    (∀ choices s, (runSvc env choices (gpuPrices env q) m).1 = .ok s →
        requestPrices env q m ≠ [] → ExactSummary env (requestPrices env q m) s)
      ↔ AllVisible env.collation (requestPrices env q m) := by
  rcases requestPrices_cases env q m with hnil | ⟨id, since, hid, hsince, hprices⟩
  · rw [hnil]
    exact ⟨fun _ => .nil _, fun _ _ _ _ h => absurd rfl h⟩
  · rw [hprices]
    constructor
    · intro h
      -- every plan is the plan of some answer, so every plan's summary is exact
      refine allVisible_of_exact fun plan p hp => ?_
      obtain ⟨⟨gpu, hgpu⟩, hfilter⟩ := exists_gpu_of_matching hp
      exact ⟨gpu.modelName.val, h _ _ (gpuPrices_planned hkey plan hid hgpu hsince hfilter)
        (List.ne_nil_of_mem hp)⟩
    · intro hvisible choices s hs hne
      obtain ⟨plan, id', since', model, hid', hsince', rfl⟩ := gpuPrices_from_database hkey hs
      obtain rfl : id = id' := Option.some.inj (hid.symm.trans hid')
      obtain rfl : since = since' := Except.ok.inj (hsince.symm.trans hsince')
      exact hvisible.exact hround hne plan model

/-- A machine whose table holds these prices of GPU 1. -/
def machineOf {prices : List PricePoint} (h : PricesOf ⟨1, one_range⟩ prices) : Machine :=
  ⟨worldOf (priced h), {}⟩

/-- Prices that are all in the window of the fixture's requests, and pass their filter. -/
theorem requestPrices_machineOf {prices : List PricePoint} (h : PricesOf ⟨1, by decide⟩ prices)
    {since : Instant} (hsince : minusDays newYear 30 = .ok since)
    (hwindow : ∀ p ∈ prices, since ≤ p.observedAt) :
    requestPrices env (pricesOfOne none) (machineOf h) = prices := by
  have hid : Integer.ofInt? (pricesOfOne none).gpuId = some ⟨1, by decide⟩ := rfl
  have hstart : minusDays (env.clock (machineOf h).world.now) (pricesOfOne none).windowDays
      = .ok since := hsince
  rw [requestPrices, hid, hstart]
  refine List.filter_eq_self.mpr fun p hp => decide_eq_true ⟨?_, rfl⟩
  exact decide_eq_true ⟨h.gpuModelId p hp, hwindow p hp⟩

theorem summary_truncated :
    ∃ choices s, (runSvc env choices (gpuPrices env (pricesOfOne none))
        (machineOf pricesOf_manyRegions)).1 = .ok s
      ∧ requestPrices env (pricesOfOne none) (machineOf pricesOf_manyRegions) ≠ []
      ∧ ¬ ExactSummary env (requestPrices env (pricesOfOne none) (machineOf pricesOf_manyRegions))
          s := by
  obtain ⟨since, hsince, hle⟩ := minusDays_newYear (pricesOfOne none).windowDays_range
  have hprices := requestPrices_machineOf pricesOf_manyRegions hsince fun p hp => by
    obtain ⟨i, -, rfl⟩ := List.mem_map.mp hp
    exact hle
  have hanswer := @gpuPrices_planned env (pricesOfOne none) (machineOf pricesOf_manyRegions) rfl
    .stored _ _ (h100 ⟨1, by decide⟩) rfl rfl hsince nofun
  refine ⟨_, _, hanswer, ?_, fun hexact => ?_⟩
  · rw [hprices]
    exact List.ne_nil_of_mem (List.mem_map_of_mem (List.mem_finRange 0))
  · have hcount := hexact.regionCount
    rw [hprices, summaryOf_regionCount] at hcount
    have hall : (manyRegions.map fun p => p.region).dedup.length = 201 := by
      have hnodup : (manyRegions.map fun p => p.region).Nodup := by
        rw [manyRegions, List.map_map]
        exact (List.nodup_finRange 201).map numberedRegion_injective
      rw [hnodup.dedup, List.length_map, manyRegions, List.length_map, List.length_finRange]
    have hfew (l : List (Varchar 32)) (hl : l.length ≤ 200) : l.dedup.length ≤ 200 :=
      (List.dedup_sublist l).length_le.trans hl
    rw [hall] at hcount
    refine absurd (hcount.symm.le.trans (hfew _ ?_)) (by decide)
    rw [List.length_map, List.length_map, chosenPrices, List.length_take]
    exact Nat.min_le_left _ _

theorem summary_exact_iff_soldOut :
    (∀ choices s, (runSvc env choices (gpuPrices env (pricesOfOne none))
          (machineOf pricesOf_soldOut)).1 = .ok s →
        requestPrices env (pricesOfOne none) (machineOf pricesOf_soldOut) ≠ [] →
        ExactSummary env (requestPrices env (pricesOfOne none) (machineOf pricesOf_soldOut)) s)
      ↔ AllVisible env.collation
          (requestPrices env (pricesOfOne none) (machineOf pricesOf_soldOut)) :=
  summary_exact_iff env (pricesOfOne none) (machineOf pricesOf_soldOut) rfl fun x y h => by
    obtain ⟨a, b, ha, hb, hle⟩ := halves_monotone h
    show floatLt (halves.round y) (halves.round x) = false
    rw [ha, hb]
    exact decide_eq_false (not_lt.mpr hle)

/-! ## The availability filter -/

section Filter

variable {collation : Collation} {fmt : FloatFormat} {db : Database} {gpu : Integer}
  {since : Instant} {availability : Option String} {plan : Plan} {limit : Nat}

/-- The filter keeps the prices of its availability. -/
theorem mem_matchingPrices_some {a : String} {p : PricePoint} :
    p ∈ matchingPrices db gpu since (some a)
      ↔ p ∈ matchingPrices db gpu since none ∧ p.availability.val = a := by
  simp only [mem_matchingPrices, matchesAvailability, Option.all_some, Option.all_none,
    decide_eq_true_eq, and_true, and_assoc]

/-- The filter leaves no more groups than there are. -/
theorem groups_filter_le (db : Database) (gpu : Integer) (since : Instant) (a : String) :
    ((matchingPrices db gpu since (some a)).map PricePoint.group).dedup.length
      ≤ ((matchingPrices db gpu since none).map PricePoint.group).dedup.length := by
  refine length_le_of_subset (List.nodup_dedup _) fun g hg => ?_
  obtain ⟨p, hp, rfl⟩ := List.mem_map.mp (List.mem_dedup.mp hg)
  exact List.mem_dedup.mpr (List.mem_map_of_mem (mem_matchingPrices_some.mp hp).1)

/-- A price as a point of the answer. -/
def pricePoint? (fmt : FloatFormat) (db : Database) (p : PricePoint) : Option PricePointOut :=
  (db.provider? p.providerId).map fun pr => .ofLatestRow (latestRow fmt none p pr)

theorem summaryOf_points (model : String) (rows : List LatestRow) :
    (summaryOf model rows).points = rows.map .ofLatestRow := by
  cases rows <;> rfl

theorem points_latestPricesSql (model : String) :
    (summaryOf model (latestPricesSql collation fmt plan db gpu since availability limit)).points
      = ((chosenPrices collation plan db gpu since availability limit).map Prod.fst).filterMap
          (pricePoint? fmt db) := by
  have hprovider (r : PricePoint × Provider)
      (hr : r ∈ chosenPrices collation plan db gpu since availability limit) :
      db.provider? r.1.providerId = some r.2 := provider_of_mem_chosenPrices hr
  rw [summaryOf_points, latestPricesSql_eq, List.map_map]
  generalize chosenPrices collation plan db gpu since availability limit = chosen at hprovider
  induction chosen with
  | nil => rfl
  | cons r rest ih =>
    have hpoint : pricePoint? fmt db r.1 = some (.ofLatestRow (latestRow fmt none r.1 r.2)) := by
      rw [pricePoint?, hprovider r List.mem_cons_self]
      rfl
    rw [List.map_cons, List.map_cons, List.filterMap_cons_some hpoint,
      ih fun r hr => hprovider r (List.mem_cons_of_mem _ hr)]
    rfl

theorem pricePoint?_availability {p : PricePoint} {x : PricePointOut}
    (h : pricePoint? fmt db p = some x) : x.availability = p.availability.val := by
  obtain ⟨pr, -, rfl⟩ := Option.map_eq_some_iff.mp h
  rfl

/-- The points of one availability are the points of the prices of that availability. -/
theorem filter_points (a : String) (prices : List PricePoint) :
    (prices.filterMap (pricePoint? fmt db)).filter (fun x => x.availability = a)
      = (prices.filter fun p => p.availability.val = a).filterMap (pricePoint? fmt db) := by
  rw [List.filter_filterMap, List.filterMap_filter]
  refine List.filterMap_congr fun p _ => ?_
  cases hp : pricePoint? fmt db p with
  | none => simp
  | some x =>
    have hx := pricePoint?_availability hp
    by_cases ha : p.availability.val = a <;> simp [Option.filter, hx, ha]

/-- Among the prices of a GPU a point tells which price it is. -/
theorem pricePoint?_inj {p p' : PricePoint} {x : PricePointOut}
    (hp : p ∈ matchingPrices db gpu since availability)
    (hp' : p' ∈ matchingPrices db gpu since availability) (h : pricePoint? fmt db p = some x)
    (h' : pricePoint? fmt db p' = some x) : p = p' := by
  obtain ⟨pr, hpr, rfl⟩ := Option.map_eq_some_iff.mp h
  obtain ⟨pr', hpr', heq⟩ := Option.map_eq_some_iff.mp h'
  refine @latestRow_inj _ _ _ _ fmt none _ _ _ _ hp hp' hpr hpr' ?_
  simp only [PricePointOut.ofLatestRow, latestRow, PricePointOut.mk.injEq] at heq
  obtain ⟨hname, hregion, hinstance, husd, havailability, hobserved⟩ := heq
  simp only [latestRow, LatestRow.mk.injEq]
  exact ⟨(Varchar.val_injective hname).symm, (Varchar.val_injective hregion).symm,
    (Varchar.val_injective hinstance).symm, husd.symm, (Varchar.val_injective havailability).symm,
    (utc_injective hobserved).symm, trivial⟩

/-- Prices of a GPU are rearranged exactly when their points are. -/
theorem perm_of_perm_points {l₁ l₂ : List PricePoint} (hnodup₁ : l₁.Nodup) (hnodup₂ : l₂.Nodup)
    (hl₁ : ∀ p ∈ l₁, p ∈ matchingPrices db gpu since availability)
    (hl₂ : ∀ p ∈ l₂, p ∈ matchingPrices db gpu since availability)
    (h : (l₁.filterMap (pricePoint? fmt db)).Perm (l₂.filterMap (pricePoint? fmt db))) :
    l₁.Perm l₂ := by
  have hsubset {l l' : List PricePoint}
      (hl : ∀ p ∈ l, p ∈ matchingPrices db gpu since availability)
      (hl' : ∀ p ∈ l', p ∈ matchingPrices db gpu since availability)
      (h : (l.filterMap (pricePoint? fmt db)).Perm (l'.filterMap (pricePoint? fmt db))) :
      ∀ p ∈ l, p ∈ l' := by
    intro p hp
    obtain ⟨pr, hpr⟩ := db.provider?_isSome (mem_matchingPrices.mp (hl p hp)).1
    have hpoint : pricePoint? fmt db p = some (.ofLatestRow (latestRow fmt none p pr)) := by
      rw [pricePoint?, hpr]
      rfl
    obtain ⟨p', hp', hpoint'⟩ :=
      List.mem_filterMap.mp (h.mem_iff.mp (List.mem_filterMap.mpr ⟨p, hp, hpoint⟩))
    rwa [pricePoint?_inj (hl p hp) (hl' p' hp') hpoint hpoint']
  exact (List.perm_ext_iff_of_nodup hnodup₁ hnodup₂).mpr fun p =>
    ⟨hsubset hl₁ hl₂ h p, hsubset hl₂ hl₁ h.symm p⟩

/-- The newest price of every group that has a price of the availability has it. -/
def NewestHave (a : String) (prices : List PricePoint) : Prop :=
  ∀ n ∈ firstRows PricePoint.group newestFirst prices,
    (∃ p ∈ prices, p.group = n.group ∧ p.availability.val = a) → n.availability.val = a

/-- **Filtering before or after** the newest price of each group is taken is the same exactly when
    the newest prices have the availability already. -/
theorem newest_filter_iff {a : String} {prices filtered newest newestFiltered : List PricePoint}
    (hfiltered : ∀ p, p ∈ filtered ↔ p ∈ prices ∧ p.availability.val = a)
    (hties : ∀ p ∈ prices, ∀ p' ∈ prices, p.group = p'.group →
      p.observedAt = p'.observedAt → p = p')
    (hnewest : FirstOfEach PricePoint.group newestFirst prices newest)
    (hnewestFiltered : FirstOfEach PricePoint.group newestFirst filtered newestFiltered) :
    newestFiltered.Perm (newest.filter fun p => p.availability.val = a)
      ↔ NewestHave a prices := by
  have halone (n n' : PricePoint) (hn : n ∈ firstRows PricePoint.group newestFirst prices)
      (hn' : n' ∈ firstRows PricePoint.group newestFirst prices) (hgroup : n'.group = n.group) :
      n' = n := by
    obtain ⟨hmem, hfirst⟩ := mem_firstRows.mp hn
    obtain ⟨hmem', hfirst'⟩ := mem_firstRows.mp hn'
    exact hties n' hmem' n hmem hgroup
      (le_antisymm (hfirst n' hmem' hgroup) (hfirst' n hmem hgroup.symm))
  constructor
  · rintro hperm n hn ⟨p, hp, hgroup, ha⟩
    obtain ⟨c, hc, hcgroup⟩ := hnewestFiltered.covers p ((hfiltered p).mpr ⟨hp, ha⟩)
    obtain ⟨hcnewest, hca⟩ := List.mem_filter.mp (hperm.mem_iff.mp hc)
    rw [← halone n c hn (hnewest.first c hcnewest) (hcgroup.trans hgroup)]
    exact of_decide_eq_true hca
  · intro hhave
    refine (List.perm_ext_iff_of_nodup hnewestFiltered.nodup (hnewest.nodup.filter _)).mpr
      fun p => ⟨fun hp => ?_, fun hp => ?_⟩
    · -- a newest price of the availability is a newest price of all
      obtain ⟨hmem, hfirst⟩ := mem_firstRows.mp (hnewestFiltered.first p hp)
      obtain ⟨hprices, ha⟩ := (hfiltered p).mp hmem
      obtain ⟨n, hn, hgroup⟩ := hnewest.covers p hprices
      obtain ⟨hnmem, hnfirst⟩ := mem_firstRows.mp (hnewest.first n hn)
      have hna := hhave n (hnewest.first n hn) ⟨p, hprices, hgroup.symm, ha⟩
      have hle : n.observedAt ≤ p.observedAt := hfirst n ((hfiltered n).mpr ⟨hnmem, hna⟩) hgroup
      have hge : p.observedAt ≤ n.observedAt := hnfirst p hprices hgroup.symm
      obtain rfl := hties p hprices n hnmem hgroup.symm (le_antisymm hge hle)
      exact List.mem_filter.mpr ⟨hn, decide_eq_true ha⟩
    · -- and a newest price of all that has the availability is first among those that have it
      obtain ⟨hnewestp, ha⟩ := List.mem_filter.mp hp
      have ha := of_decide_eq_true ha
      obtain ⟨hprices, hfirst⟩ := mem_firstRows.mp (hnewest.first p hnewestp)
      obtain ⟨c, hc, hgroup⟩ := hnewestFiltered.covers p ((hfiltered p).mpr ⟨hprices, ha⟩)
      obtain ⟨hcmem, hcfirst⟩ := mem_firstRows.mp (hnewestFiltered.first c hc)
      have hcprices := ((hfiltered c).mp hcmem).1
      have hle : p.observedAt ≤ c.observedAt :=
        hcfirst p ((hfiltered p).mpr ⟨hprices, ha⟩) hgroup.symm
      have hge : c.observedAt ≤ p.observedAt := hfirst c hcprices hgroup
      rwa [hties c hcprices p hprices hgroup (le_antisymm hge hle)] at hc

end Filter

/-- **The availability filter** shows current capacity, on tables of at most 200 groups without
    ties, exactly when the newest price of every group that has a price of the availability in the
    window has that availability. -/
theorem availability_filter_iff (env : Env) (q : PricesQuery) (a : String) (m : Machine)
    (ha : a ≠ "") (hkey : m.Uncached (pricesKey { q with availability := some a }))
    (hkey₀ : m.Uncached (pricesKey { q with availability := none }))
    (hgroups : ((requestPrices env { q with availability := none } m).map
      PricePoint.group).dedup.length ≤ 200)
    (hties : ∀ p ∈ requestPrices env { q with availability := none } m,
      ∀ p' ∈ requestPrices env { q with availability := none } m,
        p.group = p'.group → p.observedAt = p'.observedAt → p = p')
    (choices choices₀ : Nat → Choice) (s s₀ : PriceSummaryOut)
    (hs : (runSvc env choices (gpuPrices env { q with availability := some a }) m).1 = .ok s)
    (hs₀ : (runSvc env choices₀ (gpuPrices env { q with availability := none }) m).1 = .ok s₀) :
    s.points.Perm (s₀.points.filter fun x => x.availability = a)
      ↔ NewestHave a (requestPrices env { q with availability := none } m) := by
  obtain ⟨plan, id, since, model, hid, hsince, rfl⟩ := gpuPrices_from_database hkey hs
  obtain ⟨plan₀, id₀, since₀, model₀, hid₀, hsince₀, rfl⟩ := gpuPrices_from_database hkey₀ hs₀
  obtain rfl : id = id₀ := Option.some.inj (hid.symm.trans hid₀)
  obtain rfl : since = since₀ := Except.ok.inj (hsince.symm.trans hsince₀)
  have hfilter : truthy (some a) = some a := Option.filter_eq_some_iff.mpr ⟨rfl, decide_eq_true ha⟩
  have hprices : requestPrices env { q with availability := none } m
      = matchingPrices m.world.db id since none := by
    rw [requestPrices, hid₀, hsince₀]
    rfl
  rw [hprices] at hgroups hties ⊢
  have hselected := selected_chosenPrices env.collation plan m.world.db id since (some a) 200
  have hselected₀ := selected_chosenPrices env.collation plan₀ m.world.db id since none 200
  have hnewest := hselected.firstOfEach ((groups_filter_le _ _ _ a).trans hgroups)
  have hnewest₀ := hselected₀.firstOfEach hgroups
  rw [← newest_filter_iff (fun p => mem_matchingPrices_some) hties hnewest₀ hnewest]
  -- both answers are read off the chosen prices, the filtered one with the filter in its input
  show (summaryOf model (latestPricesSql env.collation env.fmt plan m.world.db id since
      (truthy (some a)) 200)).points.Perm ((summaryOf model₀ (latestPricesSql env.collation env.fmt
        plan₀ m.world.db id since none 200)).points.filter _) ↔ _
  rw [hfilter, points_latestPricesSql, points_latestPricesSql, filter_points]
  constructor
  · intro hperm
    refine @perm_of_perm_points _ _ id _ _ _ _ hnewest.nodup (hnewest₀.nodup.filter _)
      (fun p hp => (mem_matchingPrices_some.mp (hnewest.mem hp)).1) (fun p hp => ?_) hperm
    exact hnewest₀.mem (List.mem_filter.mp hp).1
  · exact fun hperm => hperm.filterMap _

/-- What a request answers where the capacity of the only group has gone. -/
def answerOfSoldOut (availability : Option String) : Except Exn PriceSummaryOut :=
  (runSvc env (answering .stored) (gpuPrices env (pricesOfOne availability))
    (machineOf pricesOf_soldOut)).1

/-- The database answers every filter that the driver can send. -/
theorem exists_answerOfSoldOut (availability : Option String)
    (hfilter : ∀ a ∈ availability, NoNul a) : ∃ s, answerOfSoldOut availability = .ok s := by
  obtain ⟨since, hsince, -⟩ := minusDays_newYear (pricesOfOne none).windowDays_range
  exact ⟨_, @gpuPrices_planned env (pricesOfOne availability) (machineOf pricesOf_soldOut) rfl
    .stored _ _ (h100 ⟨1, by decide⟩) rfl rfl hsince fun a ha =>
      hfilter a (Option.mem_filter_iff.mp ha).1⟩

theorem answerOfSoldOut_points :
    (answerOfSoldOut (some "available")).map (fun s => s.points.map fun x => x.availability)
        = .ok ["available"]
      ∧ (answerOfSoldOut none).map (fun s => s.points.map fun x => x.availability)
        = .ok ["constrained"] := by
  constructor <;> with_unfolding_all rfl

/-- The answer with a part that was read off it. -/
theorem exists_answer {α : Type} {r : Except Exn PriceSummaryOut}
    {part : PriceSummaryOut → α} {a : α}
    (h : r.map part = .ok a) : ∃ s, r = .ok s ∧ part s = a := by
  cases r with
  | error e => cases h
  | ok s => exact ⟨s, rfl, Except.ok.inj h⟩

theorem availability_filter_stale :
    ∃ s s₀, answerOfSoldOut (some "available") = .ok s ∧ answerOfSoldOut none = .ok s₀
      ∧ ¬ s.points.Perm (s₀.points.filter fun x => x.availability = "available") := by
  obtain ⟨s, hs, havailable⟩ := exists_answer answerOfSoldOut_points.1
  obtain ⟨s₀, hs₀, hconstrained⟩ := exists_answer answerOfSoldOut_points.2
  refine ⟨s, s₀, hs, hs₀, fun hperm => ?_⟩
  have hnone : (s₀.points.filter fun x => x.availability = "available") = [] := by
    refine List.filter_eq_nil_iff.mpr fun x hx hav => ?_
    have hmem := List.mem_map_of_mem (f := fun x : PricePointOut => x.availability) hx
    rw [hconstrained, List.mem_singleton, of_decide_eq_true hav] at hmem
    exact absurd hmem (by decide)
  rw [hnone] at hperm
  rw [hperm.eq_nil] at havailable
  cases havailable

theorem availability_filter_soldOut :
    ∃ s s₀, answerOfSoldOut (some "constrained") = .ok s ∧ answerOfSoldOut none = .ok s₀
      ∧ (s.points.Perm (s₀.points.filter fun x => x.availability = "constrained")
        ↔ NewestHave "constrained"
            (requestPrices env (pricesOfOne none) (machineOf pricesOf_soldOut))) := by
  obtain ⟨s, hs⟩ := exists_answerOfSoldOut (some "constrained") fun a ha => by
    cases ha
    decide
  obtain ⟨s₀, hs₀⟩ := exists_answerOfSoldOut none nofun
  refine ⟨s, s₀, hs, hs₀, availability_filter_iff env (pricesOfOne none) "constrained"
    (machineOf pricesOf_soldOut) (by decide) rfl rfl ?_ ?_ _ _ s s₀ hs hs₀⟩
  · refine (List.dedup_sublist _).length_le.trans ?_
    rw [List.length_map]
    exact (List.length_filter_le _ _).trans (by decide)
  · have hmem : ∀ p ∈ requestPrices env (pricesOfOne none) (machineOf pricesOf_soldOut),
        p ∈ soldOut := fun p hp => mem_table_of_requestPrices hp
    have hties : ∀ p ∈ soldOut, ∀ p' ∈ soldOut, p.observedAt = p'.observedAt → p = p' := by decide
    exact fun p hp p' hp' _ hobserved => hties p (hmem p hp) p' (hmem p' hp') hobserved

end GpuIndex
