/-
  What the hot query selects.

  The prices in the window that pass the filter fall into groups by provider and region.  However
  rows are met, `latest_prices` returns one newest price of each group, cheapest first, up to the
  limit (`latestPrices_spec`).  Which one is free wherever prices tie, and `latestPrices_determined`
  says exactly when nothing is left to choose.
-/
import GpuIndex.Fixture
import GpuIndex.Lib.Selection
import GpuIndex.Services.Pricing

namespace GpuIndex

open Calendar OrderBy
open JsonText (FloatFormat FloatVal)

/-! ## Groups -/

/-- The prices a request is about: in the window, and passing the filter. -/
def matchingPrices (db : Database) (gpuModelId : Integer) (since : Instant)
    (availability : Option String) : List PricePoint :=
  db.pricePoints.filter fun p => inWindow gpuModelId since p ∧ matchesAvailability availability p

/-- `(provider_id, region)` -/
def PricePoint.group (p : PricePoint) : Integer × Varchar 32 := (p.providerId, p.region)

/-- `observed_at DESC` -/
def newestFirst : Order PricePoint := Order.desc fun p => p.observedAt

/-- `usd_per_hour ASC, region ASC` -/
def cheapestFirst (collation : Collation) : Order PricePoint :=
  (Order.asc fun p => p.usdPerHour.value).thenBy (collation.on fun p => p.region.val)

section Query

variable {collation : Collation} {db : Database} {gpu : Integer} {since : Instant}
  {availability : Option String} {limit : Nat} {plan : Plan}

theorem mem_matchingPrices {p : PricePoint} :
    p ∈ matchingPrices db gpu since availability
      ↔ p ∈ db.pricePoints ∧ inWindow gpu since p ∧ matchesAvailability availability p := by
  simp [matchingPrices]

theorem latestInput_perm (plan : Plan) (db : Database) (gpu : Integer) (since : Instant)
    (availability : Option String) :
    (latestInput plan db gpu since availability).Perm (matchingPrices db gpu since availability) :=
  (plan.prices.perm db.pricePoints).filter _

/-- Inside a group the sort of `latest` looks at the date-time alone. -/
theorem firstRows_latestOrder (collation : Collation) (rows : List PricePoint) :
    firstRows PricePoint.group (latestOrder collation) rows
      = firstRows PricePoint.group newestFirst rows := by
  have hregions (p q : PricePoint) (h : p.region = q.region) :
      (collation.on fun p : PricePoint => p.region.val).le p q := by
    show collation.le p.region.val q.region.val
    rw [h]
    exact collation.toOrder.refl _
  refine firstRows_congr (fun a b hgroup => ?_) rows
  obtain ⟨hprovider, hregion⟩ := Prod.mk.inj hgroup
  constructor
  · intro h
    exact (h.2 (le_of_eq hprovider)).2 (hregions b a hregion)
  · intro h
    exact ⟨le_of_eq hprovider.symm, fun _ => ⟨hregions a b hregion.symm, fun _ => h⟩⟩

/-! ## The query in two steps -/

/-- The joined rows of `latest`, as the outer `SELECT` meets them. -/
def latestJoin (collation : Collation) (plan : Plan) (db : Database) (gpuModelId : Integer)
    (since : Instant) (availability : Option String) : List (PricePoint × Provider) :=
  plan.latest.apply ((latestPerRegion collation plan db gpuModelId since availability).filterMap
    fun p => (db.provider? p.providerId).map fun pr => (p, pr))

/-- The rows the query returns, before it builds its columns. -/
def chosenPrices (collation : Collation) (plan : Plan) (db : Database) (gpuModelId : Integer)
    (since : Instant) (availability : Option String) (limit : Nat) :
    List (PricePoint × Provider) :=
  ((summaryOrder collation).sort (latestJoin collation plan db gpuModelId since availability)).take
    limit

/-- The columns of a returned row. -/
def latestRow (fmt : FloatFormat) (med : Option ℚ) (p : PricePoint) (pr : Provider) :
    LatestRow where
  provider := pr.name
  region := p.region
  instanceType := p.instanceType
  usdPerHour := fmt.round p.usdPerHour.value
  availability := p.availability
  observedAt := p.observedAt
  median30d := med.map fmt.round

theorem latestPricesSql_eq (fmt : FloatFormat) :
    latestPricesSql collation fmt plan db gpu since availability limit
      = (chosenPrices collation plan db gpu since availability limit).map
          fun r => latestRow fmt (medianPrice db gpu since) r.1 r.2 := rfl

/-- A join whose partner is always there adds a column and loses nothing. -/
theorem map_fst_filterMap {α β : Type} {f : α → Option β} {as : List α}
    (h : ∀ a ∈ as, ∃ b, f a = some b) :
    (as.filterMap fun a => (f a).map fun b => (a, b)).map Prod.fst = as := by
  induction as with
  | nil => rfl
  | cons a as ih =>
    obtain ⟨b, hb⟩ := h a List.mem_cons_self
    have htail := ih fun a ha => h a (List.mem_cons_of_mem _ ha)
    rw [List.filterMap_cons_some (by rw [hb]; rfl), List.map_cons, htail]

theorem mem_latestPerRegion {p : PricePoint}
    (h : p ∈ latestPerRegion collation plan db gpu since availability) : p ∈ db.pricePoints :=
  (mem_latestInput.mp ((Order.mem_sort _).mp (mem_of_mem_distinctOn _ h))).1

theorem latestJoin_perm (collation : Collation) (plan : Plan) (db : Database) (gpu : Integer)
    (since : Instant) (availability : Option String) :
    ((latestJoin collation plan db gpu since availability).map Prod.fst).Perm
      (latestPerRegion collation plan db gpu since availability) := by
  have hjoin := map_fst_filterMap (f := fun p : PricePoint => db.provider? p.providerId)
    fun p hp => db.provider?_isSome
      (@mem_latestPerRegion collation db gpu since availability plan p hp)
  rw [← hjoin]
  exact (plan.latest.perm _).map Prod.fst

theorem chosenPrices_fst :
    (chosenPrices collation plan db gpu since availability limit).map Prod.fst
      = ((cheapestFirst collation).sort
          ((latestJoin collation plan db gpu since availability).map Prod.fst)).take limit := by
  rw [chosenPrices, List.map_take]
  exact congrArg (List.take limit) ((cheapestFirst collation).map_sort_on Prod.fst _)

/-- A row's provider is the one its price refers to. -/
theorem provider_of_mem_chosenPrices {r : PricePoint × Provider}
    (h : r ∈ chosenPrices collation plan db gpu since availability limit) :
    db.provider? r.1.providerId = some r.2 := by
  have hjoin := plan.latest.mem_apply.mp ((Order.mem_sort _).mp (List.mem_of_mem_take h))
  obtain ⟨p, -, hp⟩ := List.mem_filterMap.mp hjoin
  obtain ⟨pr, hpr, rfl⟩ := Option.map_eq_some_iff.mp hp
  exact hpr

/-- **The query is a selection**: a newest price of each group, and the cheapest of those. -/
theorem selected_chosenPrices (collation : Collation) (plan : Plan) (db : Database) (gpu : Integer)
    (since : Instant) (availability : Option String) (limit : Nat) :
    Selected PricePoint.group newestFirst (cheapestFirst collation) limit
      (matchingPrices db gpu since availability)
      ((chosenPrices collation plan db gpu since availability limit).map Prod.fst) := by
  refine ⟨latestPerRegion collation plan db gpu since availability, ?_, ?_⟩
  · have hfirst : FirstOfEach PricePoint.group (latestOrder collation)
        (matchingPrices db gpu since availability)
        (latestPerRegion collation plan db gpu since availability) :=
      firstOfEach_distinctOn (latestInput_perm plan db gpu since availability)
    exact hfirst.congr (firstRows_latestOrder collation _)
  · rw [chosenPrices_fst]
    exact topRows_take _ _ (latestJoin_perm collation plan db gpu since availability)

/-! ## The median -/

/-- **`percentile_cont(0.5)`** is the continuous median. -/
theorem isMedian_percentileCont {values : List ℚ} {m : ℚ} (h : percentileCont values = some m) :
    IsMedian values m := by
  have hperm := (Order.asc (id : ℚ → ℚ)).perm_sort values
  have hsorted := (Order.asc (id : ℚ → ℚ)).pairwise_sort values
  have hlength := hperm.length_eq
  simp only [percentileCont] at h
  rw [hlength] at h
  split at h
  · rename_i lo hi hlo hhi
    obtain rfl := Option.some.inj h
    refine ⟨_, hperm, hsorted, fun hodd => ?_, fun heven => ?_⟩
    · -- one middle value: both indices are the same
      rw [show (values.length - 1) / 2 = values.length / 2 by omega, hhi] at hlo
      obtain rfl := Option.some.inj hlo
      rw [hhi, sub_self, zero_div, add_zero]
    · have hindex : (values.length - 1) / 2 = values.length / 2 - 1 := by omega
      rw [hindex] at hlo
      exact ⟨lo, hi, hlo, hhi, by ring⟩
  · cases h

theorem exists_percentileCont {values : List ℚ} (h : values ≠ []) :
    ∃ m, percentileCont values = some m := by
  have hlength := ((Order.asc (id : ℚ → ℚ)).perm_sort values).length_eq
  have hpos := List.length_pos_iff.mpr h
  simp only [percentileCont]
  rw [List.getElem?_eq_getElem (by omega), List.getElem?_eq_getElem (by omega)]
  exact ⟨_, rfl⟩

/-- The prices of all rows in the window, whatever their availability. -/
def windowPrices (db : Database) (gpuModelId : Integer) (since : Instant) : List ℚ :=
  (db.pricePoints.filter (inWindow gpuModelId since)).map fun p => p.usdPerHour.value

/-! ## The specification -/

/-- The newest price of each group, the cheapest first, and what the limit leaves out. -/
structure NewestPerGroup (collation : Collation) (limit : Nat)
    (matching chosen omitted : List PricePoint) : Prop where
  /-- Every price is in the window and passes the filter. -/
  within : ∀ p ∈ chosen ++ omitted, p ∈ matching
  /-- No matching price of its group is newer. -/
  newest : ∀ p ∈ chosen ++ omitted, ∀ q ∈ matching, q.group = p.group → q.observedAt ≤ p.observedAt
  /-- Every group that has a matching price is there once. -/
  groups : ((chosen ++ omitted).map PricePoint.group).Perm (matching.map PricePoint.group).dedup
  length : chosen.length = min limit (matching.map PricePoint.group).dedup.length
  sorted : chosen.Pairwise (cheapestFirst collation).le
  /-- Nothing left out sorts strictly before anything returned. -/
  omitted_after : ∀ p ∈ chosen, ∀ q ∈ omitted, (cheapestFirst collation).le p q

/-- A result row shows a price, its doubles rounded. -/
structure LatestRow.Shows (fmt : FloatFormat) (db : Database) (r : LatestRow) (p : PricePoint) :
    Prop where
  provider : ∃ pr ∈ db.providers, pr.id = p.providerId ∧ r.provider = pr.name
  region : r.region = p.region
  instanceType : r.instanceType = p.instanceType
  usdPerHour : r.usdPerHour = fmt.round p.usdPerHour.value
  availability : r.availability = p.availability
  observedAt : r.observedAt = p.observedAt

/-- **What `latest_prices` is for**: the newest matching price of each group, and with each the
    median of all prices in the window. -/
structure LatestAnswer (env : Env) (db : Database) (gpuModelId : Integer) (since : Instant)
    (availability : Option String) (limit : Nat) (rows : List LatestRow) : Prop where
  chosen : ∃ chosen omitted,
    NewestPerGroup env.collation limit (matchingPrices db gpuModelId since availability) chosen
        omitted
      ∧ List.Forall₂ (LatestRow.Shows env.fmt db) rows chosen
  median : ∃ m, ∀ r ∈ rows,
    r.median30d = some (env.fmt.round m) ∧ IsMedian (windowPrices db gpuModelId since) m

/-- Every selection is as the specification says. -/
theorem newestPerGroup_of_selected {rows top : List PricePoint}
    (h : Selected PricePoint.group newestFirst (cheapestFirst collation) limit rows top) :
    ∃ omitted, NewestPerGroup collation limit rows top omitted := by
  obtain ⟨picked, hpicked, htop⟩ := h
  obtain ⟨omitted, hperm, hafter⟩ := htop.omitted
  have hfirst (p : PricePoint) (hp : p ∈ top ++ omitted) :
      p ∈ firstRows PricePoint.group newestFirst rows := hpicked.first p (hperm.mem_iff.mpr hp)
  refine ⟨omitted, fun p hp => (mem_firstRows.mp (hfirst p hp)).1,
    fun p hp => (mem_firstRows.mp (hfirst p hp)).2, ?_, ?_, htop.sorted, hafter⟩
  · exact ((hperm.map PricePoint.group).symm).trans hpicked.perm_keys
  · rw [htop.length, hpicked.length_eq]

theorem Database.mem_of_provider? {id : Integer} {pr : Provider} (h : db.provider? id = some pr) :
    pr ∈ db.providers ∧ pr.id = id :=
  ⟨List.mem_of_find?_eq_some h, by simpa using List.find?_some h⟩

theorem latestRow_shows (fmt : FloatFormat) (med : Option ℚ) {p : PricePoint} {pr : Provider}
    (h : db.provider? p.providerId = some pr) : (latestRow fmt med p pr).Shows fmt db p := by
  obtain ⟨hmem, hid⟩ := Database.mem_of_provider? h
  exact ⟨⟨pr, hmem, hid, rfl⟩, rfl, rfl, rfl, rfl, rfl⟩

/-- **The query** answers as the specification says, whatever order it meets the rows in. -/
theorem latestPricesSql_answer (env : Env) (plan : Plan) (db : Database) (gpu : Integer)
    (since : Instant) (availability : Option String) (limit : Nat) :
    LatestAnswer env db gpu since availability limit
      (latestPricesSql env.collation env.fmt plan db gpu since availability limit) where
  chosen := by
    have hselected := selected_chosenPrices env.collation plan db gpu since availability limit
    obtain ⟨omitted, hspec⟩ := newestPerGroup_of_selected hselected
    refine ⟨_, omitted, hspec, ?_⟩
    rw [latestPricesSql_eq, List.forall₂_map_left_iff, List.forall₂_map_right_iff,
      List.forall₂_same]
    intro r hr
    exact latestRow_shows env.fmt _ (provider_of_mem_chosenPrices hr)
  median := by
    by_cases hnone : windowPrices db gpu since = []
    · -- nothing in the window, so nothing is returned
      refine ⟨0, fun r hr => ?_⟩
      rw [latestPricesSql_eq] at hr
      obtain ⟨x, hx, -⟩ := List.mem_map.mp hr
      have hfirst :=
        (selected_chosenPrices env.collation plan db gpu since availability limit).first
        (List.mem_map_of_mem hx)
      have hmatching := mem_matchingPrices.mp (mem_firstRows.mp hfirst).1
      have hwindow := List.mem_filter.mpr ⟨hmatching.1, hmatching.2.1⟩
      exact absurd (List.map_eq_nil_iff.mp hnone) (List.ne_nil_of_mem hwindow)
    · obtain ⟨m, hm⟩ := exists_percentileCont hnone
      refine ⟨m, fun r hr => ⟨?_, isMedian_percentileCont hm⟩⟩
      rw [latestPricesSql_eq] at hr
      obtain ⟨x, -, rfl⟩ := List.mem_map.mp hr
      show (medianPrice db gpu since).map env.fmt.round = _
      rw [show medianPrice db gpu since = some m from hm]
      rfl

end Query

/-! ## The program -/

/-- How the program ends: the window start is computed, and the statement is answered or fails. -/
theorem run_latestPrices (env : Env) (choices : Nat → Choice) (gpuModelId windowDays : Int)
    (availability : Option String) (limit : Nat) (m : Machine) :
    (runSvc env choices (latestPrices gpuModelId windowDays availability limit) m).1
      = (minusDays (env.clock m.world.now) windowDays).bind fun since =>
        match (choices 1).dbError with
        | some e => .error (.db e)
        | none => ((Statement.latestPrices gpuModelId since (truthy availability) limit).eval env
            (choices 1).plan m.world.db).mapError Exn.db := by
  refine (runSvc_window env choices windowDays _ m).trans ?_
  congr 1
  funext since
  exact go_query_value rfl

/-- The server takes the parameters: the id fits its column, the filter has no NUL, and the limit
    fits a `BIGINT`. -/
structure SendableLatest (gpuModelId : Int) (availability : Option String)
    (limit : Nat) : Prop where
  gpuModelId : ∃ gpu, Integer.ofInt? gpuModelId = some gpu
  availability : ∀ a ∈ availability, NoNul a
  limit : limit < 9223372036854775808

section Eval

variable {env : Env} {plan : Plan} {db : Database} {gpuModelId : Int} {since : Instant}
  {availability : Option String} {limit : Nat}

theorem eval_latestPrices_ok {gpu : Integer} (hgpu : Integer.ofInt? gpuModelId = some gpu)
    (havailability : ∀ a ∈ availability, NoNul a) (hlimit : limit < 9223372036854775808) :
    (Statement.latestPrices gpuModelId since availability limit).eval env plan db
      = .ok (latestPricesSql env.collation env.fmt plan db gpu since availability limit) := by
  simp only [Statement.eval, bindInteger, hgpu, bindOption_bindText havailability, bindLimit,
    if_pos hlimit]
  rfl

theorem eval_latestPrices_error (h : ¬ SendableLatest gpuModelId availability limit) :
    (Statement.latestPrices gpuModelId since availability limit).eval env plan db
      = .error .dataError := by
  rw [Statement.eval, bindInteger]
  cases hgpu : Integer.ofInt? gpuModelId with
  | none => rfl
  | some gpu =>
    by_cases hfilter : ∀ a ∈ availability, NoNul a
    · have hlimit : ¬ limit < 9223372036854775808 := fun hlimit => h ⟨⟨gpu, hgpu⟩, hfilter, hlimit⟩
      rw [bindOption_bindText hfilter, bindLimit, if_neg hlimit]
      rfl
    · rw [bindOption_bindText_nul hfilter]
      rfl

end Eval

/-- **`latest_prices` meets its specification** on every database, whatever the server does with
    ties: it answers with the newest matching price of each group, or it raises for a window that
    begins before the first year, for a parameter the server does not take, or because the server
    failed. -/
theorem latestPrices_spec (env : Env) (choices : Nat → Choice) (gpuModelId windowDays : Int)
    (availability : Option String) (limit : Nat) (m : Machine) :
    match (runSvc env choices (latestPrices gpuModelId windowDays availability limit) m).1 with
    | .ok rows => ∃ gpu since, Integer.ofInt? gpuModelId = some gpu
        ∧ minusDays (env.clock m.world.now) windowDays = .ok since
        ∧ LatestAnswer env m.world.db gpu since (truthy availability) limit rows
    | .error e => e = .overflowError ∧ minusDays (env.clock m.world.now) windowDays = .error e
        ∨ e = .db .dataError ∧ ¬ SendableLatest gpuModelId (truthy availability) limit
        ∨ ∃ err, e = .db err ∧ (choices 1).dbError = some err := by
  rw [run_latestPrices]
  cases hsince : minusDays (env.clock m.world.now) windowDays with
  | error e => exact .inl ⟨minusDays_overflow hsince, rfl⟩
  | ok since =>
    dsimp only [Except.bind]
    cases hdb : (choices 1).dbError with
    | some err => exact .inr (.inr ⟨err, rfl, rfl⟩)
    | none =>
      by_cases hsend : SendableLatest gpuModelId (truthy availability) limit
      · obtain ⟨⟨gpu, hgpu⟩, hfilter, hlimit⟩ := hsend
        rw [eval_latestPrices_ok hgpu hfilter hlimit]
        exact ⟨gpu, since, hgpu, rfl, latestPricesSql_answer env _ m.world.db gpu since _ limit⟩
      · rw [eval_latestPrices_error hsend]
        exact .inr (.inl ⟨rfl, hsend⟩)

/-! ## What the data do not determine -/

/-- The plan that meets preferred prices first, in both of the query's sorts. -/
def Plan.preferring (P Q : PricePoint → Bool) : Plan :=
  { Plan.stored with
    prices := .ordered (.preferring P)
    latest := .ordered ((Order.preferring Q).on Prod.fst) }

section Plans

variable {collation : Collation} {db : Database} {gpu : Integer} {since : Instant}
  {availability : Option String} {limit : Nat}

/-- Ties go the way a plan prefers. -/
theorem favours_chosenPrices (collation : Collation) (P Q : PricePoint → Bool) (db : Database)
    (gpu : Integer) (since : Instant) (availability : Option String) (limit : Nat) :
    Favours PricePoint.group (latestOrder collation) (cheapestFirst collation) limit P Q
      (matchingPrices db gpu since availability)
      ((chosenPrices collation (.preferring P Q) db gpu since availability limit).map
        Prod.fst) := by
  refine ⟨latestInput (.preferring P Q) db gpu since availability,
    (latestJoin collation (.preferring P Q) db gpu since availability).map Prod.fst,
    latestInput_perm _ db gpu since availability, ?_,
    latestJoin_perm collation _ db gpu since availability, ?_, chosenPrices_fst⟩
  · exact ((Order.preferring P).pairwise_sort db.pricePoints).filter _
  · have hsort := (Order.preferring Q).map_sort_on Prod.fst
      ((latestPerRegion collation (.preferring P Q) db gpu since availability).filterMap
        fun p => (db.provider? p.providerId).map fun pr => (p, pr))
    show List.Pairwise _ (List.map Prod.fst (((Order.preferring Q).on Prod.fst).sort _))
    rw [hsort]
    exact (Order.preferring Q).pairwise_sort _

/-- A price is its natural key's only price. -/
theorem Database.eq_of_key_eq (db : Database) {p q : PricePoint} (hp : p ∈ db.pricePoints)
    (hq : q ∈ db.pricePoints) (h : p.key = q.key) : p = q := by
  have hnodup := db.constraints.uq_price_observation
  rw [Tables.priceValues, List.map_map] at hnodup
  exact List.inj_on_of_nodup_map hnodup hp hq h

/-- A provider is its name's only provider. -/
theorem Database.provider_eq_of_name_eq (db : Database) {p q : Provider} (hp : p ∈ db.providers)
    (hq : q ∈ db.providers) (h : p.name = q.name) : p = q :=
  List.inj_on_of_nodup_map db.constraints.providers_name_key hp hq h

/-- Among the prices of a GPU the columns of a returned row tell which price it is. -/
theorem latestRow_inj {fmt : FloatFormat} {med : Option ℚ} {p q : PricePoint} {pr pr' : Provider}
    (hp : p ∈ matchingPrices db gpu since availability)
    (hq : q ∈ matchingPrices db gpu since availability)
    (hpr : db.provider? p.providerId = some pr) (hpr' : db.provider? q.providerId = some pr')
    (h : latestRow fmt med p pr = latestRow fmt med q pr') : p = q := by
  obtain ⟨hname, hregion, hinstance, -, -, hobserved, -⟩ := LatestRow.mk.inj h
  obtain ⟨hpmem, hpwindow, -⟩ := mem_matchingPrices.mp hp
  obtain ⟨hqmem, hqwindow, -⟩ := mem_matchingPrices.mp hq
  obtain ⟨hprmem, hprid⟩ := Database.mem_of_provider? hpr
  obtain ⟨hprmem', hprid'⟩ := Database.mem_of_provider? hpr'
  have hprovider : p.providerId = q.providerId := by
    rw [← hprid, ← hprid', db.provider_eq_of_name_eq hprmem hprmem' hname]
  have hgpu : p.gpuModelId = q.gpuModelId := by
    rw [(of_decide_eq_true hpwindow).1, (of_decide_eq_true hqwindow).1]
  refine db.eq_of_key_eq hpmem hqmem ?_
  rw [PriceValues.key, PriceValues.key, hgpu, hprovider, hregion, hinstance, hobserved]

/-- Equal images have equal images under whatever the first map determines. -/
theorem map_eq_of_map_eq {α β γ : Type} {f : α → β} {g : α → γ} {as bs : List α}
    (h : as.map f = bs.map f) (hfg : ∀ a ∈ as, ∀ b ∈ bs, f a = f b → g a = g b) :
    as.map g = bs.map g := by
  induction as generalizing bs with
  | nil => rw [List.map_eq_nil_iff.mp h.symm]
  | cons a as ih =>
    cases bs with
    | nil => cases h
    | cons b bs =>
      obtain ⟨hhead, htail⟩ := List.cons.inj h
      rw [List.map_cons, List.map_cons, hfg a List.mem_cons_self b List.mem_cons_self hhead,
        ih htail fun a ha b hb => hfg a (List.mem_cons_of_mem _ ha) b (List.mem_cons_of_mem _ hb)]

/-- Two plans that return the same rows choose the same prices. -/
theorem chosenPrices_eq_of_sql_eq {fmt : FloatFormat} {plan₁ plan₂ : Plan}
    (h : latestPricesSql collation fmt plan₁ db gpu since availability limit
      = latestPricesSql collation fmt plan₂ db gpu since availability limit) :
    (chosenPrices collation plan₁ db gpu since availability limit).map Prod.fst
      = (chosenPrices collation plan₂ db gpu since availability limit).map Prod.fst := by
  have hmatching (plan : Plan) (r : PricePoint × Provider)
      (hr : r ∈ chosenPrices collation plan db gpu since availability limit) :
      r.1 ∈ matchingPrices db gpu since availability :=
    (mem_firstRows.mp ((selected_chosenPrices collation plan db gpu since availability limit).first
      (List.mem_map_of_mem hr))).1
  rw [latestPricesSql_eq, latestPricesSql_eq] at h
  refine map_eq_of_map_eq h fun a ha b hb hab => ?_
  exact latestRow_inj (hmatching _ a ha) (hmatching _ b hb) (provider_of_mem_chosenPrices ha)
    (provider_of_mem_chosenPrices hb) hab

/-- **The query is determined** by the data exactly when no price it can return has a rival: a
    newest price of its own group, or one of another group with the same price and region. -/
theorem latestPricesSql_determined (collation : Collation) (fmt : FloatFormat) (db : Database)
    (gpu : Integer) (since : Instant) (availability : Option String) (limit : Nat) :
    (∀ plan₁ plan₂, latestPricesSql collation fmt plan₁ db gpu since availability limit
        = latestPricesSql collation fmt plan₂ db gpu since availability limit)
      ↔ Determined PricePoint.group newestFirst (cheapestFirst collation) limit
          (matchingPrices db gpu since availability) := by
  constructor
  · intro h
    by_contra hdet
    rw [← determined_congr (firstRows_latestOrder collation _)] at hdet
    obtain ⟨P₁, Q₁, P₂, Q₂, hne⟩ := exists_selected_ne hdet
    have h₁ := favours_chosenPrices collation P₁ Q₁ db gpu since availability limit
    have h₂ := favours_chosenPrices collation P₂ Q₂ db gpu since availability limit
    rw [chosenPrices_eq_of_sql_eq (h (.preferring P₁ Q₁) (.preferring P₂ Q₂))] at h₁
    exact hne _ h₁ h₂
  · intro hdet plan₁ plan₂
    have hfst := selected_unique hdet
      (selected_chosenPrices collation plan₁ db gpu since availability limit)
      (selected_chosenPrices collation plan₂ db gpu since availability limit)
    rw [latestPricesSql_eq, latestPricesSql_eq]
    refine map_eq_of_map_eq hfst fun a ha b hb hab => ?_
    have ha' := provider_of_mem_chosenPrices ha
    rw [hab, provider_of_mem_chosenPrices hb] at ha'
    rw [hab, Option.some.inj ha']

end Plans

/-- **`latest_prices` is determined by the data** exactly when, for a request the server takes, no
    price that can be returned has a rival. -/
theorem latestPrices_determined (env : Env) (gpuModelId windowDays : Int)
    (availability : Option String) (limit : Nat) (m : Machine) :
    (∀ choices₁ choices₂ : Nat → Choice,
        (∀ n, (choices₁ n).dbError = none) → (∀ n, (choices₂ n).dbError = none) →
        (runSvc env choices₁ (latestPrices gpuModelId windowDays availability limit) m).1
          = (runSvc env choices₂ (latestPrices gpuModelId windowDays availability limit) m).1)
      ↔ ∀ gpu since, Integer.ofInt? gpuModelId = some gpu →
          minusDays (env.clock m.world.now) windowDays = .ok since →
          SendableLatest gpuModelId (truthy availability) limit →
          Determined PricePoint.group newestFirst (cheapestFirst env.collation) limit
            (matchingPrices m.world.db gpu since (truthy availability)) := by
  simp only [run_latestPrices]
  constructor
  · intro h gpu since hgpu hsince hsend
    refine (latestPricesSql_determined env.collation env.fmt m.world.db gpu since _ limit).mp
      fun plan₁ plan₂ => ?_
    have heq := h (fun _ => { Choice.calm with plan := plan₁ })
      (fun _ => { Choice.calm with plan := plan₂ }) (fun _ => rfl) (fun _ => rfl)
    rw [hsince] at heq
    dsimp only [Except.bind, Choice.calm] at heq
    rw [eval_latestPrices_ok hgpu hsend.availability hsend.limit,
      eval_latestPrices_ok hgpu hsend.availability hsend.limit] at heq
    exact Except.ok.inj heq
  · intro h choices₁ choices₂ hdb₁ hdb₂
    cases hsince : minusDays (env.clock m.world.now) windowDays with
    | error e => rfl
    | ok since =>
      dsimp only [Except.bind]
      rw [hdb₁ 1, hdb₂ 1]
      dsimp only
      by_cases hsend : SendableLatest gpuModelId (truthy availability) limit
      · obtain ⟨gpu, hgpu⟩ := hsend.gpuModelId
        rw [eval_latestPrices_ok hgpu hsend.availability hsend.limit,
          eval_latestPrices_ok hgpu hsend.availability hsend.limit,
          (latestPricesSql_determined env.collation env.fmt m.world.db gpu since _ limit).mpr
            (h gpu since hgpu hsince hsend) (choices₁ 1).plan (choices₂ 1).plan]
      · rw [eval_latestPrices_error hsend, eval_latestPrices_error hsend]

/-- The plan that meets the prices in reverse. -/
def Plan.reversed : Plan := { Plan.stored with prices := ⟨List.reverse, List.reverse_perm⟩ }

/-- `latest_prices` on two instance types observed at one time. -/
def latestOfTwins (plan : Plan) : Except Exn (List LatestRow) :=
  (runSvc env (fun _ => { Choice.calm with plan := plan }) (latestPrices 1 30 none 200)
    ⟨worldOf (priced pricesOf_twins), {}⟩).1

theorem latestOfTwins_types :
    (latestOfTwins .stored).map (fun rows => rows.map fun r => r.instanceType.val)
        = .ok ["aws-h100-8x"]
      ∧ (latestOfTwins .reversed).map (fun rows => rows.map fun r => r.instanceType.val)
        = .ok ["aws-h100-1x"] := by
  constructor <;> with_unfolding_all rfl

theorem latestPrices_undetermined : latestOfTwins .stored ≠ latestOfTwins .reversed := by
  intro h
  have htypes := latestOfTwins_types.1
  rw [h, latestOfTwins_types.2] at htypes
  exact absurd (List.cons.inj (Except.ok.inj htypes)).1 (by decide)

end GpuIndex
