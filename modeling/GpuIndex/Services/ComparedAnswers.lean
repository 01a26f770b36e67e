/-
  Two answers from one table.

  SPECIFICATION.  A wider window shows what a narrower one shows, and besides the groups that were
  last observed before the narrower one began.  The index ranks a GPU by its cheapest offer of the
  window, the price summary begins with its cheapest offer that is still the newest of its group:
  the first never exceeds the second.  The two are sure to be equal exactly if some group has no
  newest offer that is dearer, and can be equal exactly if some newest offer is cheapest.

  The crux is `FirstOfEach.since`: what is picked of a group from a wider window is inside the
  narrower one, or the whole group is outside of it.
-/
import GpuIndex.Services.LatestPrices
import GpuIndex.Services.Ranking

namespace GpuIndex

open Calendar OrderBy
open JsonText (FloatFormat)

section Runs

variable {env : Env} {choices choices' : Nat → Choice} {gpuModelId days days' : Int}
  {availability : Option String} {limit : Nat} {m : Machine} {rows rows' : List LatestRow}

/-- A run of `latest_prices` that answers has run its query. -/
theorem latestPrices_ok
    (h : (runSvc env choices (latestPrices gpuModelId days availability limit) m).1
      = .ok rows) : ∃ gpu since plan, Integer.ofInt? gpuModelId = some gpu
        ∧ minusDays (env.clock m.world.now) days = .ok since
        ∧ rows = latestPricesSql env.collation env.fmt plan m.world.db gpu since
            (truthy availability) limit := by
  rw [run_latestPrices] at h
  obtain ⟨since, hsince, h⟩ := bind_ok h
  split at h
  · cases h
  · by_cases hsend : SendableLatest gpuModelId (truthy availability) limit
    · obtain ⟨gpu, hgpu⟩ := hsend.gpuModelId
      rw [eval_latestPrices_ok hgpu hsend.availability hsend.limit] at h
      exact ⟨gpu, since, _, hgpu, hsince, (Except.ok.inj h).symm⟩
    · rw [eval_latestPrices_error hsend] at h
      cases h

/-- A run of `compute_index` that answers has run its query. -/
theorem computeIndex_ok {workload : String} {precision : Option String} {ranking : List IndexRow}
    (h : (runSvc env choices (computeIndex workload precision days limit) m).1 = .ok ranking) :
    ∃ since plan, minusDays (env.clock m.world.now) days = .ok since
      ∧ ranking = indexSql env.fmt plan m.world.db workload precision since limit := by
  rw [run_computeIndex] at h
  obtain ⟨since, hsince, h⟩ := bind_ok h
  split at h
  · cases h
  · by_cases hsend : SendableIndex workload precision limit
    · rw [eval_index_ok hsend] at h
      exact ⟨since, _, hsince, (Except.ok.inj h).symm⟩
    · rw [eval_index_error hsend] at h
      cases h

/-! ## Two windows -/

/-- A longer window begins earlier. -/
theorem minusDays_antitone {now since since' : Instant} (hdays : days ≤ days')
    (h : minusDays now days = .ok since) (h' : minusDays now days' = .ok since') :
    since' ≤ since := by
  unfold minusDays at h h'
  split at h
  · split at h'
    · cases h
      cases h'
      have hmicros : days * dayMicros ≤ days' * dayMicros :=
        mul_le_mul_of_nonneg_right hdays (Int.natCast_nonneg dayMicros)
      show Int.toNat _ ≤ Int.toNat _
      omega
    · cases h'
  · cases h

/-- What a returned row is an observation of: its provider, its region and its time. -/
def LatestRow.seen (r : LatestRow) : Varchar 64 × Varchar 32 × Instant :=
  (r.provider, r.region, r.observedAt)

/-- A returned row but for the median, which is that of the window. -/
def LatestRow.withoutMedian (r : LatestRow) : LatestRow := { r with median30d := none }

/-- The newest prices of each group, of those a request is about. -/
def newestPrices (db : Database) (gpu : Integer) (since : Instant) (availability : Option String) :
    List PricePoint :=
  firstRows PricePoint.group newestFirst (matchingPrices db gpu since availability)

section Windows

variable {db : Database} {gpu : Integer} {since since' : Instant} {availability : Option String}

/-- What the rows show in columns that do not depend on the window, from the prices that were
    chosen. -/
theorem map_columns {γ : Type} {fmt : FloatFormat} {column : LatestRow → γ}
    {shown : PricePoint → Provider → γ}
    (h : ∀ med p pr, column (latestRow fmt med p pr) = shown p pr) (collation : Collation)
    (plan : Plan) (db : Database) (gpu : Integer) (since : Instant) (availability : Option String)
    (limit : Nat) (P : Instant → Bool) :
    (((latestPricesSql collation fmt plan db gpu since availability limit).filter
          fun r => P r.observedAt).map column).map some
      = (((chosenPrices collation plan db gpu since availability limit).map Prod.fst).filter
          fun p => P p.observedAt).map fun p => (db.provider? p.providerId).map (shown p) := by
  rw [latestPricesSql_eq, List.filter_map, List.filter_map, List.map_map,
    List.map_map, List.map_map]
  refine List.map_congr_left fun r hr => ?_
  have hpr := provider_of_mem_chosenPrices (List.mem_of_mem_filter hr)
  show some (column (latestRow fmt _ r.1 r.2)) = (db.provider? r.1.providerId).map (shown r.1)
  rw [hpr, h]
  rfl

theorem matchingPrices_since (hle : since' ≤ since) :
    matchingPrices db gpu since availability
      = (matchingPrices db gpu since' availability).filter fun p => since ≤ p.observedAt := by
  rw [matchingPrices, matchingPrices, List.filter_filter]
  refine List.filter_congr fun p _ => ?_
  have hwindow :
      inWindow gpu since p = (decide (since ≤ p.observedAt) && inWindow gpu since' p) := by
    by_cases h : since ≤ p.observedAt
    · simp [inWindow, h, hle.trans h]
    · simp [inWindow, h]
  rw [hwindow]
  simp [and_assoc]

variable {collation : Collation} {plan' : Plan} {limit : Nat}

/-- A wider window that shows all of its groups shows those of the narrower one, which then shows
    all of its own. -/
theorem firstOfEach_windows (plan : Plan) (hle : since' ≤ since)
    (hall : (chosenPrices collation plan' db gpu since' availability limit).length < limit) :
    FirstOfEach PricePoint.group newestFirst (matchingPrices db gpu since availability)
        ((chosenPrices collation plan db gpu since availability limit).map Prod.fst)
      ∧ FirstOfEach PricePoint.group newestFirst (matchingPrices db gpu since availability)
        (((chosenPrices collation plan' db gpu since' availability limit).map Prod.fst).filter
          fun p => since ≤ p.observedAt) := by
  have hwide := selected_chosenPrices collation plan' db gpu since' availability limit
  have hnarrow := selected_chosenPrices collation plan db gpu since availability limit
  have hkeys := hwide.keys_le (by rwa [List.length_map])
  rw [matchingPrices_since hle] at hnarrow ⊢
  have hfewer := (keys_length_le PricePoint.group ((List.filter_sublist
    (p := fun p : PricePoint => decide (since ≤ p.observedAt))).subset)).trans hkeys
  exact ⟨hnarrow.firstOfEach hfewer, (hwide.firstOfEach hkeys).since⟩

/-- The rows agree in columns that come of the prices alone as the prices do. -/
theorem perm_columns {γ : Type} {fmt : FloatFormat} {plan : Plan} {column : LatestRow → γ}
    {shown : PricePoint → Provider → γ}
    (h : ∀ med p pr, column (latestRow fmt med p pr) = shown p pr)
    (hperm : (((chosenPrices collation plan db gpu since availability limit).map Prod.fst).map
          fun p => (db.provider? p.providerId).map (shown p)).Perm
        ((((chosenPrices collation plan' db gpu since' availability limit).map Prod.fst).filter
          fun p => since ≤ p.observedAt).map
            fun p => (db.provider? p.providerId).map (shown p))) :
    ((latestPricesSql collation fmt plan db gpu since availability limit).map column).Perm
      (((latestPricesSql collation fmt plan' db gpu since' availability limit).filter
        fun r => since ≤ r.observedAt).map column) := by
  have hshown := map_columns h collation plan db gpu since availability limit fun _ => true
  have hshown' := map_columns h collation plan' db gpu since' availability limit
    fun t => since ≤ t
  rw [List.filter_true, List.filter_true] at hshown
  refine (List.map_perm_map_iff (Option.some_injective γ)).mp ?_
  rw [hshown, hshown']
  exact hperm

end Windows

end Runs

/-- **A wider window** shows of each provider and region the observation the narrower one shows, or
    one of the same time, and besides those that were last observed before the narrower window
    began.  Where no newest price of a group has a rival the rows are the same but for their
    medians. -/
theorem wider_window (env : Env) (choices choices' : Nat → Choice) (gpuModelId days days' : Int)
    (availability : Option String) (limit : Nat) (m : Machine) (hdays : days ≤ days')
    {rows rows' : List LatestRow}
    (hrows : (runSvc env choices (latestPrices gpuModelId days availability limit) m).1 = .ok rows)
    (hrows' : (runSvc env choices' (latestPrices gpuModelId days' availability limit) m).1
      = .ok rows')
    (hall : rows'.length < limit) :
    ∃ gpu since, Integer.ofInt? gpuModelId = some gpu
      ∧ minusDays (env.clock m.world.now) days = .ok since
      ∧ (rows.map LatestRow.seen).Perm
          ((rows'.filter fun r => since ≤ r.observedAt).map LatestRow.seen)
      ∧ ((∀ p ∈ newestPrices m.world.db gpu since (truthy availability),
            ∀ q ∈ newestPrices m.world.db gpu since (truthy availability),
              q.group = p.group → q = p) →
          (rows.map LatestRow.withoutMedian).Perm
            ((rows'.filter fun r => since ≤ r.observedAt).map LatestRow.withoutMedian)) := by
  obtain ⟨gpu, since, plan, hgpu, hsince, rfl⟩ := latestPrices_ok hrows
  obtain ⟨gpu', since', plan', hgpu', hsince', rfl⟩ := latestPrices_ok hrows'
  obtain rfl := Option.some.inj (hgpu.symm.trans hgpu')
  have hle : since' ≤ since := minusDays_antitone hdays hsince hsince'
  rw [latestPricesSql_eq, List.length_map] at hall
  obtain ⟨hpicked, hinside⟩ := firstOfEach_windows plan hle hall
  have hseen (med : Option ℚ) (p : PricePoint) (pr : Provider) :
      (latestRow env.fmt med p pr).seen = (pr.name, p.region, p.observedAt) := rfl
  have hplain (med : Option ℚ) (p : PricePoint) (pr : Provider) :
      (latestRow env.fmt med p pr).withoutMedian = latestRow env.fmt none p pr := rfl
  refine ⟨gpu, since, hgpu, hsince, perm_columns hseen ?_, fun halone => perm_columns hplain ?_⟩
  · -- what is seen of a price comes of its group and its time
    have hcolumns (prices : List PricePoint) :
        (prices.map fun p => (p.group, p.observedAt)).map (fun e =>
            (m.world.db.provider? e.1.1).map fun pr => (pr.name, e.1.2, e.2))
          = prices.map fun p =>
            (m.world.db.provider? p.providerId).map fun pr => (pr.name, p.region, p.observedAt) :=
      List.map_map
    rw [← hcolumns, ← hcolumns]
    exact (hpicked.perm_times hinside).map _
  · exact (hpicked.perm_of_alone hinside halone).map _

/-- The latest prices of the market's first GPU over some days. -/
def latestOfMarket (days : Int) : Except Exn (List LatestRow) :=
  (runSvc env (fun _ => .calm) (latestPrices 1 days (some "available") 200)
    ⟨worldOf market, {}⟩).1

/-- Its newest offer at the provider that superseded one, with a median. -/
def awsRow (median : ℚ) : LatestRow :=
  latestRow halves (some median) h100New aws

/-- Its offer of ten days before. -/
def gcpRow : LatestRow := latestRow halves (some (5 / 2)) h100Gcp gcp

theorem latestOfMarket_week : latestOfMarket 7 = .ok [awsRow (9 / 4)] := by with_unfolding_all rfl

def marketMonth : List LatestRow := [awsRow (5 / 2), gcpRow]

theorem latestOfMarket_month : latestOfMarket 30 = .ok marketMonth := by with_unfolding_all rfl

theorem wider_window_market : ∃ gpu since, Integer.ofInt? 1 = some gpu
    ∧ minusDays newYear 7 = .ok since
    ∧ ([awsRow (9 / 4)].map LatestRow.seen).Perm
        ((marketMonth.filter fun r => since ≤ r.observedAt).map LatestRow.seen)
    ∧ ((∀ p ∈ newestPrices market gpu since (some "available"),
          ∀ q ∈ newestPrices market gpu since (some "available"), q.group = p.group → q = p) →
        ([awsRow (9 / 4)].map LatestRow.withoutMedian).Perm
          ((marketMonth.filter fun r => since ≤ r.observedAt).map LatestRow.withoutMedian)) :=
  wider_window env _ _ 1 7 30 (some "available") 200 ⟨worldOf market, {}⟩ (by decide)
    latestOfMarket_week latestOfMarket_month (by decide)

/-! ## The index and the prices -/

theorem matchingPrices_available (db : Database) (gpu : Integer) (since : Instant) :
    matchingPrices db gpu since (some "available") = offersOf db since gpu := by
  refine List.filter_congr fun p _ => ?_
  simp [inWindow, matchesAvailability, and_assoc]

/-- The first row of an answer shows an offer at this price. -/
def BeginsWith (fmt : FloatFormat) (db : Database) (offers : List PricePoint)
    (rows : List LatestRow) (price : ℚ) : Prop :=
  ∃ row p, rows.head? = some row ∧ row.Shows fmt db p ∧ p ∈ offers ∧ p.usdPerHour.value = price

section Offers

variable {collation : Collation} {fmt : FloatFormat} {db : Database} {gpu : Integer}
    {since : Instant} {limit : Nat} {best : ℚ} {plan : Plan}

/-- The price and provider a row was made of are the only ones it shows. -/
theorem LatestRow.Shows.eq {availability : Option String} {med : Option ℚ} {p q : PricePoint}
    {pr : Provider} (hp : p ∈ matchingPrices db gpu since availability)
    (hq : q ∈ matchingPrices db gpu since availability)
    (hpr : db.provider? p.providerId = some pr) (h : (latestRow fmt med p pr).Shows fmt db q) :
    q = p := by
  obtain ⟨pr', hmem', hid', hname⟩ := h.provider
  obtain ⟨hmem, hid⟩ := Database.mem_of_provider? hpr
  obtain rfl : pr = pr' := db.provider_eq_of_name_eq hmem hmem' hname
  obtain ⟨hpmem, hpwindow, -⟩ := mem_matchingPrices.mp hp
  obtain ⟨hqmem, hqwindow, -⟩ := mem_matchingPrices.mp hq
  have hgpu : q.gpuModelId = p.gpuModelId := by
    rw [(of_decide_eq_true hpwindow).1, (of_decide_eq_true hqwindow).1]
  have hprovider : q.providerId = p.providerId := hid'.symm.trans hid
  have hregion : q.region = p.region := h.region.symm
  have hinstance : q.instanceType = p.instanceType := h.instanceType.symm
  have hobserved : q.observedAt = p.observedAt := h.observedAt.symm
  refine db.eq_of_key_eq hqmem hpmem ?_
  rw [PriceValues.key, PriceValues.key, hgpu, hprovider, hregion, hinstance, hobserved]

/-- With an offer there is a first row, and it shows one of the newest offers of a group. -/
theorem exists_first (hlimit : limit ≠ 0) (hsome : offersOf db since gpu ≠ []) :
    ∃ c top, Selected PricePoint.group newestFirst (cheapestFirst collation) limit
        (offersOf db since gpu) (c :: top)
      ∧ (chosenPrices collation plan db gpu since (some "available") limit).map Prod.fst = c :: top
      ∧ c ∈ newestPrices db gpu since (some "available")
      ∧ ∀ price, BeginsWith fmt db (offersOf db since gpu)
          (latestPricesSql collation fmt plan db gpu since (some "available") limit) price
            ↔ c.usdPerHour.value = price := by
  have hselected := selected_chosenPrices collation plan db gpu since (some "available") limit
  cases hchosen : chosenPrices collation plan db gpu since (some "available") limit with
  | nil =>
    obtain ⟨p, hp⟩ := List.exists_mem_of_ne_nil _ hsome
    have hnil : latestPricesSql collation fmt plan db gpu since (some "available") limit = [] := by
      rw [latestPricesSql_eq, hchosen]
      rfl
    obtain ⟨hmem, hgpu, hwindow, havailable⟩ := mem_offersOf.mp hp
    refine absurd ?_ ((latestPricesSql_eq_nil hlimit).mp hnil p hmem
      (decide_eq_true ⟨hgpu, hwindow⟩))
    exact decide_eq_true havailable
  | cons c rest =>
    rw [hchosen, List.map_cons] at hselected
    have hnewest := hselected.first List.mem_cons_self
    have hpr : db.provider? c.1.providerId = some c.2 :=
      provider_of_mem_chosenPrices (hchosen ▸ List.mem_cons_self)
    refine ⟨c.1, rest.map Prod.fst, ?_, rfl, hnewest, fun price => ?_⟩
    · rwa [matchingPrices_available] at hselected
    · rw [latestPricesSql_eq, hchosen]
      constructor
      · rintro ⟨row, p, hrow, hshows, hp, rfl⟩
        obtain rfl := Option.some.inj hrow
        rw [← matchingPrices_available] at hp
        rw [hshows.eq (mem_firstRows.mp hnewest).1 hp hpr]
      · rintro rfl
        have hoffer := (mem_firstRows.mp hnewest).1
        rw [matchingPrices_available] at hoffer
        exact ⟨_, c.1, rfl, latestRow_shows fmt _ hpr, hoffer, rfl⟩

theorem price_le_of_cheapestFirst {p q : PricePoint} (h : (cheapestFirst collation).le p q) :
    p.usdPerHour.value ≤ q.usdPerHour.value := h.1

variable (hlimit : limit ≠ 0) (hsome : offersOf db since gpu ≠ [])
  (hleast : ∀ p ∈ offersOf db since gpu, best ≤ p.usdPerHour.value)

include hlimit hsome hleast

/-- Every answer begins with the least price exactly if a group has no newest offer that is
    dearer. -/
theorem always_begins_iff :
    (∀ plan, BeginsWith fmt db (offersOf db since gpu)
        (latestPricesSql collation fmt plan db gpu since (some "available") limit) best)
      ↔ ∃ p ∈ newestPrices db gpu since (some "available"),
          ∀ q ∈ newestPrices db gpu since (some "available"), q.group = p.group →
            q.usdPerHour.value = best := by
  constructor
  · intro h
    by_contra hdearer
    push Not at hdearer
    -- dearer newest offers are met first, and so chosen
    let P : PricePoint → Bool := fun p => best < p.usdPerHour.value
    obtain ⟨c, top, -, hchosen, hnewest, hbegins⟩ :=
      @exists_first collation fmt db gpu since limit (.preferring P P) hlimit hsome
    obtain ⟨q, hq, hgroup, hne⟩ := hdearer c hnewest
    have hqoffer := (mem_firstRows.mp hq).1
    rw [matchingPrices_available] at hqoffer
    have hfavours := favours_chosenPrices collation P P db gpu since (some "available") limit
    rw [hchosen] at hfavours
    have hP : P c := hfavours.preferred List.mem_cons_self
      (by rw [firstRows_latestOrder]; exact hq) hgroup
      (decide_eq_true (lt_of_le_of_ne (hleast q hqoffer) hne.symm))
    exact absurd ((hbegins best).mp (h (.preferring P P))) (of_decide_eq_true hP).ne'
  · rintro ⟨p, hp, hall⟩ plan
    obtain ⟨c, top, hselected, -, hnewest, hbegins⟩ :=
      @exists_first collation fmt db gpu since limit plan hlimit hsome
    have hpoffer := (mem_firstRows.mp hp).1
    have hcoffer := (mem_firstRows.mp hnewest).1
    rw [matchingPrices_available] at hpoffer hcoffer
    obtain ⟨q, hq, hgroup, hle⟩ := hselected.head_le hpoffer
    rw [← matchingPrices_available] at hq
    refine (hbegins best).mpr (le_antisymm ?_ (hleast c hcoffer))
    rw [← hall q hq hgroup]
    exact price_le_of_cheapestFirst hle

/-- Some answer begins with the least price exactly if some newest offer has it. -/
theorem sometimes_begins_iff :
    (∃ plan, BeginsWith fmt db (offersOf db since gpu)
        (latestPricesSql collation fmt plan db gpu since (some "available") limit) best)
      ↔ ∃ p ∈ newestPrices db gpu since (some "available"), p.usdPerHour.value = best := by
  constructor
  · rintro ⟨plan, h⟩
    obtain ⟨c, top, -, -, hnewest, hbegins⟩ :=
      @exists_first collation fmt db gpu since limit plan hlimit hsome
    exact ⟨c, hnewest, (hbegins best).mp h⟩
  · rintro ⟨p, hp, heq⟩
    let P : PricePoint → Bool := fun q => q.usdPerHour.value = best
    obtain ⟨c, top, -, hchosen, hnewest, hbegins⟩ :=
      @exists_first collation fmt db gpu since limit (.preferring P P) hlimit hsome
    have hcoffer := (mem_firstRows.mp hnewest).1
    rw [matchingPrices_available] at hcoffer
    have hfavours := favours_chosenPrices collation P P db gpu since (some "available") limit
    rw [hchosen] at hfavours
    obtain ⟨b, hb, hle⟩ := hfavours.head_le (by rw [firstRows_latestOrder]; exact hp)
      (decide_eq_true heq)
    refine ⟨.preferring P P, (hbegins best).mpr (le_antisymm ?_ (hleast c hcoffer))⟩
    rw [← of_decide_eq_true hb]
    exact price_le_of_cheapestFirst hle

end Offers

/-- A request that is answered once is answered with what its query returns under some plan, and
    under every plan there is a run that is. -/
theorem run_latestPrices_iff {env : Env} {choices : Nat → Choice} {gpuModelId days : Int}
    {availability : Option String} {limit : Nat} {m : Machine} {rows : List LatestRow}
    {gpu : Integer} {since : Instant}
    (h : (runSvc env choices (latestPrices gpuModelId days availability limit) m).1 = .ok rows)
    (hgpu : Integer.ofInt? gpuModelId = some gpu)
    (hsince : minusDays (env.clock m.world.now) days = .ok since) (rows' : List LatestRow) :
    (∃ choices, (runSvc env choices (latestPrices gpuModelId days availability limit) m).1
        = .ok rows')
      ↔ ∃ plan, rows' = latestPricesSql env.collation env.fmt plan m.world.db gpu since
          (truthy availability) limit := by
  constructor
  · rintro ⟨choices, h⟩
    obtain ⟨gpu', since', plan, hgpu', hsince', rfl⟩ := latestPrices_ok h
    obtain rfl := Option.some.inj (hgpu'.symm.trans hgpu)
    obtain rfl := Except.ok.inj (hsince'.symm.trans hsince)
    exact ⟨plan, rfl⟩
  · rintro ⟨plan, rfl⟩
    have hsend : SendableLatest gpuModelId (truthy availability) limit := by
      by_contra hsend
      rw [run_latestPrices] at h
      obtain ⟨since', -, h⟩ := bind_ok h
      split at h
      · cases h
      · rw [eval_latestPrices_error hsend] at h
        cases h
    refine ⟨fun _ => { Choice.calm with plan := plan }, ?_⟩
    rw [run_latestPrices, hsince]
    dsimp only [Except.bind, Choice.calm]
    rw [eval_latestPrices_ok hgpu hsend.availability hsend.limit]
    rfl

/-- **The index against the prices** of available capacity over the same days: the price a GPU is
    ranked by is its least offer, and no summary begins below it.  Every summary begins with it
    exactly if some group has no newest offer that is dearer, and some summary does exactly if some
    newest offer has it; the two differ where offers of a group tie for the newest. -/
theorem index_against_prices (env : Env) (choices choices' : Nat → Choice) (workload : String)
    (precision : Option String) (days gpuModelId : Int) (limit limit' : Nat) (m : Machine)
    {ranking : List IndexRow} {rows : List LatestRow}
    (hranking : (runSvc env choices (computeIndex workload precision days limit) m).1 = .ok ranking)
    (hrows : (runSvc env choices' (latestPrices gpuModelId days (some "available") limit') m).1
      = .ok rows) (hlimit : limit' ≠ 0) {e : IndexRow} (he : e ∈ ranking) {g : GpuModel}
    (hg : g ∈ m.world.db.gpuModels) (hname : g.modelName = e.gpuModel)
    (hid : Integer.ofInt? gpuModelId = some g.id) :
    ∃ since best, minusDays (env.clock m.world.now) days = .ok since
      ∧ e.bestUsdPerHour = env.fmt.round best
      ∧ IsLeast {x | ∃ p ∈ offersOf m.world.db since g.id, x = p.usdPerHour.value} best
      ∧ (∃ price, BeginsWith env.fmt m.world.db (offersOf m.world.db since g.id) rows price
          ∧ best ≤ price)
      ∧ ((∀ choices rows,
            (runSvc env choices (latestPrices gpuModelId days (some "available") limit') m).1
                = .ok rows →
              BeginsWith env.fmt m.world.db (offersOf m.world.db since g.id) rows best)
          ↔ ∃ p ∈ newestPrices m.world.db g.id since (some "available"),
              ∀ q ∈ newestPrices m.world.db g.id since (some "available"), q.group = p.group →
                q.usdPerHour.value = best)
      ∧ ((∃ choices rows,
            (runSvc env choices (latestPrices gpuModelId days (some "available") limit') m).1
                = .ok rows
              ∧ BeginsWith env.fmt m.world.db (offersOf m.world.db since g.id) rows best)
          ↔ ∃ p ∈ newestPrices m.world.db g.id since (some "available"),
              p.usdPerHour.value = best) := by
  obtain ⟨gpu, since, plan, hgpu, hsince, hrun⟩ := latestPrices_ok hrows
  obtain ⟨since', plan', hsince', rfl⟩ := computeIndex_ok hranking
  obtain rfl := Except.ok.inj (hsince.symm.trans hsince')
  obtain rfl := Option.some.inj (hgpu.symm.trans hid)
  obtain ⟨r, hr, rfl⟩ := List.mem_map.mp he
  have hjoined : JoinedRow plan' m.world.db workload precision since r :=
    joinedRow_of_mem (plan'.ranked.mem_apply.mp ((Order.mem_sort _).mp (List.mem_of_mem_take hr)))
  obtain rfl : g = r.2.2.1 :=
    List.inj_on_of_nodup_map m.world.db.constraints.gpu_models_model_name_key hg hjoined.model hname
  have hgpuId : r.2.1.gpuModelId = r.2.2.1.id := hjoined.sameGpu.trans hjoined.modelId.symm
  have hoffer := mem_offersOf_bestPrice hjoined.price
  have hleast : ∀ p ∈ offersOf m.world.db since r.2.2.1.id,
      r.2.1.usdPerHour.value ≤ p.usdPerHour.value := fun p hp =>
    bestPrice_le hjoined.price (by rwa [hgpuId])
  rw [hgpuId] at hoffer
  have hsome := List.ne_nil_of_mem hoffer
  have hruns := run_latestPrices_iff hrows hid hsince
  refine ⟨since, r.2.1.usdPerHour.value, hsince, rfl, ⟨⟨r.2.1, hoffer, rfl⟩, ?_⟩, ?_, ?_, ?_⟩
  · rintro x ⟨p, hp, rfl⟩
    exact hleast p hp
  · obtain ⟨plan, rfl⟩ := (hruns _).mp ⟨_, hrows⟩
    obtain ⟨c, top, -, -, hnewest, hbegins⟩ :=
      @exists_first env.collation env.fmt m.world.db r.2.2.1.id since limit' plan hlimit hsome
    have hcoffer := (mem_firstRows.mp hnewest).1
    rw [matchingPrices_available] at hcoffer
    exact ⟨_, (hbegins _).mpr rfl, hleast c hcoffer⟩
  · rw [← @always_begins_iff env.collation env.fmt _ _ _ _ _ hlimit hsome hleast]
    constructor
    · intro h plan
      obtain ⟨choices, hrun⟩ := (hruns _).mpr ⟨plan, rfl⟩
      exact h _ _ hrun
    · intro h choices answer hrun
      obtain ⟨plan, rfl⟩ := (hruns _).mp ⟨choices, hrun⟩
      exact h plan
  · rw [← @sometimes_begins_iff env.collation env.fmt _ _ _ _ _ hlimit hsome hleast]
    constructor
    · rintro ⟨choices, answer, hrun, h⟩
      obtain ⟨plan, rfl⟩ := (hruns _).mp ⟨choices, hrun⟩
      exact ⟨plan, h⟩
    · rintro ⟨plan, h⟩
      obtain ⟨choices, hrun⟩ := (hruns _).mpr ⟨plan, rfl⟩
      exact ⟨choices, _, hrun, h⟩

theorem index_against_prices_market :
    ∃ since best, minusDays newYear 30 = .ok since
      ∧ marketRanking.head?.map IndexRow.bestUsdPerHour = some (halves.round best)
      ∧ IsLeast {x | ∃ p ∈ offersOf market since ⟨1, one_range⟩, x = p.usdPerHour.value} best
      ∧ (∃ price, BeginsWith halves market (offersOf market since ⟨1, one_range⟩) marketMonth price
          ∧ best ≤ price)
      ∧ ((∀ choices rows,
            (runSvc env choices (latestPrices 1 30 (some "available") 200) ⟨worldOf market, {}⟩).1
                = .ok rows →
              BeginsWith halves market (offersOf market since ⟨1, one_range⟩) rows best)
          ↔ ∃ p ∈ newestPrices market ⟨1, one_range⟩ since (some "available"),
              ∀ q ∈ newestPrices market ⟨1, one_range⟩ since (some "available"),
                q.group = p.group → q.usdPerHour.value = best)
      ∧ ((∃ choices rows,
            (runSvc env choices (latestPrices 1 30 (some "available") 200) ⟨worldOf market, {}⟩).1
                = .ok rows
              ∧ BeginsWith halves market (offersOf market since ⟨1, one_range⟩) rows best)
          ↔ ∃ p ∈ newestPrices market ⟨1, one_range⟩ since (some "available"),
              p.usdPerHour.value = best) := by
  obtain ⟨since, best, hsince, hbest, hrest⟩ := index_against_prices env _ _ "llm-inference-7b" none
    30 1 50 200 ⟨worldOf market, {}⟩ indexOfMarket_rows latestOfMarket_month (by decide)
    List.mem_cons_self (g := h100 ⟨1, one_range⟩) List.mem_cons_self rfl rfl
  exact ⟨since, best, hsince, congrArg some hbest, hrest⟩

end GpuIndex
