/-
  What a client reads of what it has posted.

  SPECIFICATION.  After any run of requests that do not overlap, a price summary that is not cut at
  its limit shows, for the provider and the region of every observation that was ingested, an
  observation that is at least as new.

  An ingested item has a row with its natural key (`Offered.exists_row`), whoever stored it, and a
  summary is made of the table as it is (`wp_gpuPrices_rows`).  The crux is `points_cover`: the
  newest price of a group is not older than any row of the group.
-/
import GpuIndex.Api.CacheTransparency
import GpuIndex.Api.SnapshotAnswers
import GpuIndex.Api.PriceSummary
import GpuIndex.Api.StoredBatches

namespace GpuIndex

open Calendar OrderBy

/-! ## What was ingested is in the table -/

/-- The row of an item: its names and its instant. -/
structure RowOf (env : Env) (db : Database) (item : PricePointIn) (p : PricePoint) : Prop where
  mem : p ∈ db.pricePoints
  gpu : ∃ g ∈ db.gpuModels, g.modelName.val = item.gpuModelName ∧ g.id = p.gpuModelId
  provider : ∃ pr ∈ db.providers, pr.name.val = item.providerName ∧ pr.id = p.providerId
  region : p.region.val = item.region
  observedAt : item.observedAt.toInstant? env.localOffset = some p.observedAt

/-- Every known item that was offered has a row. -/
theorem Offered.exists_row {env : Env} {db db' : Database} {items : List PricePointIn}
    (h : Offered env db items db') {item : PricePointIn} (hitem : item ∈ items)
    (hknown : Known db item) : ∃ p, RowOf env db' item p := by
  obtain ⟨v, hv, hkey⟩ := h.present hitem hknown
  obtain ⟨w, hw, hkey⟩ := List.mem_map.mp hkey
  obtain ⟨p, hp, rfl⟩ := List.mem_map.mp hw
  simp only [PriceValues.key, ObservationKey.mk.injEq] at hkey
  obtain ⟨hgpu, hprovider, hregion, -, hobserved⟩ := hkey
  obtain ⟨g, hg, hgname, hgid⟩ := hv.gpu
  obtain ⟨pr, hpr, hprname, hprid⟩ := hv.provider
  exact ⟨p, hp, ⟨g, hg, hgname, hgid.trans hgpu.symm⟩,
    ⟨pr, hpr, hprname, hprid.trans hprovider.symm⟩, hregion ▸ hv.region, hobserved ▸ hv.observedAt⟩

/-! ## What is in the table is shown -/

/-- **The crux**: an answer shorter than its limit has a point for the group of every row in the
    window, and none of these points is older than the row. -/
theorem points_cover {env : Env} {plan : Plan} {db : Database} {gpu : Integer} {since : Instant}
    {limit : Nat} (model : String) (hshort : (summaryOf model (latestPricesSql env.collation env.fmt
      plan db gpu since none limit)).points.length < limit)
    {p : PricePoint} (hp : p ∈ db.pricePoints) (hgpu : p.gpuModelId = gpu)
    (hsince : since ≤ p.observedAt) {pr : Provider} (hpr : pr ∈ db.providers)
    (hid : pr.id = p.providerId) :
    ∃ x ∈ (summaryOf model (latestPricesSql env.collation env.fmt plan db gpu since none
        limit)).points,
      x.provider = pr.name.val ∧ x.region = p.region.val
        ∧ ∃ seen, x.observedAt = utc seen ∧ p.observedAt ≤ seen := by
  have hselected := selected_chosenPrices env.collation plan db gpu since none limit
  have hpicked : FirstOfEach PricePoint.group newestFirst (matchingPrices db gpu since none)
      ((chosenPrices env.collation plan db gpu since none limit).map Prod.fst) := by
    refine hselected.firstOfEach (hselected.keys_le ?_)
    rw [summaryOf_points, List.length_map, latestPricesSql_eq, List.length_map] at hshort
    rwa [List.length_map]
  have hmatching : p ∈ matchingPrices db gpu since none :=
    mem_matchingPrices.mpr ⟨hp, decide_eq_true ⟨hgpu, hsince⟩, rfl⟩
  obtain ⟨q, hq, hgroup⟩ := hpicked.covers p hmatching
  obtain ⟨hprovider, hregion⟩ := Prod.mk.inj hgroup
  have hnewest : p.observedAt ≤ q.observedAt :=
    (mem_firstRows.mp (hpicked.first q hq)).2 p hmatching hgroup.symm
  obtain ⟨r, hr, rfl⟩ := List.mem_map.mp hq
  refine ⟨.ofLatestRow (latestRow env.fmt (medianPrice db gpu since) r.1 r.2), ?_, ?_,
    congrArg Varchar.val hregion, r.1.observedAt, rfl, hnewest⟩
  · rw [summaryOf_points, latestPricesSql_eq, List.map_map]
    exact List.mem_map_of_mem hr
  · obtain ⟨hmem, hid'⟩ := Database.mem_of_provider? (provider_of_mem_chosenPrices hr)
    have hsame : r.2 = pr := List.inj_on_of_nodup_map db.constraints.providers_pkey hmem hpr
      (hid'.trans (hprovider.trans hid.symm))
    exact congrArg (fun pr : Provider => pr.name.val) hsame

/-! ## The route -/

/-- `gpu_prices` on a current cache answers with the summary of rows it would have selected
    itself. -/
def SelectedSummary (env : Env) (w : World) (q : PricesQuery) (summary : PriceSummaryOut) : Prop :=
  ∃ at' plan rows model, Recent env w.now at' ∧ pricesSelected env q at' w.db plan = .ok rows
    ∧ summary = summaryOf model rows

theorem wp_gpuPrices_rows {env : Env} (C : Choice → Prop)
    (hparse : ∀ i, env.parseDatetime (strDatetime (utc i)) = some (utc i)) {q : PricesQuery}
    (hplain : q.Plain) {m : Machine}
    (hcache : m.world.CacheHolds (CurrentEntry env m.world.now m.world.db)) :
    Svc.wp env C (gpuPrices env q) (fun r _ => ∀ summary, r = .ok summary →
      SelectedSummary env m.world q summary) m := by
  refine Svc.wp_mono (wp_gpuPrices q m) ?_
  rintro r m₂ ⟨loaded, m₁, hloaded, hread, hr⟩ summary rfl
  cases hloaded with
  | missing _ _ => cases hr.1
  | failed => cases hr.1
  | @found id gpu hid hgpu =>
    have hcache₁ : m₁.world.CacheHolds (CurrentEntry env m₁.world.now m₁.world.db) := by
      rw [hread.tables.now, hread.tables.db]
      exact hcache.of_sameRedis hread.redis hread.tables.now
    obtain ⟨at', plan, rows, hrecent, hselected, hbuild⟩ :=
      pricesRoute_current hparse hplain hcache₁ hr
    rw [hread.tables.now] at hrecent
    rw [hread.tables.db] at hselected
    rw [priceSummary_latestJson] at hbuild
    exact ⟨at', plan, rows, _, hrecent, hselected, (Except.ok.inj hbuild).symm⟩

/-- A request for prices that is answered on a current cache. -/
theorem World.Current.selected {env : Env} {w : World} (h : w.Current env)
    (hparse : ∀ i, env.parseDatetime (strDatetime (utc i)) = some (utc i)) {apiKey : Option String}
    {q : PricesQuery} (hplain : q.Plain) (choices : Nat → Choice) {summary : PriceSummaryOut}
    (hresponse : (served env choices ⟨apiKey, .gpuPrices q⟩ w).1
      = .ok ⟨200, .summary summary, []⟩) :
    SelectedSummary env w q summary := by
  have hserved := served_of_handle env ⟨apiKey, .gpuPrices q⟩ w choices (Q := fun m₁ r _ =>
    r = .ok ⟨200, .summary summary, []⟩ → SelectedSummary env m₁.world q summary) ?_
  · rw [hresponse] at hserved
    generalize (served env choices ⟨apiKey, .gpuPrices q⟩ w).2 = m' at hserved
    cases hserved with
    | admitted tables _ _ handled =>
      have hselected := handled rfl
      rw [SelectedSummary, tables.now, tables.db] at hselected
      exact hselected
  · intro m₁ htables hsame _
    have hcache : m₁.world.CacheHolds (CurrentEntry env m₁.world.now m₁.world.db) := by
      rw [htables.now, htables.db]
      exact h.of_sameCache (m := ⟨w, {}⟩) (currentEntry_counter w.now w.db) hsame htables.now
    refine Svc.wp_seq (wp_gpuPrices_rows _ hparse hplain hcache) (fun answer m₂ hselected heq => ?_)
      (fun _ _ _ heq => by cases heq)
    cases heq
    exact hselected summary rfl

/-- **Read your writes**: an observation that was ingested, of a GPU and in the window of the
    request, is shown by a summary that is not cut, or a newer one of its provider and region is. -/
theorem read_your_writes (env : Env) (w₀ w : World) (items : List PricePointIn)
    (hempty : w₀.redis = ExpiringStore.empty)
    (hparse : ∀ i, env.parseDatetime (strDatetime (utc i)) = some (utc i))
    (hrun : Serial env w₀ items w) {item : PricePointIn} (hitem : item ∈ items)
    (hknown : Known w₀.db item) {q : PricesQuery} (hplain : q.Plain)
    (hall : truthy q.availability = none) {g : GpuModel} (hg : g ∈ w₀.db.gpuModels)
    (hname : g.modelName.val = item.gpuModelName) (hid : Integer.ofInt? q.gpuId = some g.id)
    {t : Instant} (ht : item.observedAt.toInstant? env.localOffset = some t)
    (hwindow : ∀ at' since, Recent env w.now at' →
      minusDays (env.clock at') q.windowDays = .ok since → since ≤ t)
    (apiKey : Option String) (choices : Nat → Choice) {summary : PriceSummaryOut}
    (hanswer : (served env choices ⟨apiKey, .gpuPrices q⟩ w).1 = .ok ⟨200, .summary summary, []⟩)
    (hshort : summary.points.length < 200) :
    ∃ x ∈ summary.points, x.provider = item.providerName ∧ x.region = item.region
      ∧ ∃ seen, x.observedAt = utc seen ∧ t ≤ seen := by
  obtain ⟨hcurrent, hoffered⟩ := hrun.invariant hempty
  obtain ⟨at', plan, rows, model, hrecent, hselected, rfl⟩ :=
    hcurrent.selected hparse hplain choices hanswer
  obtain ⟨gpu, since, hgpu, hsince, rfl⟩ := sql_of_selectPrices hselected
  rw [hall] at hshort ⊢
  obtain ⟨p, hp⟩ := hoffered.exists_row hitem hknown
  obtain ⟨g', hg', hgname', hgid'⟩ := hp.gpu
  obtain ⟨pr, hpr, hprname, hprid⟩ := hp.provider
  -- the row is of the GPU that is asked for, and in the window
  have hgrown : g ∈ w.db.gpuModels := hoffered.grows.gpuModels.symm ▸ hg
  obtain rfl : g = g' :=
    List.inj_on_of_nodup_map w.db.constraints.gpu_models_model_name_key hgrown hg'
    (Varchar.val_injective (hname.trans hgname'.symm))
  have hsame : p.gpuModelId = gpu := hgid'.symm.trans (Option.some.inj (hid.symm.trans hgpu))
  obtain rfl : t = p.observedAt := Option.some.inj (ht.symm.trans hp.observedAt)
  obtain ⟨x, hx, hprovider, hregion, hseen⟩ := points_cover model hshort hp.mem hsame
    (hwindow at' since hrecent hsince) hpr hprid
  exact ⟨x, hx, hprovider.trans hprname, hregion.trans hp.region, hseen⟩

/-- The ingest of one observation, and a read ten seconds later. -/
theorem ingested_ingestOne : ingestOne.ingested
    (served env (fun _ => .calm) ingestOne (worldOf (catalogue ⟨1, one_range⟩))).1 = [oneItem] := by
  with_unfolding_all rfl

theorem serial_afterIngest :
    Serial env (worldOf (catalogue ⟨1, one_range⟩)) [oneItem] afterIngest := by
  rw [← List.nil_append [oneItem], ← ingested_ingestOne]
  refine .wait (.request .start trivial fun _ => rfl) ?_
  rw [served_now]
  exact Instant.le_iff.mpr (Nat.le_add_right _ _)

/-- A window of thirty days that ends so soon begins before the observation. -/
theorem window_afterIngest (at' since : Instant) (hrecent : Recent env afterIngest.now at')
    (hsince : minusDays (env.clock at') 30 = .ok since) : since ≤ newYear := by
  have hpast : at'.us ≤ newYear.us + 10000000 := hrecent.past
  unfold minusDays at hsince
  split at hsince
  · cases hsince
    show ((at'.us : Int) - 30 * dayMicros).toNat ≤ newYear.us
    have hday : dayMicros = 86400000000 := rfl
    omega
  · cases hsince

theorem read_your_writes_one : ∃ x ∈ pricesOfOneItem.points, x.provider = "AWS"
    ∧ x.region = "us-east-1" ∧ ∃ seen, x.observedAt = utc seen ∧ newYear ≤ seen :=
  read_your_writes env (worldOf (catalogue ⟨1, one_range⟩)) afterIngest [oneItem] rfl
    (sound_worldOf (catalogue ⟨1, one_range⟩)).parse serial_afterIngest (List.mem_singleton_self _)
    known_oneItem (q := pricesOfOne none) (fun _ h => by cases h) rfl
    (g := h100 ⟨1, one_range⟩) (List.mem_singleton_self _) rfl rfl rfl window_afterIngest
    (some "local-dev-key") (fun _ => .calm) (by with_unfolding_all rfl) (by decide)

end GpuIndex
