/-
  What rows become on their way to a response.

  The rows of a query reach the handler as they are, or as JSON text read back from the cache, where
  a date-time has become a string.  `summaryOf` and `pageOf` say which response the handler builds,
  without the JSON in between; it is the same both ways (**`hit_like_miss`**).
-/
import GpuIndex.Api.Routes
import GpuIndex.Fixture

namespace GpuIndex

open Calendar
open JsonText (FloatFormat FloatVal Value loads dumps loads_dumps)

/-! ## Prices -/

/-- A result row as it is sent. -/
def PricePointOut.ofLatestRow (r : LatestRow) : PricePointOut :=
  ⟨r.provider.val, r.region.val, r.instanceType.val, r.usdPerHour, r.availability.val,
    utc r.observedAt⟩

/-- The summary of result rows. -/
def summaryOf (gpuModel : String) : List LatestRow → PriceSummaryOut
  | [] => emptySummary gpuModel
  | r :: rows =>
    ⟨gpuModel, ((r :: rows).map fun r => r.region.val).dedup.length,
      ((r :: rows).map fun r => r.provider.val).dedup.length,
      minFloat r.usdPerHour (rows.map fun r => r.usdPerHour), r.median30d,
      (r :: rows).map PricePointOut.ofLatestRow⟩

/-- The dictionary of a result row whose date-time is written by `leaf`. -/
def LatestRow.dict (leaf : Instant → Json) (r : LatestRow) : Json :=
  .obj [("provider", .str r.provider.val), ("region", .str r.region.val),
    ("instance_type", .str r.instanceType.val), ("usd_per_hour", .float r.usdPerHour),
    ("availability", .str r.availability.val), ("observed_at", leaf r.observedAt),
    ("median_30d", floatOrNull r.median30d)]

/-- The date-time as the driver returns it. -/
def extLeaf (i : Instant) : Json := .ext (utc i)

/-- The date-time as the cache returns it. -/
def strLeaf (i : Instant) : Json := .str (strDatetime (utc i))

/-- It validates as the date-time, if its text does. -/
theorem datetimeField_strLeaf {env : Env} {i : Instant}
    (h : env.parseDatetime (strDatetime (utc i)) = some (utc i)) :
    datetimeField env (strLeaf i) = .ok (utc i) := by
  simp only [datetimeField, strLeaf, h]

theorem mapM_map_ok {ε α β γ : Type} {f : β → Except ε γ} {g : α → β} {k : α → γ}
    (h : ∀ a, f (g a) = .ok (k a)) (as : List α) : (as.map g).mapM f = .ok (as.map k) := by
  induction as with
  | nil => rfl
  | cons a as ih =>
    rw [List.map_cons, List.mapM_cons, h, ih]
    rfl

section Dict

variable {env : Env} {leaf : Instant → Json}

theorem ofRow_dict (hleaf : ∀ i, datetimeField env (leaf i) = .ok (utc i)) (r : LatestRow) :
    PricePointOut.ofRow env (r.dict leaf) = .ok (.ofLatestRow r) := by
  show (do let observedAt ← datetimeField env (leaf r.observedAt); _) = _
  rw [hleaf]
  rfl

theorem optionalFloatField_floatOrNull (x : Option FloatVal) :
    optionalFloatField env (floatOrNull x) = .ok x := by
  cases x <;> rfl

/-- **The summary** of rows, whichever way their date-times are written. -/
theorem priceSummary_dict (leaf : Instant → Json)
    (hleaf : ∀ i, datetimeField env (leaf i) = .ok (utc i)) (gpuModel : String)
    (rows : List LatestRow) :
    priceSummary env gpuModel (.arr (rows.map (LatestRow.dict leaf)))
      = .ok (summaryOf gpuModel rows) := by
  cases rows with
  | nil => rfl
  | cons r rows =>
    have hregions := mapM_map_ok (f := fun r => do strField (← subscript "region" r))
      (g := LatestRow.dict leaf) (k := fun r => r.region.val) (fun _ => rfl) (r :: rows)
    have hproviders := mapM_map_ok (f := fun r => do strField (← subscript "provider" r))
      (g := LatestRow.dict leaf) (k := fun r => r.provider.val) (fun _ => rfl) (r :: rows)
    have hrates := mapM_map_ok (f := fun r => do floatField env (← subscript "usd_per_hour" r))
      (g := LatestRow.dict leaf) (k := fun r => r.usdPerHour) (fun _ => rfl) (r :: rows)
    have hpoints := mapM_map_ok (ofRow_dict hleaf) (r :: rows)
    have htruthy : isTruthy (.arr ((r :: rows).map (LatestRow.dict leaf))) = true := rfl
    unfold priceSummary
    simp only [htruthy, elements, ok_bind, hregions, hproviders, hrates, hpoints]
    show (do let median ← optionalFloatField env (floatOrNull r.median30d); _) = _
    rw [optionalFloatField_floatOrNull]
    rfl

/-- The summary of the rows of the query. -/
theorem priceSummary_latestJson (gpuModel : String) (rows : List LatestRow) :
    priceSummary env gpuModel (latestJson rows) = .ok (summaryOf gpuModel rows) :=
  priceSummary_dict extLeaf (fun _ => rfl) gpuModel rows

end Dict

/-- The doubles of a row are of the format. -/
def LatestRow.OfFormat (fmt : FloatFormat) (r : LatestRow) : Prop :=
  r.usdPerHour.OfFormat fmt ∧ ∀ x ∈ r.median30d, x.OfFormat fmt

/-- Rounding makes a double of the format. -/
theorem ofFormat_round (fmt : FloatFormat) (x : ℚ) : (fmt.round x).OfFormat fmt := by
  cases h : fmt.round x with
  | finite q => exact fmt.round_round x q h
  | infinity neg => trivial
  | nan => trivial

theorem printable_latestJson {fmt : FloatFormat} {rows : List LatestRow}
    (h : ∀ r ∈ rows, r.OfFormat fmt) : (latestJson rows).Printable fmt := by
  show Value.PrintableElems fmt _
  rw [Value.printableElems_iff, List.forall_mem_map]
  intro r hr
  obtain ⟨husd, hmedian⟩ := h r hr
  refine ⟨trivial, trivial, trivial, husd, trivial, trivial, ?_, trivial⟩
  cases hm : r.median30d with
  | none => trivial
  | some x => exact hmedian x hm

theorem flatten_latestJson (rows : List LatestRow) :
    (latestJson rows).flatten strDatetime = .arr (rows.map (LatestRow.dict strLeaf)) := by
  show Value.arr (Value.flattenElems strDatetime (rows.map LatestRow.toJson)) = _
  rw [Value.flattenElems_eq_map, List.map_map]
  congr 1
  refine List.map_congr_left fun r _ => ?_
  show Value.flatten strDatetime (LatestRow.toJson r) = _
  cases hm : r.median30d <;> simp only [LatestRow.toJson, LatestRow.dict, hm] <;> rfl

/-- What the cache stores of rows is read back as the same rows. -/
theorem loads_latestJson {env : Env} {rows : List LatestRow} (h : ∀ r ∈ rows, r.OfFormat env.fmt) :
    loads env.fmt (dumpsText env (latestJson rows)).toList
      = some (.arr (rows.map (LatestRow.dict strLeaf))) := by
  rw [dumpsText, String.toList_ofList, loads_dumps _ (printable_latestJson h),
    flatten_latestJson]

/-- The rows of the query have doubles of the format. -/
theorem ofFormat_latestPricesSql {collation : Collation} {fmt : FloatFormat} {plan : Plan}
    {db : Database} {gpu : Integer} {since : Instant} {availability : Option String} {limit : Nat}
    {r : LatestRow}
    (h : r ∈ latestPricesSql collation fmt plan db gpu since availability limit) :
    r.OfFormat fmt := by
  obtain ⟨p, -, rfl⟩ := List.mem_map.mp h
  refine ⟨ofFormat_round fmt _, fun x hx => ?_⟩
  obtain ⟨q, -, rfl⟩ := Option.map_eq_some_iff.mp hx
  exact ofFormat_round fmt q

/-! ## Index -/

/-- A result row as it is sent; one without a ratio would not validate. -/
def IndexEntryOut.ofIndexRow (r : IndexRow) : Option IndexEntryOut :=
  r.usdPerMillionUnits.map fun units =>
    ⟨r.gpuModel.val, r.vendor.val, r.workload, r.precision.val, r.bestUsdPerHour, r.throughput,
      units, r.provider.val, r.region.val⟩

/-- The page of result rows. -/
def pageOf (rows : List IndexRow) : Page IndexEntryOut :=
  { items := rows.filterMap IndexEntryOut.ofIndexRow, count := rows.length }

/-- A result row that validates: its ratio is there. -/
def IndexRow.HasRatio (r : IndexRow) : Prop := r.usdPerMillionUnits.isSome

theorem ofRow_indexRow {env : Env} {r : IndexRow} {e : IndexEntryOut}
    (h : IndexEntryOut.ofIndexRow r = some e) : IndexEntryOut.ofRow env r.toJson = .ok e := by
  obtain ⟨units, hunits, rfl⟩ := Option.map_eq_some_iff.mp h
  simp only [IndexRow.toJson, hunits]
  rfl

/-- **The page** of rows that have their ratios. -/
theorem indexPage_indexJson {env : Env} {rows : List IndexRow} (h : ∀ r ∈ rows, r.HasRatio) :
    indexPage env (indexJson rows) = .ok (pageOf rows) := by
  have hitems : (rows.map IndexRow.toJson).mapM (IndexEntryOut.ofRow env)
      = .ok (rows.filterMap IndexEntryOut.ofIndexRow) := by
    induction rows with
    | nil => rfl
    | cons r rows ih =>
      obtain ⟨e, hentry⟩ : ∃ e, IndexEntryOut.ofIndexRow r = some e := by
        rw [← Option.isSome_iff_exists, IndexEntryOut.ofIndexRow, Option.isSome_map]
        exact h r List.mem_cons_self
      rw [List.map_cons, List.mapM_cons, ofRow_indexRow hentry,
        ih fun r hr => h r (List.mem_cons_of_mem _ hr), List.filterMap_cons_some hentry]
      rfl
  show (do let items ← (rows.map IndexRow.toJson).mapM (IndexEntryOut.ofRow env); _) = _
  rw [hitems]
  show Except.ok _ = _
  rw [List.length_map]
  rfl

/-- The doubles of a row are of the format. -/
structure IndexRow.OfFormat (fmt : FloatFormat) (r : IndexRow) : Prop where
  bestUsdPerHour : r.bestUsdPerHour.OfFormat fmt
  throughput : r.throughput.OfFormat fmt
  usdPerMillionUnits : ∀ x ∈ r.usdPerMillionUnits, x.OfFormat fmt

/-- What the cache stores of rows is read back as the same rows. -/
theorem loads_indexJson {env : Env} {rows : List IndexRow} (h : ∀ r ∈ rows, r.OfFormat env.fmt) :
    loads env.fmt (dumpsText env (indexJson rows)).toList = some (indexJson rows) := by
  have hprintable : (indexJson rows).Printable env.fmt := by
    show Value.PrintableElems env.fmt _
    rw [Value.printableElems_iff, List.forall_mem_map]
    intro r hr
    obtain ⟨hbest, hthroughput, hunits⟩ := h r hr
    refine ⟨trivial, trivial, trivial, trivial, hbest, hthroughput, ?_, trivial, trivial, trivial⟩
    cases hu : r.usdPerMillionUnits with
    | none => trivial
    | some x => exact hunits x hu
  have hflatten : (indexJson rows).flatten strDatetime = indexJson rows := by
    show Value.arr (Value.flattenElems strDatetime (rows.map IndexRow.toJson)) = _
    rw [Value.flattenElems_eq_map, List.map_map]
    congr 1
    refine List.map_congr_left fun r _ => ?_
    show Value.flatten strDatetime (IndexRow.toJson r) = _
    cases hu : r.usdPerMillionUnits <;> simp only [IndexRow.toJson, hu] <;> rfl
  rw [dumpsText, String.toList_ofList, loads_dumps _ hprintable, hflatten]

/-- The rows of the query have their ratios, and doubles of the format. -/
theorem mem_indexSql {fmt : FloatFormat} {plan : Plan} {db : Database} {workload : String}
    {precision : Option String} {since : Instant} {limit : Nat} {r : IndexRow}
    (h : r ∈ indexSql fmt plan db workload precision since limit) :
    r.HasRatio ∧ r.OfFormat fmt := by
  obtain ⟨⟨bb, bp, g, pr⟩, hmem, rfl⟩ := List.mem_map.mp h
  have hjoin : (bb, bp, g, pr) ∈ indexJoin plan db workload precision since := by
    simpa using List.mem_of_mem_take hmem
  have hpositive : 0 < bb.throughput.value := by
    obtain ⟨b, -, hb⟩ := List.mem_filterMap.mp hjoin
    simp only [Option.bind_eq_bind, Option.bind_eq_some_iff, Option.ite_none_right_eq_some,
      Option.some.injEq] at hb
    obtain ⟨_, -, _, -, _, -, hb, heq⟩ := hb
    cases heq
    exact hb
  have hratio : usdPerMillion bp.usdPerHour.value bb.throughput.value
      = some (bp.usdPerHour.value / bb.throughput.value * 1000000) := if_neg hpositive.ne'
  refine ⟨?_, ofFormat_round fmt _, ofFormat_round fmt _, fun x hx => ?_⟩
  · dsimp only [IndexRow.HasRatio]
    rw [hratio]
    rfl
  · dsimp only at hx
    rw [hratio] at hx
    cases hx
    exact ofFormat_round fmt _

/-! ## Hits -/

/-- `json.loads(json.dumps(rows, default=str))`: the rows as a hit on the cache hands them out. -/
def reread (env : Env) (rows : Json) : Option Json := loads env.fmt (dumpsText env rows).toList

/-- **A hit answers like a miss**: the response built from the rows that a hit reads back is the one
    built from the rows of the query. -/
theorem hit_like_miss (env : Env)
    (hparse : ∀ i, env.parseDatetime (strDatetime (utc i)) = some (utc i)) :
    (∀ (gpuModel : String) (rows : List LatestRow), (∀ r ∈ rows, r.OfFormat env.fmt) →
      ∃ s, priceSummary env gpuModel (latestJson rows) = .ok s
        ∧ (reread env (latestJson rows)).map (priceSummary env gpuModel) = some (.ok s))
    ∧ ∀ rows : List IndexRow, (∀ r ∈ rows, r.HasRatio ∧ r.OfFormat env.fmt) →
      ∃ page, indexPage env (indexJson rows) = .ok page
        ∧ (reread env (indexJson rows)).map (indexPage env) = some (.ok page) := by
  constructor
  · intro gpuModel rows hrows
    have hhit := priceSummary_dict strLeaf (fun i => datetimeField_strLeaf (hparse i)) gpuModel rows
    refine ⟨summaryOf gpuModel rows, priceSummary_latestJson gpuModel rows, ?_⟩
    rw [reread, loads_latestJson hrows, Option.map_some, hhit]
  · intro rows hrows
    have hpage : indexPage env (indexJson rows) = .ok (pageOf rows) :=
      indexPage_indexJson fun r hr => (hrows r hr).1
    refine ⟨pageOf rows, hpage, ?_⟩
    rw [reread, loads_indexJson fun r hr => (hrows r hr).2, Option.map_some, hpage]

/-- The fixture reads back the text of a date-time. -/
theorem parseDatetime_strDatetime (i : Instant) :
    env.parseDatetime (strDatetime (utc i)) = some (utc i) := by
  have hparse (s : String) : env.parseDatetime s = fromIsoformat s.toList := rfl
  rw [hparse, strDatetime, String.toList_ofList, fromIsoformat_isoformat, readBack_utc]

/-- The rows of one price and of its ranking. -/
theorem hit_like_miss_tiny :
    (∃ s, priceSummary env "H100 SXM" (latestJson (latestPricesSql byCodePoint halves .stored tinyDb
          ⟨1, by decide⟩ newYear none 200)) = .ok s
        ∧ (reread env (latestJson (latestPricesSql byCodePoint halves .stored tinyDb
          ⟨1, by decide⟩ newYear none 200))).map (priceSummary env "H100 SXM") = some (.ok s))
    ∧ ∃ page,
      indexPage env (indexJson (indexSql halves .stored tinyDb "llm-inference-7b" none newYear
          50)) = .ok page
        ∧ (reread env (indexJson (indexSql halves .stored tinyDb "llm-inference-7b" none newYear
          50))).map (indexPage env) = some (.ok page) :=
  ⟨(hit_like_miss env parseDatetime_strDatetime).1 _ _ fun _ hr => ofFormat_latestPricesSql hr,
    (hit_like_miss env parseDatetime_strDatetime).2 _ fun _ hr => mem_indexSql hr⟩

end GpuIndex
