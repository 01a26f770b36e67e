/-
  Whether seeding reaches its target.

  `written` counts the rows sent, and a row whose natural key is taken is skipped by the table
  (`ON CONFLICT ... DO NOTHING`).  While `seen` is kept no key is sent twice, and once it was
  emptied nothing prevents it: **`seeding_reaches_iff`**.  A run whose target is past 2,025,000 rows
  falls short as soon as it draws one of the forgotten keys again, and ends all the same.
-/
import GpuIndex.Fixture
import GpuIndex.Scripts.SeedRuns
import Mathlib.Data.List.ProdSigma

namespace GpuIndex

open Calendar Forgetful
open JsonText (FloatFormat FloatToken FloatVal decimalValue)

/-! ## What a natural key determines -/

section Keys

variable {c : Catalogue} {db : Database} {now : Instant} {d d' : PriceDraw} {k : NaturalKey}

theorem subscriptId_ok {o : Option Integer} {id : Integer} (h : subscriptId o = .ok id) :
    o = some id := by
  cases o with
  | none => cases h
  | some id' =>
    cases h
    rfl

/-- The parts of a natural key. -/
theorem natural_ok (h : d.natural c now = .ok k) :
    c.gpu? d.gname.val = some k.gpuModelId ∧ c.provider? d.pname.val = some k.providerId
      ∧ k.region = d.region.val ∧ k.instanceType = d.itype
      ∧ k.observedAt.us + 3600000000 * d.hoursAgo.val = now.us := by
  obtain ⟨observed, hobserved, h⟩ := bind_ok h
  obtain ⟨gpuId, hgpu, h⟩ := bind_ok h
  obtain ⟨providerId, hprovider, h⟩ := bind_ok h
  cases h
  refine ⟨subscriptId_ok hgpu, subscriptId_ok hprovider, rfl, rfl, ?_⟩
  unfold minusHours at hobserved
  split at hobserved
  · rename_i hle
    cases hobserved
    exact Nat.sub_add_cancel hle
  · cases hobserved

/-- Two names of one id are one name. -/
theorem Catalogue.Of.gpu?_inj (hc : c.Of db) {name name' : String} {id : Integer}
    (h : c.gpu? name = some id) (h' : c.gpu? name' = some id) : name = name' := by
  obtain ⟨g, hg, rfl, rfl⟩ := hc.gpu?_eq.mp h
  obtain ⟨g', hg', rfl, hid⟩ := hc.gpu?_eq.mp h'
  rw [List.inj_on_of_nodup_map db.constraints.gpu_models_pkey hg' hg hid]

theorem Catalogue.Of.provider?_inj (hc : c.Of db) {name name' : String} {id : Integer}
    (h : c.provider? name = some id) (h' : c.provider? name' = some id) : name = name' := by
  obtain ⟨p, hp, rfl, rfl⟩ := hc.provider?_eq.mp h
  obtain ⟨p', hp', rfl, hid⟩ := hc.provider?_eq.mp h'
  rw [List.inj_on_of_nodup_map db.constraints.providers_pkey hp' hp hid]

/-- **Draws of one natural key** are of one model, provider, region and hour. -/
theorem natural_inj (hc : c.Of db) (h : d.natural c now = .ok k) (h' : d'.natural c now = .ok k) :
    d.gname = d'.gname ∧ d.pname = d'.pname ∧ d.region = d'.region ∧ d.hoursAgo = d'.hoursAgo := by
  obtain ⟨hgpu, hprovider, hregion, -, hobserved⟩ := natural_ok h
  obtain ⟨hgpu', hprovider', hregion', -, hobserved'⟩ := natural_ok h'
  exact ⟨Subtype.ext (hc.gpu?_inj hgpu hgpu'), Subtype.ext (hc.provider?_inj hprovider hprovider'),
    Subtype.ext (hregion.symm.trans hregion'), Subtype.ext (by omega)⟩

end Keys

/-! ## Which draws the table takes -/

/-- Every region fits its column. -/
theorem seedRegions_fit : ∀ s ∈ seedRegions, s.length ≤ 32 ∧ NoNul s := by decide

/-- Every availability is one of the API's. -/
theorem seedAvailability_subset : ∀ s ∈ seedAvailability, s ∈ availabilities := by decide

theorem itype_parts :
    (∀ p ∈ providerNames, '\x00' ∉ (p.toList.take 3).map Char.toLower)
      ∧ (∀ g ∈ gpuNames, (firstWord g.toList).length ≤ 20
          ∧ '\x00' ∉ (firstWord g.toList).map Char.toLower)
      ∧ ∀ n ∈ [1, 2, 4, 8], (Nat.toDigits 10 n).length ≤ 1 ∧ '\x00' ∉ Nat.toDigits 10 n := by
  refine ⟨by decide, by decide, by decide⟩

/-- Every instance type fits its column. -/
theorem itype_fits (d : PriceDraw) : d.itype.length ≤ 64 ∧ NoNul d.itype := by
  obtain ⟨hproviders, hgpus, hcounts⟩ := itype_parts
  have hprovider := hproviders _ d.pname.property
  obtain ⟨hgpu, hgpu'⟩ := hgpus _ d.gname.property
  obtain ⟨hcount, hcount'⟩ := hcounts _ d.count.property
  constructor
  · rw [PriceDraw.itype, String.length_ofList]
    simp only [List.length_append, List.length_map, List.length_take, List.length_singleton]
    omega
  · rw [NoNul, PriceDraw.itype, String.toList_ofList]
    simp only [List.mem_append, List.mem_singleton, not_or]
    exact ⟨⟨⟨⟨⟨hprovider, by decide⟩, hgpu'⟩, by decide⟩, hcount'⟩, by decide⟩

/-- **A draw whose price is a price** is stored. -/
theorem storable_of_price {env : Env} {c : Catalogue} {db : Database} (hc : c.Of db) {now : Instant}
    {d : PriceDraw} (hprice : ∀ base, basePrice.lookup d.gname.val = some base →
      ∃ q, atLeastCent env.fmt (d.price env.fmt base) = .finite q
        ∧ 0 < (env.fmt.repr q).value ∧ (env.fmt.repr q).value ≤ 1000) :
    d.Storable env c now db := by
  intro natural row hnatural hrow
  obtain ⟨hgpu, hprovider, hregion, hinstance, -⟩ := natural_ok hnatural
  obtain ⟨g, hg, -, hgid⟩ := hc.gpu?_eq.mp hgpu
  obtain ⟨p, hp, -, hpid⟩ := hc.provider?_eq.mp hprovider
  unfold PriceDraw.row at hrow
  split at hrow
  · rename_i base hbase
    cases hrow
    obtain ⟨q, hq, hrange⟩ := hprice base hbase
    obtain ⟨hlength, hnul⟩ := seedRegions_fit _ d.region.property
    obtain ⟨region, hregion'⟩ := ofString?_isSome hlength hnul
    obtain ⟨instanceType, hinstance'⟩ := ofString?_isSome (itype_fits d).1 (itype_fits d).2
    obtain ⟨hlength, hnul⟩ := availability_fits (seedAvailability_subset _ d.availability.property)
    obtain ⟨availability, havailability⟩ := ofString?_isSome hlength hnul
    obtain ⟨usdPerHour, husd⟩ := price_fits hrange
    refine ⟨⟨natural.gpuModelId, natural.providerId, region, instanceType, usdPerHour, availability,
      natural.observedAt⟩, ?_, List.mem_map.mpr ⟨g, hg, hgid⟩, List.mem_map.mpr ⟨p, hp, hpid⟩⟩
    have hobserved : bindDatetime env (utc natural.observedAt) = .ok natural.observedAt := by
      rw [bindDatetime, toInstant?_utc]
    rw [SeedRow.bind, hq]
    simp only [PriceParams.bind, hregion, hinstance, bindVarchar, hregion', hinstance',
      havailability, husd, hobserved, ok_bind]
  · cases hrow

/-! ## Prices in cents -/

/-- The base prices are in cents. -/
theorem basePrice_cents : ∀ p ∈ basePrice,
    (p.2 * 100).den = 1 ∧ 1 ≤ (p.2 * 100).num ∧ (p.2 * 100).num ≤ 1000 := by
  decide +kernel

theorem basePrice_eq {g : String} {base : ℚ} (h : basePrice.lookup g = some base) :
    ∃ n : Int, base = n / 100 ∧ 1 ≤ n ∧ n ≤ 1000 := by
  obtain ⟨before, after, hsplit, -⟩ := List.lookup_eq_some_iff.mp h
  have hmem : (g, base) ∈ basePrice := hsplit ▸ List.mem_append_right before List.mem_cons_self
  obtain ⟨hden, hlow, hhigh⟩ := basePrice_cents _ hmem
  refine ⟨(base * 100).num, ?_, hlow, hhigh⟩
  have hnum : (((base * 100).num : Int) : ℚ) = base * 100 := (Rat.den_eq_one_iff _).mp hden
  rw [hnum]
  exact (mul_div_cancel_right₀ base (by norm_num)).symm

theorem roundHalfEven_int (n : Int) : roundHalfEven n = n := by
  rw [roundHalfEven, Int.floor_intCast, sub_self, if_pos (by norm_num)]

theorem cents_round (n : Int) : cents.round (n / 100) = .finite (n / 100) := roundCents_cents n

/-- A draw without drift and spread has the base price. -/
theorem price_eq {d : PriceDraw} (hdrift : d.driftRate = 0) (hspread : d.spread = 1) {n : Int}
    (hn : 1 ≤ n) : atLeastCent cents (d.price cents (n / 100)) = .finite (n / 100) := by
  have hzero : cents.round 0 = .finite 0 := by simpa using cents_round 0
  have hone : cents.round 1 = .finite 1 := by simpa using cents_round 100
  have hcent : cents.round (1 / 100) = .finite (1 / 100) := by simpa using cents_round 1
  obtain ⟨hours, hhours⟩ : ∃ x, cents.round (d.hoursAgo.val / 720) = .finite x := ⟨_, rfl⟩
  have hd : d.drift cents = .finite 1 := by
    simp only [PriceDraw.drift, hdrift, hhours, floatOp, mul_zero, hzero, add_zero, hone]
  have hscaled : (n : ℚ) / 100 * 10000 = ((n * 100 : Int) : ℚ) := by
    push_cast
    ring
  have hprice : d.price cents (n / 100) = .finite (n / 100) := by
    have hback : ((n * 100 : Int) : ℚ) / 10000 = n / 100 := by
      push_cast
      ring
    simp only [PriceDraw.price, hspread, hd, cents_round, floatOp, mul_one, round4, hscaled,
      roundHalfEven_int, hback]
  have hlow : ¬ (n : ℚ) / 100 < 1 / 100 := by
    have : (1 : ℚ) ≤ n := by exact_mod_cast hn
    linarith
  rw [hprice]
  simp only [atLeastCent, hcent, if_neg hlow]

/-! ## Runs through every combination -/

/-- The parts of a natural key that a draw chooses: the model, the provider, the region, the
    hour. -/
abbrev Combination :=
  Fin gpuNames.length × Fin providerNames.length × Fin seedRegions.length × Fin (30 * 24 + 1)

/-- A draw of a combination, eight GPUs at the base price. -/
def Combination.draw (c : Combination) : PriceDraw where
  gname := ⟨gpuNames.get c.1, List.get_mem gpuNames c.1⟩
  pname := ⟨providerNames.get c.2.1, List.get_mem providerNames c.2.1⟩
  region := ⟨seedRegions.get c.2.2.1, List.get_mem seedRegions c.2.2.1⟩
  count := ⟨8, by decide⟩
  hoursAgo := ⟨c.2.2.2.val, Nat.le_of_lt_succ c.2.2.2.isLt⟩
  driftRate := 0
  spread := 1
  availability := ⟨"available", by decide⟩

/-- Every combination once. -/
def combinations : List Combination :=
  List.finRange _ ×ˢ (List.finRange _ ×ˢ (List.finRange _ ×ˢ List.finRange _))

theorem nodup_combinations : combinations.Nodup :=
  (List.nodup_finRange _).product
    ((List.nodup_finRange _).product ((List.nodup_finRange _).product (List.nodup_finRange _)))

theorem nodup_seedRegions : seedRegions.Nodup := by decide

theorem length_combinations : combinations.length = 3749200 := by
  have hgpus : gpuNames.length = 26 := rfl
  have hproviders : providerNames.length = 10 := rfl
  have hregions : seedRegions.length = 20 := rfl
  rw [combinations, List.length_product, List.length_product, List.length_product,
    List.length_finRange, List.length_finRange, List.length_finRange, List.length_finRange, hgpus,
    hproviders, hregions]

/-- The keys of different combinations are different. -/
theorem nodup_keys {c : Catalogue} {db : Database} (hc : c.Of db) {now : Instant}
    {cs : List Combination} (hcs : cs.Nodup) {keys : List NaturalKey}
    (hkeys : (cs.map Combination.draw).mapM (PriceDraw.natural c now) = .ok keys) : keys.Nodup := by
  have hall := List.forall₂_map_left_iff.mp (mapM_ok hkeys)
  refine (List.rel_nodup ⟨?_, ?_⟩ hall).mp hcs
  · intro a k a' h h'
    obtain ⟨hg, hp, hr, ht⟩ := natural_inj hc h h'
    have hg' := List.nodup_iff_injective_get.mp nodup_gpuNames (congrArg Subtype.val hg)
    have hp' := List.nodup_iff_injective_get.mp nodup_providerNames (congrArg Subtype.val hp)
    have hr' := List.nodup_iff_injective_get.mp nodup_seedRegions (congrArg Subtype.val hr)
    exact Prod.ext hg' (Prod.ext hp' (Prod.ext hr' (Fin.ext (congrArg Subtype.val ht))))
  · intro a k k' h h'
    exact Except.ok.inj (h.symm.trans h')

/-- The dicts of `seed_dimensions`. -/
def seedCatalogue : Catalogue := ⟨seedDatabase.gpuModels, seedDatabase.providers⟩

theorem seedCatalogue_of : seedCatalogue.Of seedDatabase := ⟨.refl _, .refl _⟩

/-- Doubles in cents. -/
def seedEnv : Env := { env with fmt := cents }

/-- Started on new year's day, with a server that carries out every statement. -/
def seedWorld : SeedWorld := ⟨newYear, fun _ => none, none⟩

theorem exists_gpu {name : String} (h : name ∈ gpuNames) :
    ∃ g ∈ seedDatabase.gpuModels, g.modelName.val = name := by
  rw [gpuNames_eq] at h
  exact List.mem_map.mp h

theorem exists_provider {name : String} (h : name ∈ providerNames) :
    ∃ p ∈ seedDatabase.providers, p.name.val = name := by
  rw [providerNames_eq] at h
  exact List.mem_map.mp h

/-- Every draw has a natural key, since the year 1 is more than thirty days ago. -/
theorem natural_isOk {now : Instant} (hnow : 3600000000 * 720 ≤ now.us) (d : PriceDraw) :
    ∃ k, d.natural seedCatalogue now = .ok k := by
  obtain ⟨g, hg, hgname⟩ := exists_gpu d.gname.property
  obtain ⟨p, hp, hpname⟩ := exists_provider d.pname.property
  have hgpu := seedCatalogue_of.gpu?_eq.mpr ⟨g, hg, hgname, rfl⟩
  have hprovider := seedCatalogue_of.provider?_eq.mpr ⟨p, hp, hpname, rfl⟩
  have hhours : 3600000000 * d.hoursAgo.val ≤ now.us := by
    have := d.hoursAgo.property
    omega
  rw [PriceDraw.natural, minusHours, if_pos hhours, ok_bind, hgpu, subscriptId, ok_bind, hprovider,
    subscriptId, ok_bind]
  exact ⟨_, rfl⟩

/-- The draw of a combination is stored. -/
theorem Combination.storable (c : Combination) :
    c.draw.Storable seedEnv seedCatalogue newYear seedDatabase := by
  refine storable_of_price seedCatalogue_of fun base hbase => ?_
  obtain ⟨n, rfl, hlow, hhigh⟩ := basePrice_eq hbase
  have hvalue : (seedEnv.fmt.repr (n / 100)).value = n / 100 := tokenOfCents_value n
  have hlow' : (1 : ℚ) ≤ n := by exact_mod_cast hlow
  have hhigh' : (n : ℚ) ≤ 1000 := by exact_mod_cast hhigh
  refine ⟨n / 100, price_eq rfl rfl hlow, ?_, ?_⟩
  · rw [hvalue]
    linarith
  · rw [hvalue]
    linarith

/-- A run through combinations finishes at every target that enough of their keys pass for. -/
theorem seedPrices_of_combinations {cs : List Combination} {target : Int} (htarget : 0 ≤ target)
    (hroom : target < 9223372036854775808) {keys : List NaturalKey}
    (hkeys : (cs.map Combination.draw).mapM (PriceDraw.natural seedCatalogue newYear) = .ok keys)
    (henough : target ≤ (passed 2025000 keys).length) :
    ∃ db' rest, seedPrices seedEnv seedCatalogue seedWorld target seedDatabase
      (cs.map Combination.draw) = .ok (db', rest) := by
  refine seedPrices_isOk htarget (fun _ => rfl) rfl ?_ ?_ ?_ hkeys henough
  · intro d hd
    obtain ⟨c, -, rfl⟩ := List.mem_map.mp hd
    exact c.storable
  · exact fun p hp => absurd hp List.not_mem_nil
  · change ((0 : Nat) : Int) + target < _
    omega

theorem keys_of_combinations (cs : List Combination) : ∃ keys,
    (cs.map Combination.draw).mapM (PriceDraw.natural seedCatalogue newYear) = .ok keys
      ∧ keys.length = cs.length := by
  obtain ⟨keys, hkeys⟩ := mapM_isOk.mpr fun d (_ : d ∈ cs.map Combination.draw) =>
    natural_isOk (show 3600000000 * 720 ≤ newYear.us by decide) d
  refine ⟨keys, hkeys, ?_⟩
  rw [← (mapM_ok hkeys).length_eq, List.length_map]

/-- A run that draws a key again after 2,025,000 different ones counts it twice. -/
theorem seedPrices_counts_twice {cs : List Combination} (hcs : cs.Nodup)
    (hlength : cs.length = 2025000) {c : Combination} (hc : c ∈ cs) : ∃ db' rest,
      seedPrices seedEnv seedCatalogue seedWorld 2025001 seedDatabase
        ((cs ++ [c]).map Combination.draw)
          = .ok (db', rest)
        ∧ db'.pricePoints.length ≤ 2025000 := by
  obtain ⟨keys, hkeys, hcount⟩ := keys_of_combinations cs
  rw [hlength] at hcount
  obtain ⟨k, hk⟩ := natural_isOk (show 3600000000 * 720 ≤ newYear.us by decide) c.draw
  have hmem : k ∈ keys := by
    obtain ⟨k', hk', hsame⟩ :=
      forall₂_mem_right (mapM_ok hkeys).flip (List.mem_map_of_mem (f := Combination.draw) hc)
    exact Except.ok.inj (hk.symm.trans hsame) ▸ hk'
  have hall : ((cs ++ [c]).map Combination.draw).mapM (PriceDraw.natural seedCatalogue newYear)
      = .ok (keys ++ [k]) := by
    rw [List.map_append, List.mapM_append, hkeys, ok_bind, List.map_singleton, List.mapM_cons, hk,
      ok_bind]
    rfl
  have hpassed : passed 2025000 (keys ++ [k]) = keys ++ [k] :=
    passed_concat_of_fills (nodup_keys seedCatalogue_of hcs hkeys) (by decide) hcount
  have henough : (2025001 : Int) ≤ (passed 2025000 (keys ++ [k])).length := by
    rw [hpassed, List.length_append, hcount, List.length_singleton]
    norm_num
  obtain ⟨db', rest, hrun⟩ := seedPrices_of_combinations (by decide) (by decide) hall henough
  have hsame : (keys ++ [k]).toFinset = keys.toFinset := by
    rw [List.toFinset_append, List.toFinset_cons, List.toFinset_nil, insert_empty_eq,
      Finset.union_eq_left, Finset.singleton_subset_iff]
    exact List.mem_toFinset.mpr hmem
  refine ⟨db', rest, hrun, ?_⟩
  calc db'.pricePoints.length ≤ (keys ++ [k]).toFinset.card :=
        seedPrices_rows_le (by decide) rfl hall hrun
    _ = keys.toFinset.card := by rw [hsame]
    _ ≤ keys.length := List.toFinset_card_le keys
    _ = 2025000 := hcount

/-! ## Whether the target is reached -/

/-- **A run on an empty table reaches its target** exactly if it draws no natural key again that was
    forgotten when `seen` was emptied, which it is whenever 2,025,000 different keys were taken. -/
theorem seeding_reaches_iff (env : Env) (catalogue : Catalogue) (outside : SeedWorld) {target : Int}
    (htarget : 0 ≤ target) {db db' : Database} (hempty : db.pricePoints = [])
    {draws rest : List PriceDraw}
    (h : seedPrices env catalogue outside target db draws = .ok (db', rest)) :
    ∃ used keys, draws = used ++ rest
      ∧ used.mapM (PriceDraw.natural catalogue outside.now) = .ok keys
      ∧ ((db'.pricePoints.length : Int) = target ↔ NoneComesBack 2025000 keys) := by
  obtain ⟨used, keys, hdraws, hkeys, htable, hcount⟩ := seedPrices_ok htarget hempty h
  refine ⟨used, keys, hdraws, hkeys, ?_⟩
  rw [htable, ← hcount, Nat.cast_inj]
  exact card_toFinset_eq_iff

theorem seeding_reaches_iff_three : ∃ db' rest used keys,
    seedPrices seedEnv seedCatalogue seedWorld 3 seedDatabase
        ((combinations.take 3).map Combination.draw) = .ok (db', rest)
      ∧ (combinations.take 3).map Combination.draw = used ++ rest
      ∧ used.mapM (PriceDraw.natural seedCatalogue seedWorld.now) = .ok keys
      ∧ ((db'.pricePoints.length : Int) = 3 ↔ NoneComesBack 2025000 keys) := by
  obtain ⟨keys, hkeys, hlength⟩ := keys_of_combinations (combinations.take 3)
  have hpassed : passed 2025000 keys = keys :=
    passedFrom_of_nodup (nodup_keys seedCatalogue_of (nodup_combinations.take) hkeys)
      fun k _ => Finset.notMem_empty k
  have hthree : keys.length = 3 := by
    rw [hlength, List.length_take, length_combinations]
    omega
  obtain ⟨db', rest, hrun⟩ := seedPrices_of_combinations (by decide) (by decide) hkeys
    (show (3 : Int) ≤ _ by rw [hpassed, hthree]; exact le_rfl)
  obtain ⟨used, keys', hdraws, hkeys', hiff⟩ :=
    seeding_reaches_iff seedEnv seedCatalogue seedWorld (by decide) rfl hrun
  exact ⟨db', rest, used, keys', hrun, hdraws, hkeys', hiff⟩

/-- 2,025,000 different keys and then the first again: the run ends one row short. -/
theorem seeding_falls_short : ∃ db' rest,
    seedPrices seedEnv seedCatalogue seedWorld 2025001 seedDatabase
        ((combinations.take 2025000 ++ combinations.take 1).map Combination.draw) = .ok (db', rest)
      ∧ seedDatabase.pricePoints = [] ∧ (db'.pricePoints.length : Int) ≠ 2025001 := by
  have hlength : (combinations.take 2025000).length = 2025000 := by
    rw [List.length_take, length_combinations]
    omega
  have hone : (combinations.take 1).length = 1 := by
    rw [List.length_take, length_combinations]
    omega
  obtain ⟨c, hc⟩ := List.length_eq_one_iff.mp hone
  have hmem : c ∈ combinations.take 2025000 :=
    List.take_subset_take_left combinations (by decide : 1 ≤ 2025000)
    (hc ▸ List.mem_singleton_self c)
  obtain ⟨db', rest, hrun, hle⟩ := seedPrices_counts_twice nodup_combinations.take hlength hmem
  rw [hc]
  exact ⟨db', rest, hrun, rfl, by omega⟩

end GpuIndex
