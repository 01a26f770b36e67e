/-
  A concrete environment and small databases.

  `halves` is a format whose doubles are the multiples of one half, printed with one decimal, as
  those doubles are; `cents` has the multiples of one hundredth.  `tiny` is a database with one row
  in every table, for any GPU id, availability and benchmark: the smallest table on which two
  queries can differ.  `market` has several of everything.
-/
import GpuIndex.Schemas.Models
import GpuIndex.Lib.IsoFormat
import GpuIndex.Lib.Joined
import Mathlib.Data.List.FinRange
import Mathlib.Data.String.Basic

namespace GpuIndex

open Calendar OrderBy
open JsonText (FloatFormat FloatToken FloatVal decimalValue)

/-! ## Doubles that are multiples of a unit -/

/-- Rounding to the nearest multiple of `1 / m` keeps the multiples. -/
theorem floor_multiple {m : ℚ} (hm : 0 < m) (n : Int) : ⌊m * ((n : ℚ) / m) + 1 / 2⌋ = n := by
  rw [mul_div_cancel₀ (n : ℚ) hm.ne', Int.floor_eq_iff]
  constructor <;> linarith

/-- A multiple of `1 / m` in that unit. -/
theorem floor_unit {m : ℚ} (hm : 0 < m) (n : Int) : ⌊m * ((n : ℚ) / m)⌋ = n := by
  rw [mul_div_cancel₀ (n : ℚ) hm.ne']
  exact Int.floor_intCast n

/-- A multiple of `1 / m` from its sign and its size. -/
theorem signed_multiple (m : ℚ) (n : Int) :
    (if n < 0 then -((n.natAbs : ℚ) / m) else (n.natAbs : ℚ) / m) = (n : ℚ) / m := by
  split
  · rename_i hneg
    rw [Nat.cast_natAbs, abs_of_neg hneg]
    push_cast
    ring
  · rename_i hpos
    rw [Nat.cast_natAbs, abs_of_nonneg (not_lt.mp hpos)]

/-! ## Doubles that are multiples of one half -/

/-- Round to the nearest half. -/
def roundHalves (q : ℚ) : FloatVal := .finite (⌊2 * q + 1 / 2⌋ / 2)

theorem roundHalves_half (n : Int) : roundHalves (n / 2) = .finite (n / 2) := by
  rw [roundHalves, floor_multiple two_pos]

/-- A half printed with one decimal. -/
def tokenOfHalf (q : ℚ) : FloatToken where
  neg := ⌊2 * q⌋ < 0
  whole := ⌊2 * q⌋.natAbs / 2
  frac := if ⌊2 * q⌋.natAbs % 2 = 0 then ['0'] else ['5']
  exp := none
  frac_digits := by
    intro c hc
    split at hc <;> rw [List.mem_singleton.mp hc] <;> decide
  exp_digits := fun _ h => nomatch h
  isFloat := .inl (by split <;> exact List.cons_ne_nil _ _)

theorem tokenOfHalf_value (n : Int) : (tokenOfHalf (n / 2)).value = n / 2 := by
  have hfloor : ⌊2 * ((n : ℚ) / 2)⌋ = n := floor_unit two_pos n
  have hmantissa : ((n.natAbs / 2 : Nat) : ℚ)
      + (Nat.ofDigitChars 10 (if n.natAbs % 2 = 0 then ['0'] else ['5']) 0 : ℚ)
        / 10 ^ (if n.natAbs % 2 = 0 then ['0'] else ['5']).length = (n.natAbs : ℚ) / 2 := by
    have hparts : (n.natAbs : ℚ) = 2 * (n.natAbs / 2 : Nat) + (n.natAbs % 2 : Nat) := by
      exact_mod_cast (Nat.div_add_mod n.natAbs 2).symm
    rcases Nat.mod_two_eq_zero_or_one n.natAbs with h | h
    · rw [h] at hparts ⊢
      rw [if_pos rfl, show Nat.ofDigitChars 10 ['0'] 0 = 0 from rfl, hparts]
      simp
    · rw [h] at hparts ⊢
      rw [if_neg one_ne_zero, show Nat.ofDigitChars 10 ['5'] 0 = 5 from rfl, hparts]
      norm_num
      ring
  simp only [FloatToken.value, tokenOfHalf, decimalValue, hfloor, hmantissa, decide_eq_true_eq]
  exact signed_multiple 2 n

/-- Multiples of one half. -/
def halves : FloatFormat where
  round := roundHalves
  repr := tokenOfHalf
  round_round := by
    intro x q h
    cases h
    exact roundHalves_half _
  round_repr := by
    intro q h
    have hq : q = (⌊2 * q + 1 / 2⌋ : ℚ) / 2 := (FloatVal.finite.inj h).symm
    rw [hq, tokenOfHalf_value, roundHalves_half]

/-- Halves keep the order of what they round. -/
theorem halves_monotone {x y : ℚ} (h : x ≤ y) :
    ∃ a b : ℚ, halves.round x = .finite a ∧ halves.round y = .finite b ∧ a ≤ b := by
  refine ⟨_, _, rfl, rfl, ?_⟩
  have hfloor : ⌊2 * x + 1 / 2⌋ ≤ ⌊2 * y + 1 / 2⌋ := Int.floor_le_floor (by linarith)
  have hcast : (⌊2 * x + 1 / 2⌋ : ℚ) ≤ (⌊2 * y + 1 / 2⌋ : ℚ) := by exact_mod_cast hfloor
  linarith

/-! ## Doubles that are multiples of one hundredth -/

/-- Round to the nearest hundredth. -/
def roundCents (q : ℚ) : FloatVal := .finite (⌊100 * q + 1 / 2⌋ / 100)

theorem roundCents_cents (n : Int) : roundCents (n / 100) = .finite (n / 100) := by
  rw [roundCents, floor_multiple (by norm_num)]

/-- The decimals of a number of hundredths. -/
def centDigits (n : Nat) : List Char :=
  if n % 10 = 0 then [Nat.digitChar (n / 10)] else [Nat.digitChar (n / 10), Nat.digitChar (n % 10)]

theorem centDigits_digits {n : Nat} (hn : n < 100) : ∀ c ∈ centDigits n, c.isDigit = true := by
  intro c hc
  have hdigit {d : Nat} (hd : d < 10) : (Nat.digitChar d).isDigit = true := by
    rw [Nat.isDigit_digitChar, decide_eq_true hd]
  unfold centDigits at hc
  split at hc
  · rw [List.mem_singleton.mp hc]
    exact hdigit (by omega)
  · rcases List.mem_cons.mp hc with rfl | hc
    · exact hdigit (by omega)
    · rw [List.mem_singleton.mp hc]
      exact hdigit (by omega)

theorem centDigits_value {n : Nat} (hn : n < 100) : (centDigits n).length ≤ 2
    ∧ Nat.ofDigitChars 10 (centDigits n) 0 * 10 ^ (2 - (centDigits n).length) = n := by
  unfold centDigits
  split
  · rename_i hten
    rw [Nat.ofDigitChars_cons_digitChar_of_lt_ten (by omega), Nat.ofDigitChars_nil,
      List.length_singleton]
    omega
  · rw [Nat.ofDigitChars_cons_digitChar_of_lt_ten (by omega),
      Nat.ofDigitChars_cons_digitChar_of_lt_ten (by omega), Nat.ofDigitChars_nil, List.length_cons,
      List.length_singleton]
    omega

/-- A number of hundredths printed with its one or two decimals. -/
def tokenOfCents (q : ℚ) : FloatToken where
  neg := ⌊100 * q⌋ < 0
  whole := ⌊100 * q⌋.natAbs / 100
  frac := centDigits (⌊100 * q⌋.natAbs % 100)
  exp := none
  frac_digits := centDigits_digits (Nat.mod_lt _ (by decide))
  exp_digits := fun _ h => nomatch h
  isFloat := .inl (by unfold centDigits; split <;> exact List.cons_ne_nil _ _)

theorem tokenOfCents_value (n : Int) : (tokenOfCents (n / 100)).value = n / 100 := by
  have hfloor : ⌊100 * ((n : ℚ) / 100)⌋ = n := floor_unit (by norm_num) n
  have hmantissa : ((n.natAbs / 100 : Nat) : ℚ)
      + (Nat.ofDigitChars 10 (centDigits (n.natAbs % 100)) 0 : ℚ)
        / 10 ^ (centDigits (n.natAbs % 100)).length = (n.natAbs : ℚ) / 100 := by
    have hparts : (n.natAbs : ℚ) = 100 * (n.natAbs / 100 : Nat) + (n.natAbs % 100 : Nat) := by
      exact_mod_cast (Nat.div_add_mod n.natAbs 100).symm
    obtain ⟨hlength, hvalue⟩ := centDigits_value (Nat.mod_lt n.natAbs (by decide : 100 > 0))
    have hscaled : ((n.natAbs % 100 : Nat) : ℚ)
        = Nat.ofDigitChars 10 (centDigits (n.natAbs % 100)) 0
          * 10 ^ (2 - (centDigits (n.natAbs % 100)).length) := by exact_mod_cast hvalue.symm
    have hpow : (10 : ℚ) ^ (centDigits (n.natAbs % 100)).length
        * 10 ^ (2 - (centDigits (n.natAbs % 100)).length) = 100 := by
      rw [← pow_add, Nat.add_sub_cancel' hlength]
      norm_num
    rw [hparts, hscaled, ← hpow]
    field_simp
  simp only [FloatToken.value, tokenOfCents, decimalValue, hfloor, hmantissa, decide_eq_true_eq]
  exact signed_multiple 100 n

/-- Multiples of one hundredth. -/
def cents : FloatFormat where
  round := roundCents
  repr := tokenOfCents
  round_round := by
    intro x q h
    cases h
    exact roundCents_cents _
  round_repr := by
    intro q h
    have hq : q = (⌊100 * q + 1 / 2⌋ : ℚ) / 100 := (FloatVal.finite.inj h).symm
    rw [hq, tokenOfCents_value, roundCents_cents]

/-! ## The environment -/

/-- Text ordered by code points. -/
def byCodePoint : Collation where
  toOrder := Order.asc id
  antisymm _ _ := le_antisymm

/-- Default settings, UTC, a clock that is right. -/
def env : Env where
  settings := {}
  fmt := halves
  collation := byCodePoint
  localOffset _ := Offset.zero
  strHash _ := 0
  clock := id
  parseDatetime s := fromIsoformat s.toList

/-- `2026-01-01T00:00:00` UTC. -/
def newYear : Instant := ⟨63902822400000000, by decide⟩

/-! ## Databases -/

/-- The id 1 is an `INTEGER`. -/
theorem one_range : -2147483648 ≤ (1 : Int) ∧ (1 : Int) < 2147483648 := by decide

/-- A GPU model of any id. -/
def h100 (id : Integer) : GpuModel where
  id := id
  vendor := ⟨"NVIDIA", by decide, by decide⟩
  modelName := ⟨"H100 SXM", by decide, by decide⟩
  vramGb := ⟨80, by decide⟩
  arch := ⟨"Hopper", by decide, by decide⟩
  tdpW := ⟨700, by decide⟩

/-- A provider. -/
def aws : Provider where
  id := ⟨1, by decide⟩
  name := ⟨"AWS", by decide, by decide⟩
  regionScope := ⟨"global", by decide, by decide⟩

/-- An observation of a GPU model at the provider. -/
def observation (gpuId : Integer) (availability : Varchar 16) : PriceValues where
  gpuModelId := gpuId
  providerId := aws.id
  region := ⟨"us-east-1", by decide, by decide⟩
  instanceType := ⟨"aws-h100-8x", by decide, by decide⟩
  usdPerHour := ⟨25000, by decide⟩
  availability := availability
  observedAt := newYear

/-- The observation as a row. -/
def pricePoint (gpuId : Integer) (availability : Varchar 16) : PricePoint :=
  ⟨observation gpuId availability, ⟨1, by decide⟩⟩

/-- A benchmark run of a GPU model. -/
def benchmark (gpuId : Integer) (workload : Varchar 48) (precision : Varchar 16) :
    BenchmarkRun where
  id := ⟨1, by decide⟩
  gpuModelId := gpuId
  workload := workload
  precision := precision
  throughput := ⟨2500000, by decide⟩
  latencyP95Ms := ⟨12500, by decide⟩
  runAt := newYear

/-- One GPU model and one provider, with these benchmark runs and no prices yet. -/
def catalogueTables (gpuId : Integer) (runs : List BenchmarkRun) : Tables where
  gpuModels := [h100 gpuId]
  providers := [aws]
  pricePoints := []
  benchmarkRuns := runs
  lastPriceId := 0

theorem catalogueTables_constraints (gpuId : Integer) {runs : List BenchmarkRun}
    (hids : (runs.map BenchmarkRun.id).Nodup) (hgpu : ∀ b ∈ runs, b.gpuModelId = gpuId) :
    (catalogueTables gpuId runs).Constraints where
  gpu_models_pkey := List.nodup_singleton _
  gpu_models_model_name_key := List.nodup_singleton _
  providers_pkey := List.nodup_singleton _
  providers_name_key := List.nodup_singleton _
  price_points_pkey := List.nodup_nil
  uq_price_observation := List.nodup_nil
  price_points_gpu_model_id_fkey := fun _ h => absurd h List.not_mem_nil
  price_points_provider_id_fkey := fun _ h => absurd h List.not_mem_nil
  benchmark_runs_pkey := hids
  benchmark_runs_gpu_model_id_fkey := fun b hb => by
    rw [hgpu b hb]
    exact List.mem_singleton_self _

/-- One GPU model, one provider, no benchmark runs and no prices. -/
def catalogue (gpuId : Integer) : Database :=
  ⟨catalogueTables gpuId [], catalogueTables_constraints gpuId List.nodup_nil
    fun _ h => absurd h List.not_mem_nil⟩

theorem benchmark_constraints (gpuId : Integer) (workload : Varchar 48) (precision : Varchar 16) :
    (catalogueTables gpuId [benchmark gpuId workload precision]).Constraints :=
  catalogueTables_constraints gpuId (List.nodup_singleton (benchmark gpuId workload precision).id)
    fun b hb => by rw [List.mem_singleton.mp hb]; rfl

/-- One row in every table. -/
def tiny (gpuId : Integer) (availability : Varchar 16) (workload : Varchar 48)
    (precision : Varchar 16) : Database :=
  ⟨(catalogueTables gpuId [benchmark gpuId workload precision]).addPrice ⟨1, by decide⟩
      (observation gpuId availability),
    (benchmark_constraints gpuId workload precision).addPrice List.not_mem_nil List.not_mem_nil
      (List.mem_singleton_self _) (List.mem_singleton_self _)⟩

section Tiny

variable (gpuId : Integer) (availability : Varchar 16) (workload : Varchar 48)
  (precision : Varchar 16)

@[simp] theorem tiny_pricePoints :
    (tiny gpuId availability workload precision).pricePoints
      = [pricePoint gpuId availability] := rfl

@[simp] theorem tiny_benchmarkRuns :
    (tiny gpuId availability workload precision).benchmarkRuns
      = [benchmark gpuId workload precision] := rfl

theorem tiny_gpuModel? :
    (tiny gpuId availability workload precision).gpuModel? gpuId = some (h100 gpuId) :=
  List.find?_cons_of_pos (decide_eq_true rfl)

theorem tiny_provider? :
    (tiny gpuId availability workload precision).provider? aws.id = some aws := rfl

end Tiny

/-- A world on a database: an empty cache on new year's day. -/
def worldOf (db : Database) : World := ⟨ExpiringStore.empty, db, newYear, ⟨0, 0, 0⟩⟩

/-- `"available"` as a column value. -/
def available : Varchar 16 := ⟨"available", by decide, by decide⟩

/-- The benchmark of the integration tests. -/
def llmInference : Varchar 48 := ⟨"llm-inference-7b", by decide, by decide⟩

/-- Its precision. -/
def fp16 : Varchar 16 := ⟨"fp16", by decide, by decide⟩

/-- The database with one available price of GPU 1. -/
def tinyDb : Database := tiny ⟨1, by decide⟩ available llmInference fp16

/-! ## Several prices -/

/-- One GPU model and one provider with these prices. -/
def pricedTables (gpuId : Integer) (prices : List PricePoint) : Tables :=
  { catalogueTables gpuId [] with pricePoints := prices, lastPriceId := prices.length }

/-- Prices of one GPU model at the provider. -/
structure PricesOf (gpuId : Integer) (prices : List PricePoint) : Prop where
  ids : (prices.map PricePoint.id).Nodup
  keys : ((prices.map PricePoint.toPriceValues).map PriceValues.key).Nodup
  gpuModelId : ∀ p ∈ prices, p.gpuModelId = gpuId
  providerId : ∀ p ∈ prices, p.providerId = aws.id

theorem pricedTables_constraints {gpuId : Integer} {prices : List PricePoint}
    (h : PricesOf gpuId prices) : (pricedTables gpuId prices).Constraints where
  gpu_models_pkey := List.nodup_singleton _
  gpu_models_model_name_key := List.nodup_singleton _
  providers_pkey := List.nodup_singleton _
  providers_name_key := List.nodup_singleton _
  price_points_pkey := h.ids
  uq_price_observation := h.keys
  price_points_gpu_model_id_fkey := fun v hv => by
    obtain ⟨p, hp, rfl⟩ := List.mem_map.mp hv
    rw [h.gpuModelId p hp]
    exact List.mem_singleton_self _
  price_points_provider_id_fkey := fun v hv => by
    obtain ⟨p, hp, rfl⟩ := List.mem_map.mp hv
    rw [h.providerId p hp]
    exact List.mem_singleton_self _
  benchmark_runs_pkey := List.nodup_nil
  benchmark_runs_gpu_model_id_fkey := fun _ h => absurd h List.not_mem_nil

/-- The database of these prices. -/
def priced {gpuId : Integer} {prices : List PricePoint} (h : PricesOf gpuId prices) : Database :=
  ⟨pricedTables gpuId prices, pricedTables_constraints h⟩

/-- `"constrained"` as a column value. -/
def constrained : Varchar 16 := ⟨"constrained", by decide, by decide⟩

/-- One day before new year's day. -/
def newYearsEve : Instant := ⟨63902736000000000, by decide⟩

/-- A group whose capacity was available and is not any more. -/
def soldOut : List PricePoint :=
  [⟨{ observation ⟨1, by decide⟩ available with observedAt := newYearsEve }, ⟨1, by decide⟩⟩,
    ⟨observation ⟨1, by decide⟩ constrained, ⟨2, by decide⟩⟩]

theorem pricesOf_soldOut : PricesOf ⟨1, one_range⟩ soldOut where
  ids := by decide
  keys := by decide
  gpuModelId := by decide
  providerId := by decide

/-- Two instance types of one group, observed at one time. -/
def twins : List PricePoint :=
  [⟨observation ⟨1, by decide⟩ available, ⟨1, by decide⟩⟩,
    ⟨{ observation ⟨1, by decide⟩ available with
        instanceType := ⟨"aws-h100-1x", by decide, by decide⟩ }, ⟨2, by decide⟩⟩]

theorem pricesOf_twins : PricesOf ⟨1, one_range⟩ twins where
  ids := by decide
  keys := by decide
  gpuModelId := by decide
  providerId := by decide

/-- The instance types of the twins. -/
def eightfold : Varchar 64 := ⟨"aws-h100-8x", by decide, by decide⟩

def single : Varchar 64 := ⟨"aws-h100-1x", by decide, by decide⟩

/-- A region named by its number. -/
def numberedRegion (i : Fin 201) : Varchar 32 where
  val := Nat.repr i.val
  length_le := by
    have hlt : i.val < 10 ^ 3 := i.isLt.trans (by decide)
    have hdigits := (Nat.length_toDigits_le_iff (b := 10) (k := 3) (by decide) (by decide)).mpr hlt
    rw [← String.length_toList, Nat.toList_repr]
    omega
  noNul := by
    rw [NoNul, Nat.toList_repr]
    exact Joined.not_mem_toDigits rfl i.val

theorem numberedRegion_injective : Function.Injective numberedRegion := by
  intro i j h
  have htext := congrArg (fun r => r.val.toList) h
  simp only [numberedRegion, Nat.toList_repr] at htext
  exact Fin.val_injective (Joined.toDigits_injective htext)

/-- The GPU in 201 regions. -/
def manyRegions : List PricePoint :=
  (List.finRange 201).map fun i =>
    ⟨{ observation ⟨1, by decide⟩ available with region := numberedRegion i },
      ⟨i.val + 1, by have := i.isLt; omega⟩⟩

theorem pricesOf_manyRegions : PricesOf ⟨1, one_range⟩ manyRegions where
  ids := by
    rw [manyRegions, List.map_map]
    refine (List.nodup_finRange 201).map fun i j h => Fin.val_injective ?_
    simpa using congrArg BigInteger.val h
  keys := by
    rw [manyRegions, List.map_map, List.map_map]
    refine (List.nodup_finRange 201).map fun i j h => numberedRegion_injective ?_
    exact congrArg ObservationKey.region h
  gpuModelId := fun p hp => by
    obtain ⟨i, -, rfl⟩ := List.mem_map.mp hp
    rfl
  providerId := fun p hp => by
    obtain ⟨i, -, rfl⟩ := List.mem_map.mp hp
    rfl

/-! ## A market -/

/-- A second provider. -/
def gcp : Provider where
  id := ⟨2, by decide⟩
  name := ⟨"GCP", by decide, by decide⟩
  regionScope := ⟨"global", by decide, by decide⟩

/-- Two more GPU models. -/
def a100 : GpuModel :=
  { h100 ⟨2, by decide⟩ with modelName := ⟨"A100 SXM", by decide, by decide⟩ }

def l4 : GpuModel :=
  { h100 ⟨3, by decide⟩ with modelName := ⟨"L4", by decide, by decide⟩ }

/-- Ten days before new year's day. -/
def tenDaysBefore : Instant := ⟨63901958400000000, by decide⟩

/-- A second precision. -/
def fp8 : Varchar 16 := ⟨"fp8", by decide, by decide⟩

/-- Another region. -/
def usWest2 : Varchar 32 := ⟨"us-west-2", by decide, by decide⟩

/-- An offer of available capacity. -/
def offer (id : BigInteger) (g : GpuModel) (pr : Provider) (usdPerHour : Numeric 10 4)
    (observedAt : Instant) : PricePoint :=
  ⟨{ observation g.id available with
      providerId := pr.id, usdPerHour := usdPerHour, observedAt := observedAt }, id⟩

/-- An offer that is superseded by a dearer one. -/
def h100Old : PricePoint :=
  offer ⟨1, by decide⟩ (h100 ⟨1, by decide⟩) aws ⟨20000, by decide⟩ newYearsEve

def h100New : PricePoint :=
  offer ⟨2, by decide⟩ (h100 ⟨1, by decide⟩) aws ⟨25000, by decide⟩ newYear

/-- An offer of ten days before. -/
def h100Gcp : PricePoint :=
  offer ⟨3, by decide⟩ (h100 ⟨1, by decide⟩) gcp ⟨30000, by decide⟩ tenDaysBefore

def a100Aws : PricePoint := offer ⟨4, by decide⟩ a100 aws ⟨15000, by decide⟩ newYear

def a100Gcp : PricePoint := offer ⟨5, by decide⟩ a100 gcp ⟨10000, by decide⟩ newYear

def l4Gcp : PricePoint := offer ⟨6, by decide⟩ l4 gcp ⟨5000, by decide⟩ newYear

/-- Three GPU models of two providers; the last model has a run that got nothing done. -/
def marketTables : Tables where
  gpuModels := [h100 ⟨1, by decide⟩, a100, l4]
  providers := [aws, gcp]
  pricePoints := [h100Old, h100New, h100Gcp, a100Aws, a100Gcp, l4Gcp]
  benchmarkRuns :=
    [{ benchmark ⟨1, by decide⟩ llmInference fp16 with throughput := ⟨2000000, by decide⟩ },
      { benchmark ⟨1, by decide⟩ llmInference fp8 with
          id := ⟨2, by decide⟩, throughput := ⟨4000000, by decide⟩ },
      { benchmark ⟨2, by decide⟩ llmInference fp16 with
          id := ⟨3, by decide⟩, throughput := ⟨1000000, by decide⟩ },
      { benchmark ⟨3, by decide⟩ llmInference fp16 with
          id := ⟨4, by decide⟩, throughput := ⟨0, by decide⟩ }]
  lastPriceId := 6

theorem market_constraints : marketTables.Constraints where
  gpu_models_pkey := by decide
  gpu_models_model_name_key := by decide
  providers_pkey := by decide
  providers_name_key := by decide
  price_points_pkey := by decide
  uq_price_observation := by decide
  price_points_gpu_model_id_fkey := by decide
  price_points_provider_id_fkey := by decide
  benchmark_runs_pkey := by decide
  benchmark_runs_gpu_model_id_fkey := by decide

def market : Database := ⟨marketTables, market_constraints⟩

/-- Two more offers of the first GPU: one as new as the newest, one that is older than all but the
    last. -/
def westOffers : List PricePoint :=
  [{ offer ⟨7, by decide⟩ (h100 ⟨1, by decide⟩) aws ⟨35000, by decide⟩ newYear with
        region := usWest2 },
    { offer ⟨8, by decide⟩ (h100 ⟨1, by decide⟩) aws ⟨40000, by decide⟩ tenDaysBefore with
        region := usWest2 }]

/-! ## Payloads -/

/-- The name of the GPU model passes validation. -/
theorem h100_length : LengthWithin 64 "H100 SXM" := by decide

/-- A price that passes validation. -/
theorem fiveHalves_range : 0 < (5 / 2 : ℚ) ∧ (5 / 2 : ℚ) ≤ 1000 := by norm_num

/-- An item of the provider, observed on new year's day. -/
def itemOf (gpuModelName : String) (usdPerHour : ℚ) (name_length : LengthWithin 64 gpuModelName)
    (usdPerHour_range : 0 < usdPerHour ∧ usdPerHour ≤ 1000) : PricePointIn where
  gpuModelName := gpuModelName
  providerName := "AWS"
  region := "us-east-1"
  instanceType := "aws-h100-8x"
  usdPerHour := usdPerHour
  availability := "available"
  observedAt := utc newYear
  gpuModelName_length := name_length
  providerName_length := by decide
  region_length := by decide
  instanceType_length := by decide
  usdPerHour_range := usdPerHour_range
  availability_pattern := by decide

end GpuIndex
