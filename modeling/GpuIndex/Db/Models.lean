/-
  The tables and their constraints.

  A `Database` is its four tables with the proof that every constraint of the schema holds, so a
  table that breaks one cannot be built.  Rows of `price_points` come only from `insertPrice`,
  which is one row of `INSERT ... ON CONFLICT ON CONSTRAINT uq_price_observation DO NOTHING`: a
  taken natural key is skipped, any other constraint that would break is an error.
-/
import GpuIndex.Lib.Datetime
import GpuIndex.Lib.FirstWins
import GpuIndex.Db.Columns

namespace GpuIndex

open Calendar

/-- What the database or its driver may answer instead of a result. -/
inductive DbError where
  /-- A value the column or the protocol does not take. -/
  | dataError
  /-- A date-time outside the years the driver can send. -/
  | overflow
  /-- More bind parameters than the protocol can count. -/
  | tooManyArguments
  | uniqueViolation
  | foreignKeyViolation
  | sequenceExhausted
  /-- The server is gone, or the statement failed for a reason of its own. -/
  | operational
  deriving DecidableEq

/-! ## Rows -/

/-- `gpu_models` -/
structure GpuModel where
  id : Integer
  vendor : Varchar 32
  modelName : Varchar 64
  vramGb : Integer
  arch : Varchar 32
  tdpW : Integer
  deriving DecidableEq

/-- `providers` -/
structure Provider where
  id : Integer
  name : Varchar 64
  regionScope : Varchar 32
  deriving DecidableEq

/-- The columns of `uq_price_observation`. -/
structure ObservationKey where
  gpuModelId : Integer
  providerId : Integer
  region : Varchar 32
  instanceType : Varchar 64
  observedAt : Instant
  deriving DecidableEq

/-- A row of `price_points` before it has an id. -/
structure PriceValues where
  gpuModelId : Integer
  providerId : Integer
  region : Varchar 32
  instanceType : Varchar 64
  usdPerHour : Numeric 10 4
  availability : Varchar 16
  observedAt : Instant
  deriving DecidableEq

/-- `price_points` -/
structure PricePoint extends PriceValues where
  id : BigInteger
  deriving DecidableEq

/-- `benchmark_runs` -/
structure BenchmarkRun where
  id : BigInteger
  gpuModelId : Integer
  workload : Varchar 48
  precision : Varchar 16
  throughput : Numeric 12 3
  latencyP95Ms : Numeric 10 3
  runAt : Instant
  deriving DecidableEq

/-- The natural key of an observation. -/
def PriceValues.key (v : PriceValues) : ObservationKey :=
  ⟨v.gpuModelId, v.providerId, v.region, v.instanceType, v.observedAt⟩

/-! ## Tables -/

/-- The tables, and the last id `price_points` has handed out. -/
structure Tables where
  gpuModels : List GpuModel
  providers : List Provider
  pricePoints : List PricePoint
  benchmarkRuns : List BenchmarkRun
  lastPriceId : Nat

/-- The values of `price_points`, ids left out. -/
def Tables.priceValues (t : Tables) : List PriceValues := t.pricePoints.map PricePoint.toPriceValues

/-- The constraints of the schema. -/
structure Tables.Constraints (t : Tables) : Prop where
  gpu_models_pkey : (t.gpuModels.map GpuModel.id).Nodup
  gpu_models_model_name_key : (t.gpuModels.map GpuModel.modelName).Nodup
  providers_pkey : (t.providers.map Provider.id).Nodup
  providers_name_key : (t.providers.map Provider.name).Nodup
  price_points_pkey : (t.pricePoints.map PricePoint.id).Nodup
  uq_price_observation : (t.priceValues.map PriceValues.key).Nodup
  price_points_gpu_model_id_fkey : ∀ v ∈ t.priceValues, v.gpuModelId ∈ t.gpuModels.map GpuModel.id
  price_points_provider_id_fkey : ∀ v ∈ t.priceValues, v.providerId ∈ t.providers.map Provider.id
  benchmark_runs_pkey : (t.benchmarkRuns.map BenchmarkRun.id).Nodup
  benchmark_runs_gpu_model_id_fkey :
    ∀ b ∈ t.benchmarkRuns, b.gpuModelId ∈ t.gpuModels.map GpuModel.id

/-- Tables that satisfy every constraint. -/
structure Database extends Tables where
  constraints : Tables.Constraints toTables

/-- The GPU model of an id. -/
def Database.gpuModel? (db : Database) (id : Integer) : Option GpuModel :=
  db.gpuModels.find? fun g => g.id = id

/-- The provider of an id. -/
def Database.provider? (db : Database) (id : Integer) : Option Provider :=
  db.providers.find? fun p => p.id = id

/-- Every price point's provider is found. -/
theorem Database.provider?_isSome (db : Database) {p : PricePoint} (hp : p ∈ db.pricePoints) :
    ∃ pr, db.provider? p.providerId = some pr := by
  have hfk := db.constraints.price_points_provider_id_fkey p.toPriceValues (List.mem_map_of_mem hp)
  obtain ⟨pr, hpr, hid⟩ := List.mem_map.mp hfk
  cases hfind : db.provider? p.providerId with
  | some pr => exact ⟨pr, rfl⟩
  | none =>
    rw [Database.provider?, List.find?_eq_none] at hfind
    exact absurd (by simpa using hid) (hfind pr hpr)

/-! ## Inserting prices -/

/-- The tables with one more price point. -/
def Tables.addPrice (t : Tables) (id : BigInteger) (v : PriceValues) : Tables :=
  { t with pricePoints := t.pricePoints ++ [⟨v, id⟩], lastPriceId := t.lastPriceId + 1 }

theorem Tables.priceValues_addPrice (t : Tables) (id : BigInteger) (v : PriceValues) :
    (t.addPrice id v).priceValues = t.priceValues ++ [v] := by
  simp [Tables.addPrice, Tables.priceValues]

/-- Adding a price whose id and natural key are new and whose references exist keeps every
    constraint. -/
theorem Tables.Constraints.addPrice {t : Tables} (h : t.Constraints) {id : BigInteger}
    {v : PriceValues} (hid : id ∉ t.pricePoints.map PricePoint.id)
    (hkey : v.key ∉ t.priceValues.map PriceValues.key)
    (hgpu : v.gpuModelId ∈ t.gpuModels.map GpuModel.id)
    (hprovider : v.providerId ∈ t.providers.map Provider.id) : (t.addPrice id v).Constraints where
  gpu_models_pkey := h.gpu_models_pkey
  gpu_models_model_name_key := h.gpu_models_model_name_key
  providers_pkey := h.providers_pkey
  providers_name_key := h.providers_name_key
  price_points_pkey := by
    simp only [Tables.addPrice, List.map_append, List.map_cons, List.map_nil]
    exact h.price_points_pkey.append (List.nodup_singleton _) (by simpa using hid)
  uq_price_observation := by
    rw [Tables.priceValues_addPrice, List.map_append]
    exact h.uq_price_observation.append (List.nodup_singleton _) (by simpa using hkey)
  price_points_gpu_model_id_fkey := by
    rw [Tables.priceValues_addPrice]
    intro w hw
    rcases List.mem_append.mp hw with hw | hw
    · exact h.price_points_gpu_model_id_fkey w hw
    · rw [List.mem_singleton.mp hw]
      exact hgpu
  price_points_provider_id_fkey := by
    rw [Tables.priceValues_addPrice]
    intro w hw
    rcases List.mem_append.mp hw with hw | hw
    · exact h.price_points_provider_id_fkey w hw
    · rw [List.mem_singleton.mp hw]
      exact hprovider
  benchmark_runs_pkey := h.benchmark_runs_pkey
  benchmark_runs_gpu_model_id_fkey := h.benchmark_runs_gpu_model_id_fkey

/-- The next id is used up whether or not the row is stored. -/
def Tables.skipPrice (t : Tables) : Tables := { t with lastPriceId := t.lastPriceId + 1 }

theorem Tables.Constraints.skipPrice {t : Tables} (h : t.Constraints) : t.skipPrice.Constraints :=
  ⟨h.1, h.2, h.3, h.4, h.5, h.6, h.7, h.8, h.9, h.10⟩

/-- `nextval` of the id column, `none` when the sequence is used up. -/
def Tables.nextPriceId (t : Tables) : Option BigInteger :=
  if h : t.lastPriceId + 1 < 9223372036854775808 then some ⟨(t.lastPriceId + 1 : Nat), by omega⟩
  else none

/-- Insert one row; a taken natural key is skipped. -/
def Database.insertPrice (db : Database) (v : PriceValues) : Except DbError Database :=
  match db.nextPriceId with
  | none => .error .sequenceExhausted
  | some id =>
    if hkey : v.key ∈ db.priceValues.map PriceValues.key then
      .ok ⟨db.toTables.skipPrice, db.constraints.skipPrice⟩
    else if hid : id ∈ db.pricePoints.map PricePoint.id then .error .uniqueViolation
    else if href : v.gpuModelId ∈ db.gpuModels.map GpuModel.id
        ∧ v.providerId ∈ db.providers.map Provider.id then
      .ok ⟨db.toTables.addPrice id v, db.constraints.addPrice hid hkey href.1 href.2⟩
    else .error .foreignKeyViolation

/-- Insert the rows of one statement, in order. -/
def Database.insertPrices (db : Database) (rows : List PriceValues) : Except DbError Database :=
  rows.foldlM Database.insertPrice db

/-! ## What an insertion changes -/

/-- The table has grown: the same catalogue and benchmarks, and rows with new ids appended. -/
structure Database.Grows (db db' : Database) : Prop where
  gpuModels : db'.gpuModels = db.gpuModels
  providers : db'.providers = db.providers
  benchmarkRuns : db'.benchmarkRuns = db.benchmarkRuns
  pricePoints : db.pricePoints <+: db'.pricePoints

theorem Database.Grows.refl (db : Database) : db.Grows db := ⟨rfl, rfl, rfl, List.prefix_rfl⟩

theorem Database.Grows.trans {a b c : Database} (h₁ : a.Grows b) (h₂ : b.Grows c) : a.Grows c :=
  ⟨h₂.gpuModels.trans h₁.gpuModels, h₂.providers.trans h₁.providers,
    h₂.benchmarkRuns.trans h₁.benchmarkRuns, h₁.pricePoints.trans h₂.pricePoints⟩

/-- One row in: the catalogue stays and the row wins its key only if it is the first. -/
theorem Database.insertPrice_ok {db db' : Database} {v : PriceValues}
    (h : db.insertPrice v = .ok db') :
    db.Grows db' ∧ db'.priceValues = FirstWins.insert PriceValues.key db.priceValues v := by
  unfold Database.insertPrice at h
  cases hid : db.nextPriceId with
  | none => simp only [hid] at h; cases h
  | some id =>
    simp only [hid] at h
    split at h
    · rename_i hkey
      cases h
      exact ⟨⟨rfl, rfl, rfl, List.prefix_rfl⟩, by rw [FirstWins.insert, if_pos hkey]; rfl⟩
    · rename_i hkey
      split at h
      · cases h
      · split at h
        · cases h
          refine ⟨⟨rfl, rfl, rfl, List.prefix_append _ _⟩, ?_⟩
          rw [FirstWins.insert, if_neg hkey]
          exact Tables.priceValues_addPrice _ _ _
        · cases h

/-- **One statement in**: the catalogue stays, and the values are those of first writer wins. -/
theorem Database.insertPrices_ok {db db' : Database} {rows : List PriceValues}
    (h : db.insertPrices rows = .ok db') :
    db.Grows db' ∧ db'.priceValues = FirstWins.insertAll PriceValues.key db.priceValues rows := by
  induction rows generalizing db with
  | nil =>
    cases h
    exact ⟨.refl _, rfl⟩
  | cons v rows ih =>
    rw [Database.insertPrices, List.foldlM_cons] at h
    cases hv : db.insertPrice v with
    | error e => rw [hv] at h; cases h
    | ok mid =>
      rw [hv] at h
      obtain ⟨hgrows, hvalues⟩ := Database.insertPrice_ok hv
      obtain ⟨hgrows', hvalues'⟩ := ih h
      exact ⟨hgrows.trans hgrows', by rw [hvalues', hvalues]; rfl⟩

/-! ## When an insertion succeeds -/

/-- The values name rows of the catalogue. -/
def Database.References (db : Database) (v : PriceValues) : Prop :=
  v.gpuModelId ∈ db.gpuModels.map GpuModel.id ∧ v.providerId ∈ db.providers.map Provider.id

theorem Database.insertPrice_isOk {db : Database} {v : PriceValues} (href : db.References v) :
    (∃ db', db.insertPrice v = .ok db') ↔ db.lastPriceId + 1 < 9223372036854775808
      ∧ (v.key ∉ db.priceValues.map PriceValues.key →
          ∀ p ∈ db.pricePoints, p.id.val ≠ (db.lastPriceId + 1 : Nat)) := by
  unfold Database.insertPrice Tables.nextPriceId
  by_cases hlast : db.lastPriceId + 1 < 9223372036854775808
  · rw [dif_pos hlast]
    dsimp only
    split
    · rename_i hkey
      exact ⟨fun _ => ⟨hlast, fun h => absurd hkey h⟩, fun _ => ⟨_, rfl⟩⟩
    · rename_i hkey
      split
      · rename_i hid
        obtain ⟨p, hp, hpid⟩ := List.mem_map.mp hid
        refine ⟨(fun ⟨_, h⟩ => nomatch h), fun ⟨_, hfree⟩ => ?_⟩
        exact absurd (congrArg BigInteger.val hpid) (hfree hkey p hp)
      · rename_i hid
        rw [dif_pos (show v.gpuModelId ∈ db.gpuModels.map GpuModel.id
          ∧ v.providerId ∈ db.providers.map Provider.id from href)]
        refine ⟨fun _ => ⟨hlast, fun _ p hp hpid => hid ?_⟩, fun _ => ⟨_, rfl⟩⟩
        exact List.mem_map.mpr ⟨p, hp, BigInteger.val_injective hpid⟩
  · rw [dif_neg hlast]
    exact ⟨(fun ⟨_, h⟩ => nomatch h), fun ⟨h, _⟩ => absurd h hlast⟩

/-- One row in: an id is used up, and no other comes into the table. -/
theorem Database.insertPrice_ids {db db' : Database} {v : PriceValues}
    (h : db.insertPrice v = .ok db') : db'.lastPriceId = db.lastPriceId + 1
      ∧ ∀ p ∈ db'.pricePoints, p ∈ db.pricePoints ∨ p.id.val = (db.lastPriceId + 1 : Nat) := by
  unfold Database.insertPrice Tables.nextPriceId at h
  split at h
  · cases h
  · rename_i id hid
    split at hid
    · cases hid
      split at h
      · cases h
        exact ⟨rfl, fun p hp => .inl hp⟩
      · split at h
        · cases h
        · split at h
          · cases h
            refine ⟨rfl, fun p hp => ?_⟩
            rcases List.mem_append.mp hp with hp | hp
            · exact .inl hp
            · rw [List.mem_singleton.mp hp]
              exact .inr rfl
          · cases h
    · cases hid

/-- No row has an id that the sequence has not handed out. -/
def Tables.FreshIds (t : Tables) : Prop := ∀ p ∈ t.pricePoints, p.id.val ≤ t.lastPriceId

theorem Tables.FreshIds.insertPrice {db db' : Database} (hfresh : db.FreshIds) {v : PriceValues}
    (h : db.insertPrice v = .ok db') : db'.FreshIds := by
  obtain ⟨hlast, hids⟩ := Database.insertPrice_ids h
  intro p hp
  rcases hids p hp with hp | hid
  · have := hfresh p hp
    omega
  · omega

/-- **Where the sequence is ahead of the table** a statement succeeds while ids last. -/
theorem Tables.FreshIds.insertPrices {db : Database} (hfresh : db.FreshIds)
    {rows : List PriceValues} (hroom : db.lastPriceId + rows.length < 9223372036854775808)
    (href : ∀ v ∈ rows, db.References v) : ∃ db', db.insertPrices rows = .ok db' ∧ db'.FreshIds
      ∧ db'.lastPriceId = db.lastPriceId + rows.length := by
  induction rows generalizing db with
  | nil => exact ⟨db, rfl, hfresh, rfl⟩
  | cons v rows ih =>
    obtain ⟨hv, hrest⟩ := List.forall_mem_cons.mp href
    rw [List.length_cons] at hroom
    obtain ⟨mid, hmid⟩ := (Database.insertPrice_isOk hv).mpr
      ⟨by omega, fun _ p hp => by have := hfresh p hp; omega⟩
    obtain ⟨hlast, -⟩ := Database.insertPrice_ids hmid
    obtain ⟨hgrows, -⟩ := Database.insertPrice_ok hmid
    obtain ⟨db', hdb', hfresh', hlast'⟩ := ih (hfresh.insertPrice hmid) (by omega) fun w hw => by
      rw [Database.References, hgrows.gpuModels, hgrows.providers]
      exact hrest w hw
    refine ⟨db', ?_, hfresh', by rw [List.length_cons]; omega⟩
    rw [Database.insertPrices, List.foldlM_cons, hmid]
    exact hdb'

end GpuIndex
