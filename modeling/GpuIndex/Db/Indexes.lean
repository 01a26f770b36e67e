/-
  The performance indexes.

  `tuningIndexes` is the one list that the migration creates and that the tuning script drops and
  rebuilds.  Below it stands what each of the five indexes holds: one
  structure for its leaves, with the key columns and those it includes, and the order of its keys.

  `Index.Kept` follows an index through time: it is built over the table of the moment, and from
  then on every commit puts in a leaf for each row that it stores.  **It stays built**
  (`kept_iff_built`).
-/
import GpuIndex.Db.Queries
import GpuIndex.Lib.IndexScan

namespace GpuIndex

open Calendar OrderBy

/-! ## `TUNING_INDEXES` -/

/-- A key column and its direction. -/
inductive KeyColumn where
  | asc (name : String)
  | desc (name : String)
  deriving DecidableEq

def KeyColumn.name : KeyColumn → String
  | .asc name => name
  | .desc name => name

def KeyColumn.ddl : KeyColumn → String
  | .asc name => name
  | .desc name => name ++ " DESC"

/-- A `CREATE INDEX`, clause by clause. -/
structure IndexDef where
  name : String
  table : String
  columns : List KeyColumn
  included : List String := []
  predicate : Option String := none
  deriving DecidableEq

/-- Names in parentheses. -/
def parenthesised (columns : List String) : String := "(" ++ ", ".intercalate columns ++ ")"

/-- `create_ddl` -/
def IndexDef.ddl (ix : IndexDef) : String :=
  "CREATE INDEX " ++ ix.name ++ " ON " ++ ix.table ++ " "
    ++ parenthesised (ix.columns.map KeyColumn.ddl)
    ++ (if ix.included = [] then "" else " INCLUDE " ++ parenthesised ix.included)
    ++ (match ix.predicate with
      | none => ""
      | some p => " WHERE " ++ p)

def ixPriceLatest : IndexDef where
  name := "ix_price_latest"
  table := "price_points"
  columns := [.asc "gpu_model_id", .asc "provider_id", .asc "region", .desc "observed_at"]
  included := ["usd_per_hour", "instance_type", "availability"]

def ixPriceMedian : IndexDef where
  name := "ix_price_median"
  table := "price_points"
  columns := [.asc "gpu_model_id", .asc "observed_at"]
  included := ["usd_per_hour"]

def ixPriceKeyset : IndexDef where
  name := "ix_price_keyset"
  table := "price_points"
  columns := [.asc "gpu_model_id", .desc "observed_at", .desc "id"]

def ixPriceCheapest : IndexDef where
  name := "ix_price_cheapest"
  table := "price_points"
  columns := [.asc "gpu_model_id", .asc "usd_per_hour"]
  included := ["provider_id", "region", "observed_at"]
  predicate := some "availability = 'available'"

def ixBenchmarkBest : IndexDef where
  name := "ix_benchmark_best"
  table := "benchmark_runs"
  columns := [.asc "workload", .asc "gpu_model_id", .desc "throughput"]
  included := ["precision"]

/-- `TUNING_INDEXES` -/
def tuningIndexes : List IndexDef :=
  [ixPriceLatest, ixPriceMedian, ixPriceKeyset, ixPriceCheapest, ixBenchmarkBest]

example : ixPriceCheapest.ddl = "CREATE INDEX ix_price_cheapest ON price_points (gpu_model_id, "
    ++ "usd_per_hour) INCLUDE (provider_id, region, observed_at) "
    ++ "WHERE availability = 'available'" := by
  decide +kernel

/-- `INDEX_NAMES` -/
def indexNames : List String := tuningIndexes.map IndexDef.name

/-- `TABLES_INDEXED`, the set in order. -/
def tablesIndexed : List String :=
  ((tuningIndexes.map IndexDef.table).dedup).insertionSort (· ≤ ·)

/-! ## What the indexes hold -/

/-- A leaf of `ix_price_median`. -/
structure MedianLeaf where
  gpuModelId : Integer
  observedAt : Instant
  usdPerHour : Numeric 10 4
  deriving DecidableEq

/-- A leaf of `ix_price_keyset`. -/
structure KeysetLeaf where
  gpuModelId : Integer
  observedAt : Instant
  id : BigInteger
  deriving DecidableEq

/-- A leaf of `ix_price_cheapest`. -/
structure CheapestLeaf where
  gpuModelId : Integer
  usdPerHour : Numeric 10 4
  providerId : Integer
  region : Varchar 32
  observedAt : Instant
  deriving DecidableEq

/-- A leaf of `ix_benchmark_best`. -/
structure BenchLeaf where
  workload : Varchar 48
  gpuModelId : Integer
  throughput : Numeric 12 3
  precision : Varchar 16
  deriving DecidableEq

/-- `ix_price_latest`: its leaves have every column but the id. -/
def priceLatest (collation : Collation) : Index PricePoint PriceValues where
  covers _ := true
  leaf := PricePoint.toPriceValues
  order := (Order.asc fun v => v.gpuModelId).thenBy ((Order.asc fun v => v.providerId).thenBy
    ((collation.on fun v => v.region.val).thenBy (Order.desc fun v => v.observedAt)))

/-- `ix_price_median` -/
def priceMedian : Index PricePoint MedianLeaf where
  covers _ := true
  leaf p := ⟨p.gpuModelId, p.observedAt, p.usdPerHour⟩
  order := (Order.asc fun e => e.gpuModelId).thenBy (Order.asc fun e => e.observedAt)

/-- `ix_price_keyset` -/
def priceKeyset : Index PricePoint KeysetLeaf where
  covers _ := true
  leaf p := ⟨p.gpuModelId, p.observedAt, p.id⟩
  order := (Order.asc fun e => e.gpuModelId).thenBy
    ((Order.desc fun e => e.observedAt).thenBy (Order.desc fun e => e.id))

/-- `ix_price_cheapest`, of the available prices alone. -/
def priceCheapest : Index PricePoint CheapestLeaf where
  covers p := p.availability.val = "available"
  leaf p := ⟨p.gpuModelId, p.usdPerHour, p.providerId, p.region, p.observedAt⟩
  order := (Order.asc fun e => e.gpuModelId).thenBy (Order.asc fun e => e.usdPerHour.value)

/-- `ix_benchmark_best` -/
def benchmarkBest (collation : Collation) : Index BenchmarkRun BenchLeaf where
  covers _ := true
  leaf b := ⟨b.workload, b.gpuModelId, b.throughput, b.precision⟩
  order := (collation.on fun e => e.workload.val).thenBy
    ((Order.asc fun e => e.gpuModelId).thenBy (Order.desc fun e => e.throughput.value))

/-! ## Indexes through time -/

/-- An index on `price_points` as `CREATE INDEX` built it, or as the commits since then have left
    it. -/
inductive Kept {β : Type} (ix : Index PricePoint β) : Database → List β → Prop
  | create {db : Database} {leaves : List β} (h : ix.Built db.pricePoints leaves) :
      Kept ix db leaves
  | commit {db db' : Database} {leaves leaves' : List β} {rows : List PriceValues}
      (h : Kept ix db leaves) (hdb : db.insertPrices rows = .ok db')
      (hins : ix.InsertedAll leaves (db'.pricePoints.drop db.pricePoints.length) leaves') :
      Kept ix db' leaves'

/-- **Every commit keeps the index built.** -/
theorem kept_iff_built {β : Type} {ix : Index PricePoint β} {db : Database} {leaves : List β} :
    Kept ix db leaves ↔ ix.Built db.pricePoints leaves := by
  refine ⟨fun h => ?_, .create⟩
  induction h with
  | create h => exact h
  | commit _ hdb hins ih =>
    obtain ⟨added, hadded⟩ := (Database.insertPrices_ok hdb).1.pricePoints
    rw [← hadded, List.drop_left] at hins
    rw [← hadded]
    exact ih.insertAll hins

end GpuIndex
