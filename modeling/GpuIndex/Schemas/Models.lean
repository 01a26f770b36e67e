/-
  The request and response models.

  `PricePointIn` carries the proofs of its field bounds, so an item that did not pass validation
  cannot be built.  The response models are built from JSON rows by the `of…` functions, which
  raise what validation raises.
-/
import GpuIndex.Core.Svc

namespace GpuIndex

open Calendar
open JsonText (FloatVal Value lookup)

/-! ## Ingest payload -/

/-- `Field(min_length=1, max_length=n)` -/
def LengthWithin (n : Nat) (s : String) : Prop := 1 ≤ s.length ∧ s.length ≤ n

instance (n : Nat) (s : String) : Decidable (LengthWithin n s) :=
  inferInstanceAs (Decidable (_ ∧ _))

/-- The values of `Field(pattern="^(available|constrained|unavailable)$")`. -/
def availabilities : List String := ["available", "constrained", "unavailable"]

/-- `PricePointIn` -/
structure PricePointIn where
  gpuModelName : String
  providerName : String
  region : String
  instanceType : String
  usdPerHour : ℚ
  availability : String
  observedAt : Datetime
  gpuModelName_length : LengthWithin 64 gpuModelName
  providerName_length : LengthWithin 64 providerName
  region_length : LengthWithin 32 region
  instanceType_length : LengthWithin 64 instanceType
  usdPerHour_range : 0 < usdPerHour ∧ usdPerHour ≤ 1000
  availability_pattern : availability ∈ availabilities

/-! ## Responses -/

/-- `GpuModelOut` -/
structure GpuModelOut where
  id : Int
  vendor : String
  modelName : String
  vramGb : Int
  arch : String
  tdpW : Int
  deriving DecidableEq

/-- `PricePointOut` -/
structure PricePointOut where
  provider : String
  region : String
  instanceType : String
  usdPerHour : FloatVal
  availability : String
  observedAt : Datetime
  deriving DecidableEq

/-- `PriceSummaryOut` -/
structure PriceSummaryOut where
  gpuModel : String
  regionCount : Nat
  providerCount : Nat
  cheapestUsdPerHour : FloatVal
  median30dUsdPerHour : Option FloatVal
  points : List PricePointOut
  deriving DecidableEq

/-- `BenchmarkOut` -/
structure BenchmarkOut where
  workload : String
  precision : String
  throughput : FloatVal
  latencyP95Ms : FloatVal
  runAt : Datetime
  deriving DecidableEq

/-- `IndexEntryOut` -/
structure IndexEntryOut where
  gpuModel : String
  vendor : String
  workload : String
  precision : String
  bestUsdPerHour : FloatVal
  throughput : FloatVal
  usdPerMillionUnits : FloatVal
  provider : String
  region : String
  deriving DecidableEq

/-- `Page` -/
structure Page (α : Type) where
  items : List α
  count : Nat
  nextCursor : Option String := none
  deriving DecidableEq

/-- `IngestResult` -/
structure IngestResult where
  accepted : Nat
  rejected : Nat
  cacheEntriesInvalidated : Nat
  errors : List String
  deriving DecidableEq

/-- A response body. -/
inductive Body where
  | gpus (page : Page GpuModelOut)
  | summary (summary : PriceSummaryOut)
  | prices (page : Page PricePointOut)
  | benchmarks (page : Page BenchmarkOut)
  | index (page : Page IndexEntryOut)
  | ingest (result : IngestResult)
  | error (detail : String)
  deriving DecidableEq

/-- A response. -/
structure Response where
  status : Nat
  body : Body
  headers : List (String × String) := []
  deriving DecidableEq

/-! ## Reading a JSON row -/

/-- What a loop over rows runs over; whatever else can be looped over fails at its first row. -/
def elements : Json → Except Exn (List Json)
  | .arr rows => .ok rows
  | .obj [] => .ok []
  | .str "" => .ok []
  | _ => .error .typeError

/-- The value of a `str` field. -/
def strField : Json → Except Exn String
  | .str s => .ok s
  | _ => .error .validationError

/-- The value of a `float` field. -/
def floatField (env : Env) : Json → Except Exn FloatVal
  | .float x => .ok x
  | .int n => .ok (env.fmt.round n)
  | _ => .error .validationError

/-- The value of a `float | None` field. -/
def optionalFloatField (env : Env) : Json → Except Exn (Option FloatVal)
  | .null => .ok none
  | v => (floatField env v).map some

/-- The value of a `datetime` field. -/
def datetimeField (env : Env) : Json → Except Exn Datetime
  | .ext d => .ok d
  | .str s =>
    match env.parseDatetime s with
    | some d => .ok d
    | none => .error .validationError
  | _ => .error .validationError

/-- `PricePointOut(**{k: r[k] for k in PricePointOut.model_fields})` -/
def PricePointOut.ofRow (env : Env) (r : Json) : Except Exn PricePointOut := do
  let provider ← subscript "provider" r
  let region ← subscript "region" r
  let instanceType ← subscript "instance_type" r
  let usdPerHour ← subscript "usd_per_hour" r
  let availability ← subscript "availability" r
  let observedAt ← subscript "observed_at" r
  return {
    provider := ← strField provider
    region := ← strField region
    instanceType := ← strField instanceType
    usdPerHour := ← floatField env usdPerHour
    availability := ← strField availability
    observedAt := ← datetimeField env observedAt }

/-- A missing field of a keyword call is a validation error. -/
def required (name : String) : Json → Except Exn Json
  | .obj members =>
    match lookup name members with
    | some v => .ok v
    | none => .error .validationError
  | _ => .error .typeError

/-- `IndexEntryOut(**r)` -/
def IndexEntryOut.ofRow (env : Env) (r : Json) : Except Exn IndexEntryOut := do
  return {
    gpuModel := ← strField (← required "gpu_model" r)
    vendor := ← strField (← required "vendor" r)
    workload := ← strField (← required "workload" r)
    precision := ← strField (← required "precision" r)
    bestUsdPerHour := ← floatField env (← required "best_usd_per_hour" r)
    throughput := ← floatField env (← required "throughput" r)
    usdPerMillionUnits := ← floatField env (← required "usd_per_million_units" r)
    provider := ← strField (← required "provider" r)
    region := ← strField (← required "region" r) }

end GpuIndex
