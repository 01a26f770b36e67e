/-
  The composite index: dollars per unit of throughput, ranked across providers.
-/
import GpuIndex.Services.Pricing

namespace GpuIndex

open JsonText (Value)

/-- `compute_index` -/
def computeIndex (workload : String) (precision : Option String) (windowDays : Int) (limit : Nat) :
    Svc (List IndexRow) := do
  let now ← call .now
  let since ← ofExcept (minusDays now windowDays)
  query (.index workload precision since limit)

/-- The dictionary of a result row. -/
def IndexRow.toJson (r : IndexRow) : Json :=
  .obj [("gpu_model", .str r.gpuModel.val), ("vendor", .str r.vendor.val),
    ("workload", .str r.workload), ("precision", .str r.precision.val),
    ("best_usd_per_hour", .float r.bestUsdPerHour), ("throughput", .float r.throughput),
    ("usd_per_million_units", floatOrNull r.usdPerMillionUnits),
    ("provider", .str r.provider.val), ("region", .str r.region.val)]

/-- The value `workload_index` caches. -/
def indexJson (rows : List IndexRow) : Json := .arr (rows.map IndexRow.toJson)

end GpuIndex
