/-
  Ingestion: resolve the names of a batch, insert what resolves, report what does not.
-/
import GpuIndex.Schemas.Models

namespace GpuIndex

/-! ## The catalogue -/

/-- The two name tables of `_resolve_lookup`. -/
structure Catalogue where
  gpus : List GpuModel
  providers : List Provider

/-- `gpus.get(name)`; of two models of one name the last would win. -/
def Catalogue.gpu? (c : Catalogue) (name : String) : Option Integer :=
  (c.gpus.reverse.find? fun g => g.modelName.val = name).map (·.id)

/-- `providers.get(name)` -/
def Catalogue.provider? (c : Catalogue) (name : String) : Option Integer :=
  (c.providers.reverse.find? fun p => p.name.val = name).map (·.id)

/-- `_resolve_lookup` -/
def resolveLookup : Svc Catalogue := do
  let gpus ← query .gpuModels
  let providers ← query .providers
  return ⟨gpus, providers⟩

/-! ## Resolving a batch -/

/-- What the loop makes of one item: a row to insert, or the error it reports. -/
def resolveItem (c : Catalogue) (item : PricePointIn) : Except String PriceParams :=
  match c.gpu? item.gpuModelName with
  | none => .error ("unknown gpu_model_name: " ++ item.gpuModelName)
  | some gpuId =>
    match c.provider? item.providerName with
    | none => .error ("unknown provider_name: " ++ item.providerName)
    | some providerId =>
      .ok ⟨gpuId, providerId, item.region, item.instanceType, item.usdPerHour, item.availability,
        item.observedAt⟩

/-- The loop over the payload: the rows and the errors, each in payload order. -/
def resolveItems (c : Catalogue) : List PricePointIn → List PriceParams × List String
  | [] => ([], [])
  | item :: items =>
    let (rows, errors) := resolveItems c items
    match resolveItem c item with
    | .ok row => (row :: rows, errors)
    | .error e => (rows, e :: errors)

/-- `ingest_prices`: the numbers accepted and rejected, and the errors. -/
def ingestPrices (payload : List PricePointIn) : Svc (Nat × Nat × List String) := do
  if payload = [] then return (0, 0, [])
  let catalogue ← resolveLookup
  let (rows, errors) := resolveItems catalogue payload
  if rows = [] then return (0, errors.length, errors)
  query (.insertPrices rows)
  query .commit
  return (rows.length, errors.length, errors)

end GpuIndex
