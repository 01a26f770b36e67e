/-
  Seeding prices.

  `seed_prices` draws observations at random until it has `target_rows` of them.  It keeps the
  natural keys it has drawn in `seen` and draws again where one repeats, writes the rows in batches,
  and empties `seen` after a batch that leaves more than 2,000,000 keys in it.  The random choices
  are an input: a `PriceDraw` is what one pass of the inner loop chooses, and a run that has used up
  its draws is still running (`Stop.waiting`).  Nobody else writes to the table meanwhile.
-/
import GpuIndex.Core.CacheCounters
import GpuIndex.Lib.Forgetful
import GpuIndex.Services.Ingestion

namespace GpuIndex

open Calendar
open JsonText (FloatFormat FloatVal)

/-! ## The tables of the script -/

/-- A literal of a text column. -/
def Varchar.lit (n : Nat) (s : String) (fits : decide (s.length ≤ n ∧ NoNul s) = true := by rfl) :
    Varchar n :=
  ⟨s, (of_decide_eq_true fits).1, (of_decide_eq_true fits).2⟩

/-- A literal of an integer column. -/
def Integer.lit (n : Int) (fits : decide (-2147483648 ≤ n ∧ n < 2147483648) = true := by rfl) :
    Integer :=
  ⟨n, of_decide_eq_true fits⟩

/-- An entry of `GPUS`. -/
structure SeedGpu where
  vendor : Varchar 32
  modelName : Varchar 64
  vramGb : Integer
  arch : Varchar 32
  tdpW : Integer

/-- The row of an entry. -/
def SeedGpu.row (g : SeedGpu) (id : Integer) : GpuModel :=
  ⟨id, g.vendor, g.modelName, g.vramGb, g.arch, g.tdpW⟩

/-- `GPUS` -/
def seedGpus : List SeedGpu :=
  [⟨.lit 32 "NVIDIA", .lit 64 "H100 SXM", .lit 80, .lit 32 "Hopper", .lit 700⟩,
    ⟨.lit 32 "NVIDIA", .lit 64 "H100 PCIe", .lit 80, .lit 32 "Hopper", .lit 350⟩,
    ⟨.lit 32 "NVIDIA", .lit 64 "H200 SXM", .lit 141, .lit 32 "Hopper", .lit 700⟩,
    ⟨.lit 32 "NVIDIA", .lit 64 "A100 SXM 80GB", .lit 80, .lit 32 "Ampere", .lit 400⟩,
    ⟨.lit 32 "NVIDIA", .lit 64 "A100 PCIe 40GB", .lit 40, .lit 32 "Ampere", .lit 250⟩,
    ⟨.lit 32 "NVIDIA", .lit 64 "L40S", .lit 48, .lit 32 "Ada Lovelace", .lit 350⟩,
    ⟨.lit 32 "NVIDIA", .lit 64 "L4", .lit 24, .lit 32 "Ada Lovelace", .lit 72⟩,
    ⟨.lit 32 "NVIDIA", .lit 64 "A10G", .lit 24, .lit 32 "Ampere", .lit 150⟩,
    ⟨.lit 32 "NVIDIA", .lit 64 "RTX 4090", .lit 24, .lit 32 "Ada Lovelace", .lit 450⟩,
    ⟨.lit 32 "NVIDIA", .lit 64 "RTX 6000 Ada", .lit 48, .lit 32 "Ada Lovelace", .lit 300⟩,
    ⟨.lit 32 "NVIDIA", .lit 64 "V100 32GB", .lit 32, .lit 32 "Volta", .lit 300⟩,
    ⟨.lit 32 "NVIDIA", .lit 64 "T4", .lit 16, .lit 32 "Turing", .lit 70⟩,
    ⟨.lit 32 "NVIDIA", .lit 64 "B200", .lit 192, .lit 32 "Blackwell", .lit 1000⟩,
    ⟨.lit 32 "NVIDIA", .lit 64 "GB200 NVL2", .lit 384, .lit 32 "Blackwell", .lit 1200⟩,
    ⟨.lit 32 "AMD", .lit 64 "MI300X", .lit 192, .lit 32 "CDNA3", .lit 750⟩,
    ⟨.lit 32 "AMD", .lit 64 "MI250X", .lit 128, .lit 32 "CDNA2", .lit 560⟩,
    ⟨.lit 32 "AMD", .lit 64 "MI210", .lit 64, .lit 32 "CDNA2", .lit 300⟩,
    ⟨.lit 32 "AMD", .lit 64 "MI325X", .lit 256, .lit 32 "CDNA3", .lit 1000⟩,
    ⟨.lit 32 "Intel", .lit 64 "Gaudi 2", .lit 96, .lit 32 "Gaudi", .lit 600⟩,
    ⟨.lit 32 "Intel", .lit 64 "Gaudi 3", .lit 128, .lit 32 "Gaudi", .lit 900⟩,
    ⟨.lit 32 "Intel", .lit 64 "Max 1550", .lit 128, .lit 32 "Xe-HPC", .lit 600⟩,
    ⟨.lit 32 "Google", .lit 64 "TPU v5e", .lit 16, .lit 32 "TPU", .lit 200⟩,
    ⟨.lit 32 "Google", .lit 64 "TPU v5p", .lit 95, .lit 32 "TPU", .lit 450⟩,
    ⟨.lit 32 "Google", .lit 64 "TPU v6e", .lit 32, .lit 32 "TPU", .lit 300⟩,
    ⟨.lit 32 "AWS", .lit 64 "Trainium2", .lit 96, .lit 32 "Trainium", .lit 500⟩,
    ⟨.lit 32 "AWS", .lit 64 "Inferentia2", .lit 32, .lit 32 "Inferentia", .lit 175⟩]

/-- An entry of `PROVIDERS`. -/
structure SeedProvider where
  name : Varchar 64
  regionScope : Varchar 32

/-- The row of an entry. -/
def SeedProvider.row (p : SeedProvider) (id : Integer) : Provider := ⟨id, p.name, p.regionScope⟩

/-- `PROVIDERS` -/
def seedProviders : List SeedProvider :=
  [⟨.lit 64 "AWS", .lit 32 "global"⟩, ⟨.lit 64 "Google Cloud", .lit 32 "global"⟩,
    ⟨.lit 64 "Microsoft Azure", .lit 32 "global"⟩, ⟨.lit 64 "CoreWeave", .lit 32 "us-eu"⟩,
    ⟨.lit 64 "Lambda Labs", .lit 32 "us"⟩, ⟨.lit 64 "RunPod", .lit 32 "global"⟩,
    ⟨.lit 64 "Vast.ai", .lit 32 "global"⟩, ⟨.lit 64 "Paperspace", .lit 32 "us-eu"⟩,
    ⟨.lit 64 "Oracle Cloud", .lit 32 "global"⟩, ⟨.lit 64 "Crusoe", .lit 32 "us"⟩]

/-- `gpu_names` -/
def gpuNames : List String := seedGpus.map fun g => g.modelName.val

/-- `provider_names` -/
def providerNames : List String := seedProviders.map fun p => p.name.val

/-- `REGIONS` -/
def seedRegions : List String :=
  ["us-east-1", "us-east-2", "us-west-1", "us-west-2", "us-central-1", "ca-central-1", "eu-west-1",
    "eu-west-2", "eu-central-1", "eu-north-1", "ap-northeast-1", "ap-northeast-2", "ap-south-1",
    "ap-southeast-1", "ap-southeast-2", "sa-east-1", "me-central-1", "af-south-1", "eu-south-1",
    "us-gov-west-1"]

/-- `AVAILABILITY` -/
def seedAvailability : List String :=
  List.replicate 7 "available" ++ List.replicate 2 "constrained" ++ ["unavailable"]

/-- `BASE_PRICE` -/
def basePrice : List (String × ℚ) :=
  [("H100 SXM", 3.20), ("H100 PCIe", 2.40), ("H200 SXM", 4.10), ("B200", 6.50),
    ("GB200 NVL2", 9.80), ("A100 SXM 80GB", 1.90), ("A100 PCIe 40GB", 1.30), ("L40S", 1.10),
    ("L4", 0.45), ("A10G", 0.60), ("RTX 4090", 0.55), ("RTX 6000 Ada", 0.95), ("V100 32GB", 0.65),
    ("T4", 0.28), ("MI300X", 2.80), ("MI250X", 1.60), ("MI210", 0.90), ("MI325X", 3.40),
    ("Gaudi 2", 1.40), ("Gaudi 3", 2.20), ("Max 1550", 1.20), ("TPU v5e", 1.05),
    ("TPU v5p", 3.60), ("TPU v6e", 2.10), ("Trainium2", 1.75), ("Inferentia2", 0.55)]

/-! ## The catalogue -/

/-- The `i`-th id of a sequence. -/
def serial {n : Nat} (i : Fin n) (small : n < 2147483648 := by decide) : Integer :=
  ⟨(i.val + 1 : Nat), by have := i.isLt; omega⟩

theorem serial_injective {n : Nat} (small : n < 2147483648) :
    Function.Injective fun i : Fin n => serial i small := by
  intro i j h
  have hval : ((i.val + 1 : Nat) : Int) = (j.val + 1 : Nat) := congrArg Integer.val h
  exact Fin.ext (by omega)

/-- `seed_dimensions` on the tables of `create_schema`, which are empty.  The two dicts it returns
    are its `Catalogue`. -/
def seedDimensions : Tables where
  gpuModels := List.ofFn fun i => (seedGpus.get i).row (serial i)
  providers := List.ofFn fun i => (seedProviders.get i).row (serial i)
  pricePoints := []
  benchmarkRuns := []
  lastPriceId := 0

theorem nodup_gpuNames : gpuNames.Nodup := by decide

theorem nodup_providerNames : providerNames.Nodup := by decide

theorem gpuNames_eq : gpuNames = seedDimensions.gpuModels.map fun g => g.modelName.val := by
  rw [seedDimensions, List.map_ofFn]
  calc gpuNames = (List.ofFn seedGpus.get).map fun g => g.modelName.val := by
        rw [List.ofFn_get, gpuNames]
    _ = _ := List.map_ofFn

theorem providerNames_eq : providerNames = seedDimensions.providers.map fun p => p.name.val := by
  rw [seedDimensions, List.map_ofFn]
  calc providerNames = (List.ofFn seedProviders.get).map fun p => p.name.val := by
        rw [List.ofFn_get, providerNames]
    _ = _ := List.map_ofFn

/-- The names of `GPUS` and `PROVIDERS` are distinct, as the tables ask. -/
theorem seedDimensions_constraints : seedDimensions.Constraints where
  gpu_models_pkey := by
    rw [seedDimensions, List.map_ofFn]
    exact List.nodup_ofFn.mpr (serial_injective (by decide))
  gpu_models_model_name_key := by
    rw [← List.nodup_map_iff Varchar.val_injective, List.map_map]
    exact gpuNames_eq ▸ nodup_gpuNames
  providers_pkey := by
    rw [seedDimensions, List.map_ofFn]
    exact List.nodup_ofFn.mpr (serial_injective (by decide))
  providers_name_key := by
    rw [← List.nodup_map_iff Varchar.val_injective, List.map_map]
    exact providerNames_eq ▸ nodup_providerNames
  price_points_pkey := List.nodup_nil
  uq_price_observation := List.nodup_nil
  price_points_gpu_model_id_fkey := fun _ h => absurd h List.not_mem_nil
  price_points_provider_id_fkey := fun _ h => absurd h List.not_mem_nil
  benchmark_runs_pkey := List.nodup_nil
  benchmark_runs_gpu_model_id_fkey := fun _ h => absurd h List.not_mem_nil

/-- The database that the prices are seeded into, but for its benchmark runs. -/
def seedDatabase : Database := ⟨seedDimensions, seedDimensions_constraints⟩

/-! ## One pass of the inner loop -/

/-- What one pass chooses at random.  The last three are chosen only where the natural key is
    new. -/
structure PriceDraw where
  gname : {s : String // s ∈ gpuNames}
  pname : {s : String // s ∈ providerNames}
  region : {s : String // s ∈ seedRegions}
  /-- `random.choice([1, 2, 4, 8])` -/
  count : {n : Nat // n ∈ [1, 2, 4, 8]}
  /-- `random.randint(0, 30 * 24)` -/
  hoursAgo : {n : Nat // n ≤ 30 * 24}
  /-- `random.uniform(-0.12, 0.18)`, any double -/
  driftRate : ℚ
  /-- `random.uniform(0.72, 1.45)`, any double -/
  spread : ℚ
  availability : {s : String // s ∈ seedAvailability}

/-- `gname.split()[0]` -/
def firstWord (s : List Char) : List Char :=
  (s.dropWhile Char.isWhitespace).takeWhile fun c => !c.isWhitespace

/-- `itype` -/
def PriceDraw.itype (d : PriceDraw) : String :=
  String.ofList ((d.pname.val.toList.take 3).map Char.toLower ++ ['-']
    ++ (firstWord d.gname.val.toList).map Char.toLower ++ ['-'] ++ Nat.toDigits 10
      d.count.val ++ ['x'])

/-- `now - timedelta(hours=hours)` -/
def minusHours (now : Instant) (hours : Nat) : Except Exn Instant :=
  if 3600000000 * hours ≤ now.us then
    .ok ⟨now.us - 3600000000 * hours, by have := now.lt_max; omega⟩
  else .error .overflowError

/-- The tuple `natural`. -/
structure NaturalKey where
  gpuModelId : Integer
  providerId : Integer
  region : String
  instanceType : String
  observedAt : Instant
  deriving DecidableEq

/-- `gpus[gname]`, `providers[pname]` -/
def subscriptId : Option Integer → Except Exn Integer
  | some id => .ok id
  | none => .error .keyError

/-- `natural`; the catalogue holds the two dicts. -/
def PriceDraw.natural (catalogue : Catalogue) (now : Instant) (d : PriceDraw) :
    Except Exn NaturalKey := do
  let observed ← minusHours now d.hoursAgo.val
  let gpuId ← subscriptId (catalogue.gpu? d.gname.val)
  let providerId ← subscriptId (catalogue.provider? d.pname.val)
  return ⟨gpuId, providerId, d.region.val, d.itype, observed⟩

/-- The parameters of one row. -/
structure SeedRow where
  natural : NaturalKey
  usdPerHour : FloatVal
  availability : String
  deriving DecidableEq

section Price

variable (fmt : FloatFormat)

/-- An operation on doubles: exact, then rounded. -/
def floatOp (op : ℚ → ℚ → ℚ) : FloatVal → FloatVal → FloatVal
  | .finite x, .finite y => fmt.round (op x y)
  | _, _ => .nan

/-- `round(x, 4)` -/
def round4 : FloatVal → FloatVal
  | .finite q => fmt.round (roundHalfEven (q * 10000) / 10000)
  | x => x

/-- `max(price, 0.01)` -/
def atLeastCent (price : FloatVal) : FloatVal :=
  match price, fmt.round (1 / 100) with
  | .finite p, .finite cent => .finite (if p < cent then cent else p)
  | .infinity true, cent => cent
  | price, _ => price

/-- `1.0 + (hours_ago / (30 * 24)) * random.uniform(-0.12, 0.18)` -/
def PriceDraw.drift (d : PriceDraw) : FloatVal :=
  floatOp fmt (· + ·) (.finite 1)
    (floatOp fmt (· * ·) (fmt.round (d.hoursAgo.val / 720)) (.finite d.driftRate))

/-- `round(base * random.uniform(0.72, 1.45) * drift, 4)` -/
def PriceDraw.price (d : PriceDraw) (base : ℚ) : FloatVal :=
  round4 fmt (floatOp fmt (· * ·) (floatOp fmt (· * ·) (fmt.round base) (.finite d.spread))
    (d.drift fmt))

/-- The row of a draw whose natural key is new. -/
def PriceDraw.row (natural : NaturalKey) (d : PriceDraw) : Except Exn SeedRow :=
  match basePrice.lookup d.gname.val with
  | some base => .ok ⟨natural, atLeastCent fmt (d.price fmt base), d.availability.val⟩
  | none => .error .keyError

end Price

/-! ## The loops -/

/-- Why a loop was not left: it raised, or it waits for more draws. -/
inductive Stop where
  | raised (e : Exn)
  | waiting
  deriving DecidableEq

/-- `len(batch) < batch_size and written + len(batch) < target_rows` -/
def BatchOpen (batchSize : Nat) (target : Int) (written size : Nat) : Prop :=
  size < batchSize ∧ ((written + size : Nat) : Int) < target

instance (batchSize : Nat) (target : Int) (written size : Nat) :
    Decidable (BatchOpen batchSize target written size) :=
  inferInstanceAs (Decidable (_ ∧ _))

section Loops

variable (fmt : FloatFormat) (catalogue : Catalogue) (now : Instant) (batchSize : Nat)
    (target : Int)

/-- The inner loop: the batch, `seen`, and the draws that are left. -/
def fillBatch (written : Nat) : List PriceDraw → Finset NaturalKey → List SeedRow →
    Except Stop (List SeedRow × Finset NaturalKey × List PriceDraw)
  | [], seen, batch =>
    if BatchOpen batchSize target written batch.length then .error .waiting
    else .ok (batch, seen, [])
  | d :: draws, seen, batch =>
    if BatchOpen batchSize target written batch.length then
      match d.natural catalogue now with
      | .error e => .error (.raised e)
      | .ok natural =>
        if natural ∈ seen then fillBatch written draws seen batch
        else
          match d.row fmt natural with
          | .error e => .error (.raised e)
          | .ok row => fillBatch written draws (insert natural seen) (batch ++ [row])
    else .ok (batch, seen, d :: draws)

/-- A batch that has rows took draws. -/
theorem fillBatch_rest_le {written : Nat} {draws rest : List PriceDraw}
    {seen seen' : Finset NaturalKey} {batch batch' : List SeedRow}
    (h : fillBatch fmt catalogue now batchSize target written draws seen batch
      = .ok (batch', seen', rest)) :
    rest.length + batch'.length ≤ draws.length + batch.length := by
  induction draws generalizing seen batch with
  | nil =>
    rw [fillBatch] at h
    split at h
    · cases h
    · cases h
      exact le_rfl
  | cons d draws ih =>
    rw [fillBatch] at h
    split at h
    · split at h
      · cases h
      · split at h
        · have := ih h
          rw [List.length_cons]
          omega
        · split at h
          · cases h
          · have := ih h
            rw [List.length_append, List.length_singleton] at this
            rw [List.length_cons]
            omega
    · cases h
      exact le_rfl

end Loops

/-! ## Writing a batch -/

/-- Bind a row; its date-time has an offset. -/
def SeedRow.bind (env : Env) (row : SeedRow) : Except DbError PriceValues :=
  match row.usdPerHour with
  | .finite q => PriceParams.bind env
      ⟨row.natural.gpuModelId, row.natural.providerId, row.natural.region, row.natural.instanceType,
        (env.fmt.repr q).value, row.availability, utc row.natural.observedAt⟩
  | _ => .error .dataError

/-- `session.execute(text(...), batch)`: the statement once for each row. -/
def executeMany (env : Env) (db : Database) (batch : List SeedRow) : Except DbError Database := do
  let values ← batch.mapM (SeedRow.bind env)
  db.insertPrices values

/-- What is outside a run but its random choices. -/
structure SeedWorld where
  /-- `datetime.now(UTC)` -/
  now : Instant
  /-- What the server fails with on its own, at a batch or its commit. -/
  batchError : Nat → Option DbError
  /-- The same at the final `ANALYZE`. -/
  analyzeError : Option DbError

section Batches

variable (env : Env) (catalogue : Catalogue) (outside : SeedWorld)

/-- The outer loop, with the number of batches written.  `seen` is emptied after a batch that leaves
    more than `seenCap` keys in it. -/
def seedBatches (batchSize seenCap : Nat) (target : Int) (batches written : Nat)
    (seen : Finset NaturalKey) (db : Database) (draws : List PriceDraw) :
    Except Stop (Database × List PriceDraw) :=
  if (written : Int) < target then
    match _hfill : fillBatch env.fmt catalogue outside.now batchSize target written draws seen
        [] with
    | .error e => .error e
    | .ok ([], _, rest) => .ok (db, rest)
    | .ok (row :: batch, seen, rest) =>
      match outside.batchError batches with
      | some e => .error (.raised (.db e))
      | none =>
        match executeMany env db (row :: batch) with
        | .error e => .error (.raised (.db e))
        | .ok db =>
          seedBatches batchSize seenCap target (batches + 1) (written + (row :: batch).length)
            (if seenCap < seen.card then ∅ else seen) db rest
  else .ok (db, draws)
termination_by draws.length
decreasing_by
  have := fillBatch_rest_le env.fmt catalogue outside.now batchSize target _hfill
  rw [List.length_cons, List.length_nil] at this
  omega

/-- `seed_prices`: the table, and the draws that are left. -/
def seedPrices (target : Int) (db : Database) (draws : List PriceDraw) :
    Except Stop (Database × List PriceDraw) :=
  match seedBatches env catalogue outside 25000 2000000 target 0 0 ∅ db draws with
  | .error e => .error e
  | .ok (db, rest) =>
    match outside.analyzeError with
    | some e => .error (.raised (.db e))
    | none => .ok (db, rest)

end Batches

end GpuIndex
