/-
  The schema, its migrations and the scripts that rebuild it.

  A transaction is a list of statements that take effect together or not at all.  The commands that
  change the schema are scripts of such transactions: the migrations of `alembic`, `create_schema`
  of the seed, and the tuning script, which drops the performance indexes and builds them again one
  commit at a time.  Any of them may be cut off after any of its transactions.

  `SchemaStage` is the abstract machine: nothing is there, or everything is but for the last of the
  performance indexes.  The crux is that a script, cut off or not, moves a schema as it moves the
  stage, so **every run of the commands is a run of stages** (`schema_refines`), and what can be
  missing from a deployment is read off the stages.
-/
import GpuIndex.Db.Indexes
import GpuIndex.Lib.Trace
import Mathlib.Data.List.Induction

namespace GpuIndex

open Trace

/-! ## Schemas -/

/-- A column of a table; none of this schema is nullable. -/
structure ColumnDef where
  name : String
  type : String
  deriving DecidableEq

/-- A foreign key: a column, and the table and column it names. -/
structure ForeignKey where
  column : String
  table : String
  target : String
  deriving DecidableEq

/-- A unique constraint, with its name where it has one. -/
structure UniqueDef where
  name : Option String
  columns : List String
  deriving DecidableEq

/-- A table. -/
structure TableDef where
  name : String
  columns : List ColumnDef
  primaryKey : List String
  uniques : List UniqueDef
  foreignKeys : List ForeignKey
  deriving DecidableEq

/-- The revisions of `migrations/versions`. -/
inductive SchemaRevision where
  | initialSchema
  | tuningIndexes
  deriving DecidableEq

/-- The tables and indexes that are there, and what `alembic_version` says. -/
structure Schema where
  tables : List TableDef
  indexes : List IndexDef
  version : Option SchemaRevision
  deriving DecidableEq

/-- A database nothing has been run on. -/
def Schema.empty : Schema := ⟨[], [], none⟩

/-- The table of a name. -/
def Schema.table? (s : Schema) (name : String) : Option TableDef :=
  s.tables.find? fun t => t.name = name

/-- The names that a new relation cannot take. -/
def Schema.relationNames (s : Schema) : List String :=
  s.tables.map TableDef.name ++ s.indexes.map IndexDef.name

/-! ## Statements -/

/-- What the scripts execute. -/
inductive Ddl where
  | createTable (t : TableDef)
  | dropTable (name : String) (ifExists : Bool)
  | createIndex (ix : IndexDef)
  | dropIndex (name : String) (ifExists : Bool)
  | analyze (table : String)
  /-- A query that reads tables. -/
  | read (tables : List String)
  /-- The version table of `alembic` is written, or dropped. -/
  | stamp (version : Option SchemaRevision)
  deriving DecidableEq

/-- The index fits the table. -/
def IndexDef.fits (ix : IndexDef) (t : TableDef) : Bool :=
  (ix.columns.map KeyColumn.name ++ ix.included).all fun c => c ∈ t.columns.map ColumnDef.name

/-- Execute a statement, or fail. -/
def Ddl.exec (s : Schema) : Ddl → Option Schema
  | .createTable t =>
    if t.name ∈ s.relationNames then none
    else if t.foreignKeys.all fun k => (s.table? k.table).isSome then
      some { s with tables := s.tables ++ [t] }
    else none
  | .dropTable name ifExists =>
    if (s.table? name).isNone then if ifExists then some s else none
    -- a table that others refer to cannot be dropped
    else if s.tables.any fun t => t.name ≠ name
      ∧ t.foreignKeys.any fun k => k.table = name then none
    else some { s with
      tables := s.tables.filter fun t => t.name ≠ name
      indexes := s.indexes.filter fun ix => ix.table ≠ name }
  | .createIndex ix =>
    if ix.name ∈ s.relationNames then none
    else if (s.table? ix.table).any ix.fits then some { s with indexes := s.indexes ++ [ix] }
    else none
  | .dropIndex name ifExists =>
    if name ∈ s.indexes.map IndexDef.name then
      some { s with indexes := s.indexes.filter fun ix => ix.name ≠ name }
    else if ifExists then some s else none
  | .analyze table => if (s.table? table).isSome then some s else none
  | .read tables => if tables.all fun t => (s.table? t).isSome then some s else none
  | .stamp version => some { s with version := version }

/-- A transaction: all of its statements, or none. -/
def Schema.transaction (s : Schema) (stmts : List Ddl) : Option Schema := stmts.foldlM Ddl.exec s

/-- Transactions, each of which may look at the schema first. -/
abbrev Script := List (Schema → List Ddl)

/-- Run the transactions one after the other; one that fails is rolled back and ends the script. -/
def Script.run : Script → Schema → Schema
  | [], s => s
  | t :: script, s =>
    match s.transaction (t s) with
    | some s' => Script.run script s'
    | none => s

/-- A transaction that succeeds, and the rest of the script. -/
theorem Script.run_cons {t : Schema → List Ddl} {script : Script} {s s' : Schema}
    (h : s.transaction (t s) = some s') : Script.run (t :: script) s = Script.run script s' := by
  rw [Script.run, h]

/-! ## Revision 0001 -/

def gpuModelsTable : TableDef where
  name := "gpu_models"
  columns := [⟨"id", "INTEGER"⟩, ⟨"vendor", "VARCHAR(32)"⟩, ⟨"model_name", "VARCHAR(64)"⟩,
    ⟨"vram_gb", "INTEGER"⟩, ⟨"arch", "VARCHAR(32)"⟩, ⟨"tdp_w", "INTEGER"⟩]
  primaryKey := ["id"]
  uniques := [⟨none, ["model_name"]⟩]
  foreignKeys := []

def providersTable : TableDef where
  name := "providers"
  columns := [⟨"id", "INTEGER"⟩, ⟨"name", "VARCHAR(64)"⟩, ⟨"region_scope", "VARCHAR(32)"⟩]
  primaryKey := ["id"]
  uniques := [⟨none, ["name"]⟩]
  foreignKeys := []

def pricePointsTable : TableDef where
  name := "price_points"
  columns := [⟨"id", "BIGINT"⟩, ⟨"gpu_model_id", "INTEGER"⟩, ⟨"provider_id", "INTEGER"⟩,
    ⟨"region", "VARCHAR(32)"⟩, ⟨"instance_type", "VARCHAR(64)"⟩, ⟨"usd_per_hour", "NUMERIC(10, 4)"⟩,
    ⟨"availability", "VARCHAR(16)"⟩, ⟨"observed_at", "TIMESTAMP WITH TIME ZONE"⟩]
  primaryKey := ["id"]
  uniques := [⟨some "uq_price_observation",
    ["gpu_model_id", "provider_id", "region", "instance_type", "observed_at"]⟩]
  foreignKeys := [⟨"gpu_model_id", "gpu_models", "id"⟩, ⟨"provider_id", "providers", "id"⟩]

def benchmarkRunsTable : TableDef where
  name := "benchmark_runs"
  columns := [⟨"id", "BIGINT"⟩, ⟨"gpu_model_id", "INTEGER"⟩, ⟨"workload", "VARCHAR(48)"⟩,
    ⟨"precision", "VARCHAR(16)"⟩, ⟨"throughput", "NUMERIC(12, 3)"⟩,
    ⟨"latency_p95_ms", "NUMERIC(10, 3)"⟩, ⟨"run_at", "TIMESTAMP WITH TIME ZONE"⟩]
  primaryKey := ["id"]
  uniques := []
  foreignKeys := [⟨"gpu_model_id", "gpu_models", "id"⟩]

def ixGpuModelsVendor : IndexDef where
  name := "ix_gpu_models_vendor"
  table := "gpu_models"
  columns := [.asc "vendor"]

def ixBenchmarkLookup : IndexDef where
  name := "ix_benchmark_lookup"
  table := "benchmark_runs"
  columns := [.asc "gpu_model_id", .asc "workload", .asc "precision"]

/-- `upgrade` of 0001 -/
def upgradeInitial : List Ddl :=
  [.createTable gpuModelsTable, .createIndex ixGpuModelsVendor, .createTable providersTable,
    .createTable pricePointsTable, .createTable benchmarkRunsTable, .createIndex ixBenchmarkLookup]

/-- `downgrade` of 0001 -/
def downgradeInitial : List Ddl :=
  [.dropIndex "ix_benchmark_lookup" false, .dropTable "benchmark_runs" false,
    .dropTable "price_points" false, .dropTable "providers" false,
    .dropIndex "ix_gpu_models_vendor" false, .dropTable "gpu_models" false]

/-! ## Revision 0002 -/

/-- `create_statements` -/
def createStatements : List Ddl := tuningIndexes.map .createIndex

/-- `drop_statements` -/
def dropStatements : List Ddl := indexNames.map fun name => .dropIndex name true

/-- `upgrade` of 0002 -/
def upgradeTuning : List Ddl := createStatements ++ tablesIndexed.map .analyze

/-- `downgrade` of 0002 -/
def downgradeTuning : List Ddl := dropStatements

/-! ## The commands -/

/-- `alembic upgrade head`, from the version that is there, in one transaction. -/
def upgradeHead : Option SchemaRevision → List Ddl
  | none => upgradeInitial ++ .stamp (some .initialSchema) ::
      (upgradeTuning ++ [.stamp (some .tuningIndexes)])
  | some .initialSchema => upgradeTuning ++ [.stamp (some .tuningIndexes)]
  | some .tuningIndexes => []

/-- `alembic downgrade`, down to a revision or to the base, in one transaction. -/
def downgradeTo : Option SchemaRevision → Option SchemaRevision → List Ddl
  | none, some .tuningIndexes => downgradeTuning ++ .stamp (some .initialSchema) ::
      (downgradeInitial ++ [.stamp none])
  | none, some .initialSchema => downgradeInitial ++ [.stamp none]
  | some .initialSchema, some .tuningIndexes => downgradeTuning ++ [.stamp (some .initialSchema)]
  | _, _ => []

/-- `Base.metadata.drop_all`: the tables that are there, those that refer to others first. -/
def dropAll : List Ddl :=
  [.dropTable "price_points" true, .dropTable "benchmark_runs" true, .dropTable "providers" true,
    .dropTable "gpu_models" true]

/-- A command that changes the schema. -/
inductive Command where
  | upgrade
  | downgrade (target : Option SchemaRevision)
  /-- `create_schema` of the seed -/
  | createSchema
  /-- `main` of the tuning script -/
  | tune
  deriving DecidableEq

/-- The transactions of a command.  The tuning script reads, drops all indexes and commits, and then
    builds them with a commit for each; the measurements in between change nothing. -/
def Command.script : Command → Script
  | .upgrade => [fun s => upgradeHead s.version]
  | .downgrade target => [fun s => downgradeTo target s.version]
  | .createSchema => [fun _ => dropAll ++ [.stamp none], fun s => upgradeHead s.version]
  | .tune => (fun _ => .read ["price_points", "gpu_models"] :: dropStatements)
      :: (fun _ => [.analyze "price_points"])
      :: tuningIndexes.map fun ix _ => [.createIndex ix]

/-- A command, and after how many of its transactions it is cut off, if it is. -/
structure Invocation where
  command : Command
  stopped : Option Nat
  deriving DecidableEq

/-- The transactions it gets to. -/
def Invocation.length (i : Invocation) : Nat := i.stopped.getD i.command.script.length

/-- The schema after an invocation. -/
def Schema.step (s : Schema) (i : Invocation) : Schema :=
    Script.run (i.command.script.take i.length) s

/-! ## Stages -/

/-- The tables of 0001, in the order they are created in. -/
def baseTables : List TableDef :=
  [gpuModelsTable, providersTable, pricePointsTable, benchmarkRunsTable]

/-- The indexes of 0001. -/
def baseIndexes : List IndexDef := [ixGpuModelsVendor, ixBenchmarkLookup]

/-- What can be there: nothing, or the tables with a revision and the first of the performance
    indexes. -/
inductive SchemaStage where
  | bare
  | ready (version : SchemaRevision) (built : Nat)
  deriving DecidableEq

/-- The schema of a stage. -/
def SchemaStage.schema : SchemaStage → Schema
  | .bare => .empty
  | .ready version built => ⟨baseTables, baseIndexes ++ tuningIndexes.take built, some version⟩

/-- What a deployment is meant to have: the last revision, and all the indexes. -/
def SchemaStage.tuned : SchemaStage := .ready .tuningIndexes tuningIndexes.length

/-- The stage after an upgrade: at 0001 an index of 0002 is in the way, and at 0002 there is nothing
    left to do. -/
def SchemaStage.upgraded : SchemaStage → SchemaStage
  | .bare => .tuned
  | .ready .initialSchema 0 => .tuned
  | s => s

/-- The stage after a downgrade. -/
def SchemaStage.downgraded : Option SchemaRevision → SchemaStage → SchemaStage
  | none, _ => .bare
  | some .initialSchema, .ready .tuningIndexes _ => .ready .initialSchema 0
  | _, s => s

/-- The stage after `create_schema`, as far as it gets. -/
def SchemaStage.recreated (s : SchemaStage) : Nat → SchemaStage
  | 0 => s
  | 1 => .bare
  | _ => .tuned

/-- The stage after the tuning script, as far as it gets: the first two transactions build
    nothing. -/
def SchemaStage.retuned : SchemaStage → Nat → SchemaStage
  | .ready version _, n + 1 => .ready version (min (n - 1) tuningIndexes.length)
  | s, _ => s

/-- What an invocation makes of a stage. -/
def SchemaStage.step (s : SchemaStage) (i : Invocation) : SchemaStage :=
  match i.command with
  | .upgrade => if i.length = 0 then s else s.upgraded
  | .downgrade target => if i.length = 0 then s else s.downgraded target
  | .createSchema => s.recreated i.length
  | .tune => s.retuned i.length

/-! ## Transactions on stages -/

section Transactions

variable (version : SchemaRevision)

/-- A stage counts no further than the indexes there are. -/
theorem schema_ready_of_le {n : Nat} (h : tuningIndexes.length ≤ n) :
    (SchemaStage.ready version n).schema
      = (SchemaStage.ready version tuningIndexes.length).schema := by
  rw [SchemaStage.schema, SchemaStage.schema, List.take_of_length_le h, List.take_length]

/-- What holds of the six holds of all. -/
theorem ready_cases {P : Schema → Prop}
    (h : ∀ k < 6, P (SchemaStage.ready version k).schema) (n : Nat) :
    P (SchemaStage.ready version n).schema := by
  by_cases hn : n < 6
  · exact h n hn
  · rw [schema_ready_of_le version (show 5 ≤ n by omega)]
    exact h _ (by decide)

theorem transaction_upgrade_bare :
    SchemaStage.bare.schema.transaction (upgradeHead none)
      = some SchemaStage.tuned.schema := by decide +kernel

theorem transaction_upgrade_initial :
    (SchemaStage.ready .initialSchema 0).schema.transaction (upgradeHead (some .initialSchema))
      = some SchemaStage.tuned.schema := by decide +kernel

/-- Where one of them is there already the performance indexes cannot be created. -/
theorem transaction_upgrade_taken (built : Nat) :
    (SchemaStage.ready .initialSchema (built + 1)).schema.transaction
      (upgradeHead (some .initialSchema))
      = none := by
  have htaken : ixPriceLatest.name
      ∈ (SchemaStage.ready .initialSchema (built + 1)).schema.relationNames := by
    simp [SchemaStage.schema, Schema.relationNames, tuningIndexes]
  have hddl : upgradeHead (some .initialSchema) = .createIndex ixPriceLatest ::
      (upgradeHead (some .initialSchema)).tail := rfl
  rw [hddl, Schema.transaction, List.foldlM_cons, Ddl.exec, if_pos htaken]
  rfl

theorem transaction_downgrade_base (built : Nat) :
    (SchemaStage.ready version built).schema.transaction (downgradeTo none (some version))
      = some SchemaStage.bare.schema := by
  cases version with
  | initialSchema =>
    exact ready_cases _ (P := fun s => s.transaction _ = _) (by decide +kernel) built
  | tuningIndexes =>
    exact ready_cases _ (P := fun s => s.transaction _ = _) (by decide +kernel) built

theorem transaction_downgrade_initial (built : Nat) :
    (SchemaStage.ready .tuningIndexes built).schema.transaction
        (downgradeTo (some .initialSchema) (some .tuningIndexes))
      = some (SchemaStage.ready .initialSchema 0).schema :=
  ready_cases _ (P := fun s => s.transaction _ = _) (by decide +kernel) built

/-- Everything is dropped, whatever is there. -/
theorem transaction_dropAll (s : SchemaStage) :
    s.schema.transaction (dropAll ++ [.stamp none]) = some SchemaStage.bare.schema := by
  cases s with
  | bare => rfl
  | ready version built =>
    cases version with
    | initialSchema =>
      exact ready_cases _ (P := fun s => s.transaction _ = _) (by decide +kernel) built
    | tuningIndexes =>
      exact ready_cases _ (P := fun s => s.transaction _ = _) (by decide +kernel) built

theorem transaction_drop (built : Nat) :
    (SchemaStage.ready version built).schema.transaction
        (.read ["price_points", "gpu_models"] :: dropStatements)
      = some (SchemaStage.ready version 0).schema := by
  cases version with
  | initialSchema =>
    exact ready_cases _ (P := fun s => s.transaction _ = _) (by decide +kernel) built
  | tuningIndexes =>
    exact ready_cases _ (P := fun s => s.transaction _ = _) (by decide +kernel) built

/-- The next of the performance indexes is created. -/
theorem transaction_create {built : Nat} {ix : IndexDef} {rest : List IndexDef}
    (h : tuningIndexes.drop built = ix :: rest) :
    (SchemaStage.ready version built).schema.transaction [.createIndex ix]
      = some (SchemaStage.ready version (built + 1)).schema := by
  have hall : ∀ k < tuningIndexes.length, ∀ ix ∈ (tuningIndexes.drop k).head?,
      (SchemaStage.ready version k).schema.transaction [.createIndex ix]
        = some (SchemaStage.ready version (k + 1)).schema := by
    cases version with
    | initialSchema => decide +kernel
    | tuningIndexes => decide +kernel
  have hlt : built < tuningIndexes.length := by
    by_contra hle
    rw [List.drop_eq_nil_of_le (by omega)] at h
    cases h
  exact hall built hlt ix (by rw [h]; rfl)

/-- The loop of the tuning script, from where it stands to where it is cut off. -/
theorem run_creates (count built : Nat) (hbuilt : built ≤ tuningIndexes.length) :
    Script.run (((tuningIndexes.drop built).map fun ix _ => [.createIndex ix]).take count)
        (SchemaStage.ready version built).schema
      = (SchemaStage.ready version (min (built + count) tuningIndexes.length)).schema := by
  induction count generalizing built with
  | zero => rw [List.take_zero, Nat.add_zero, Nat.min_eq_left hbuilt, Script.run]
  | succ count ih =>
    cases hdrop : tuningIndexes.drop built with
    | nil =>
      have hle := List.drop_eq_nil_iff.mp hdrop
      rw [List.map_nil, List.take_nil, Script.run, show built = tuningIndexes.length by omega,
        Nat.min_eq_right (by omega)]
    | cons ix rest =>
      have hrest : tuningIndexes.drop (built + 1) = rest := by
        rw [← List.drop_drop, hdrop, List.drop_one, List.tail_cons]
      have hlt : built + 1 ≤ tuningIndexes.length := by
        by_contra hle
        rw [List.drop_eq_nil_of_le (by omega)] at hdrop
        cases hdrop
      have hnext := ih (built + 1) hlt
      rw [hrest, show built + 1 + count = built + (count + 1) by omega] at hnext
      rw [List.map_cons, List.take_succ_cons, Script.run_cons (transaction_create version hdrop)]
      exact hnext

end Transactions

/-! ## Commands on stages -/

section Commands

variable (s : SchemaStage) (n : Nat)

/-- A script of one transaction is cut off before it, or runs. -/
theorem run_take_one {t : Schema → List Ddl} {s : Schema} (n : Nat) :
    Script.run (List.take n [t]) s = if n = 0 then s else (s.transaction (t s)).getD s := by
  cases n with
  | zero => rfl
  | succ n =>
    rw [List.take_succ_cons, List.take_nil, Script.run, if_neg (Nat.succ_ne_zero n)]
    cases s.transaction (t s) <;> rfl

theorem upgrade_stage : Script.run (Command.upgrade.script.take n) s.schema
    = (if n = 0 then s else s.upgraded).schema := by
  rw [Command.script, run_take_one]
  split
  · rfl
  · cases s with
    | bare => exact congrArg (Option.getD · _) transaction_upgrade_bare
    | ready version built =>
      cases version with
      | initialSchema =>
        cases built with
        | zero => exact congrArg (Option.getD · _) transaction_upgrade_initial
        | succ built => exact congrArg (Option.getD · _) (transaction_upgrade_taken built)
      | tuningIndexes => rfl

theorem downgrade_stage (target : Option SchemaRevision) :
    Script.run ((Command.downgrade target).script.take n) s.schema
      = (if n = 0 then s else s.downgraded target).schema := by
  rw [Command.script, run_take_one]
  split
  · rfl
  · cases s with
    | bare => cases target with
      | none => rfl
      | some target => cases target <;> rfl
    | ready version built =>
      cases target with
      | none => exact congrArg (Option.getD · _) (transaction_downgrade_base version built)
      | some target =>
        cases target with
        | tuningIndexes => cases version <;> rfl
        | initialSchema =>
          cases version with
          | initialSchema => rfl
          | tuningIndexes => exact congrArg (Option.getD · _) (transaction_downgrade_initial built)

theorem createSchema_stage : Script.run (Command.createSchema.script.take n) s.schema
    = (s.recreated n).schema := by
  cases n with
  | zero => rfl
  | succ n =>
    rw [Command.script, List.take_succ_cons, Script.run_cons (transaction_dropAll s), run_take_one]
    cases n with
    | zero => rfl
    | succ n => exact congrArg (Option.getD · SchemaStage.bare.schema) transaction_upgrade_bare

theorem tune_stage : Script.run (Command.tune.script.take n) s.schema = (s.retuned n).schema := by
  cases n with
  | zero => cases s <;> rfl
  | succ n =>
    cases s with
    | bare => rfl
    | ready version built =>
      rw [Command.script, List.take_succ_cons, Script.run_cons (transaction_drop version built)]
      cases n with
      | zero => rfl
      | succ n =>
        have hanalyze : (SchemaStage.ready version 0).schema.transaction [.analyze "price_points"]
            = some (SchemaStage.ready version 0).schema := rfl
        have hcreates := run_creates version n 0 (Nat.zero_le _)
        rw [List.drop_zero, Nat.zero_add] at hcreates
        rw [List.take_succ_cons, Script.run_cons hanalyze]
        exact hcreates

end Commands

/-- **One command**, cut off or not, moves a schema as it moves the stage. -/
theorem schema_step (s : SchemaStage) (i : Invocation) : s.schema.step i = (s.step i).schema := by
  rw [Schema.step]
  unfold SchemaStage.step
  cases i.command with
  | upgrade => exact upgrade_stage s i.length
  | downgrade target => exact downgrade_stage s i.length target
  | createSchema => exact createSchema_stage s i.length
  | tune => exact tune_stage s i.length

/-- **Every run of the commands is a run of stages**: whatever is run on an empty database, and
    wherever it is cut off, there is nothing at all, or every table of 0001 with a revision and
    the first of the performance indexes. -/
theorem schema_refines (commands : List Invocation) :
    run Schema.step .empty commands = (run SchemaStage.step .bare commands).schema := by
  have hsim (s : SchemaStage) :
      run Schema.step s.schema commands = (run SchemaStage.step s commands).schema := by
    induction commands generalizing s with
    | nil => rfl
    | cons i commands ih => rw [run_cons, run_cons, schema_step, ih]
  exact hsim .bare

/-! ## What can be missing -/

/-- At the last revision with an index missing. -/
def SchemaStage.Untuned (s : SchemaStage) : Prop :=
  ∃ built < tuningIndexes.length, s = .ready .tuningIndexes built

/-- At the last revision the command changes nothing. -/
def Invocation.Idle (i : Invocation) : Prop :=
  i.length = 0 ∨ i.command = .upgrade ∨ i.command = .downgrade (some .tuningIndexes)

/-- The command is a run of the tuning script that is cut off between its first commit and its
    last. -/
def Invocation.CutOffTune (i : Invocation) : Prop :=
  i.command = .tune ∧ 1 ≤ i.length ∧ i.length < Command.tune.script.length

theorem schema_version (s : SchemaStage) : s.schema.version = some .tuningIndexes
    ↔ ∃ built, s = .ready .tuningIndexes built := by
  cases s with
  | bare => exact ⟨nofun, nofun⟩
  | ready version built =>
    refine ⟨fun h => ⟨built, ?_⟩, fun ⟨_, h⟩ => ?_⟩
    · rw [Option.some.inj (show some version = _ from h)]
    · cases h
      rfl

/-- Of the first indexes only, one is missing. -/
theorem missing_of_take {built : Nat} : (∃ ix ∈ tuningIndexes,
    ix ∉ baseIndexes ++ tuningIndexes.take built) ↔ built < tuningIndexes.length := by
  constructor
  · rintro ⟨ix, hix, hmissing⟩
    by_contra hle
    rw [List.take_of_length_le (by omega)] at hmissing
    exact hmissing (List.mem_append_right _ hix)
  · intro hlt
    have hall : ∀ k < tuningIndexes.length, ∃ ix ∈ tuningIndexes,
        ix ∉ baseIndexes ++ tuningIndexes.take k := by decide +kernel
    exact hall built hlt

theorem untuned_schema (s : SchemaStage) : (s.schema.version = some .tuningIndexes
    ∧ ∃ ix ∈ tuningIndexes, ix ∉ s.schema.indexes) ↔ s.Untuned := by
  rw [schema_version]
  constructor
  · rintro ⟨⟨built, rfl⟩, hmissing⟩
    exact ⟨built, missing_of_take.mp hmissing, rfl⟩
  · rintro ⟨built, hlt, rfl⟩
    exact ⟨⟨built, rfl⟩, missing_of_take.mpr hlt⟩

theorem untuned_ready {version : SchemaRevision} {built : Nat} :
    (SchemaStage.ready version built).Untuned
    ↔ version = .tuningIndexes ∧ built < tuningIndexes.length := by
  constructor
  · rintro ⟨_, hlt, h⟩
    cases h
    exact ⟨rfl, hlt⟩
  · rintro ⟨rfl, hlt⟩
    exact ⟨built, hlt, rfl⟩

theorem not_untuned_bare : ¬ SchemaStage.bare.Untuned := fun ⟨_, _, h⟩ => nomatch h

theorem not_untuned_tuned : ¬ SchemaStage.tuned.Untuned :=
    fun h => lt_irrefl _ (untuned_ready.mp h).2

theorem untuned_upgraded (s : SchemaStage) : s.upgraded.Untuned ↔ s.Untuned := by
  cases s with
  | bare => exact iff_of_false not_untuned_tuned not_untuned_bare
  | ready version built =>
    cases version with
    | tuningIndexes => exact Iff.rfl
    | initialSchema =>
      have hnot (k : Nat) : ¬ (SchemaStage.ready .initialSchema k).Untuned :=
        fun h => nomatch (untuned_ready.mp h).1
      cases built with
      | zero => exact iff_of_false not_untuned_tuned (hnot 0)
      | succ built => exact Iff.rfl

theorem untuned_downgraded (target : Option SchemaRevision) (s : SchemaStage) :
    (s.downgraded target).Untuned ↔ s.Untuned ∧ target = some .tuningIndexes := by
  cases target with
  | none => exact iff_of_false not_untuned_bare (fun h => nomatch h.2)
  | some target =>
    cases target with
    | tuningIndexes => cases s <;> exact (and_iff_left rfl).symm
    | initialSchema =>
      refine iff_of_false (fun h => ?_) (fun h => nomatch h.2)
      cases s with
      | bare => exact not_untuned_bare h
      | ready version built => cases version <;> exact nomatch (untuned_ready.mp h).1

theorem untuned_retuned (s : SchemaStage) {n : Nat} (hn : n ≠ 0) : (s.retuned n).Untuned
    ↔ s.schema.version = some .tuningIndexes ∧ n < Command.tune.script.length := by
  obtain ⟨n, rfl⟩ := Nat.exists_eq_succ_of_ne_zero hn
  cases s with
  | bare => exact iff_of_false not_untuned_bare (fun h => nomatch h.1)
  | ready version built =>
    have hlength : Command.tune.script.length = tuningIndexes.length + 2 := rfl
    have hfive : tuningIndexes.length = 5 := rfl
    refine untuned_ready.trans (and_congr ⟨fun h => by rw [h]; rfl, fun h => ?_⟩ ?_)
    · exact Option.some.inj h
    · omega

/-- A command that is cut off at once does nothing. -/
theorem step_of_length_eq_zero {s : SchemaStage} {i : Invocation} (h : i.length = 0) :
    s.step i = s := by
  unfold SchemaStage.step
  cases i.command with
  | upgrade => exact if_pos h
  | downgrade target => exact if_pos h
  | createSchema => rw [h]; rfl
  | tune => rw [h]; cases s <;> rfl

/-- **One command** leaves an index missing when it finds one missing and changes nothing, or is a
    run of the tuning script that is cut off. -/
theorem untuned_step (s : SchemaStage) (i : Invocation) : (s.step i).Untuned
    ↔ s.Untuned ∧ i.Idle ∨ s.schema.version = some .tuningIndexes ∧ i.CutOffTune := by
  by_cases hzero : i.length = 0
  · rw [step_of_length_eq_zero hzero]
    refine ⟨fun h => .inl ⟨h, .inl hzero⟩, ?_⟩
    rintro (h | ⟨-, -, hpos, -⟩)
    · exact h.1
    · omega
  · have hidle : i.Idle ↔ i.command = .upgrade ∨ i.command = .downgrade (some .tuningIndexes) :=
      or_iff_right hzero
    rw [hidle, Invocation.CutOffTune]
    unfold SchemaStage.step
    cases i.command with
    | upgrade => simp [if_neg hzero, untuned_upgraded]
    | downgrade target => simp [if_neg hzero, untuned_downgraded]
    | createSchema =>
      refine iff_of_false ?_ (by simp)
      match i.length, hzero with
      | 1, _ => exact not_untuned_bare
      | _ + 2, _ => exact not_untuned_tuned
    | tune =>
      have hpos : 1 ≤ i.length := by omega
      simp [untuned_retuned s hzero, hpos]

/-- **An index is missing at the last revision** only in the wake of a run of the tuning script that
    was cut off there, while nothing but upgrades has been run since: `alembic upgrade head` does
    not bring it back. -/
theorem missing_index_iff (commands : List Invocation) :
    ((run Schema.step .empty commands).version = some .tuningIndexes
        ∧ ∃ ix ∈ tuningIndexes, ix ∉ (run Schema.step .empty commands).indexes)
      ↔ ∃ before i after, commands = before ++ i :: after
        ∧ (run Schema.step .empty before).version = some .tuningIndexes ∧ i.CutOffTune
        ∧ ∀ j ∈ after, j.Idle := by
  simp only [schema_refines, untuned_schema]
  induction commands using List.reverseRecOn with
  | nil => exact iff_of_false not_untuned_bare fun ⟨_, _, _, h, _⟩ => by simp at h
  | append_singleton commands i ih =>
    rw [run_append, run_cons, run_nil, untuned_step, ih]
    constructor
    · rintro (⟨⟨before, j, after, rfl, hhead, hcut, hidle⟩, hi⟩ | ⟨hhead, hcut⟩)
      · refine ⟨before, j, after ++ [i], by simp, hhead, hcut, fun k hk => ?_⟩
        rcases List.mem_append.mp hk with hk | hk
        · exact hidle k hk
        · rwa [List.mem_singleton.mp hk]
      · exact ⟨commands, i, [], rfl, hhead, hcut, fun _ h => absurd h List.not_mem_nil⟩
    · rintro ⟨before, j, after, hcommands, hhead, hcut, hidle⟩
      rcases List.eq_nil_or_concat after with rfl | ⟨after, k, rfl⟩
      · obtain ⟨rfl, hij⟩ := List.append_inj' hcommands rfl
        obtain rfl := List.singleton_inj.mp hij
        exact .inr ⟨hhead, hcut⟩
      · rw [List.concat_eq_append, ← List.cons_append, ← List.append_assoc] at hcommands
        obtain ⟨rfl, hik⟩ := List.append_inj' hcommands rfl
        obtain rfl := List.singleton_inj.mp hik
        rw [List.concat_eq_append] at hidle
        exact .inl ⟨⟨before, j, after, rfl, hhead, hcut,
          fun l hl => hidle l (List.mem_append_left _ hl)⟩, hidle i (by simp)⟩

/-! ## Getting to the last revision -/

/-- A command that nobody cuts off. -/
def Command.whole (c : Command) : Invocation := ⟨c, none⟩

theorem mem_taken {built : Nat} :
    (∃ ix ∈ tuningIndexes, ix ∈ baseIndexes ++ tuningIndexes.take built) ↔ built ≠ 0 := by
  constructor
  · rintro ⟨ix, hix, hmem⟩ rfl
    have hall : ∀ ix ∈ tuningIndexes, ix ∉ baseIndexes ++ tuningIndexes.take 0 := by decide +kernel
    exact hall ix hix hmem
  · intro hne
    obtain ⟨n, rfl⟩ := Nat.exists_eq_succ_of_ne_zero hne
    exact ⟨ixPriceLatest, List.mem_cons_self, by simp [tuningIndexes]⟩

/-- **`alembic upgrade head` gets there** from whatever the commands have left, unless the tuning
    script has built an index at 0001: then it fails, and changes nothing, however often it is
    run. -/
theorem upgrade_reaches_head_iff (commands : List Invocation) :
    let s := run Schema.step .empty commands
    ((s.step Command.upgrade.whole).version = some .tuningIndexes
        ↔ ¬ (s.version = some .initialSchema ∧ ∃ ix ∈ tuningIndexes, ix ∈ s.indexes))
      ∧ ((s.step Command.upgrade.whole).version ≠ some .tuningIndexes → ∀ n,
        run Schema.step s (List.replicate n Command.upgrade.whole) = s) := by
  intro s
  obtain ⟨stage, hstage⟩ : ∃ stage : SchemaStage, s = stage.schema := ⟨_, schema_refines commands⟩
  have hstep : s.step Command.upgrade.whole = stage.upgraded.schema := by
    rw [hstage, schema_step]
    rfl
  have hfixed (h : s.step Command.upgrade.whole = s) (n : Nat) :
      run Schema.step s (List.replicate n Command.upgrade.whole) = s := by
    induction n with
    | zero => rfl
    | succ n ih => rw [List.replicate_succ, run_cons, h, ih]
  rw [hstep, hstage]
  rw [hstep, hstage] at hfixed
  cases stage with
  | bare =>
    exact ⟨iff_of_true rfl (fun h => nomatch h.1), fun h => absurd rfl h⟩
  | ready version built =>
    cases version with
    | tuningIndexes => exact ⟨iff_of_true rfl (fun h => nomatch h.1), fun h => absurd rfl h⟩
    | initialSchema =>
      cases built with
      | zero => exact ⟨iff_of_true rfl fun h => mem_taken.mp h.2 rfl, fun h => absurd rfl h⟩
      | succ built =>
        refine ⟨iff_of_false nofun (not_not_intro ⟨rfl, mem_taken.mpr (Nat.succ_ne_zero _)⟩), ?_⟩
        exact fun _ => hfixed rfl

/-- **Three ways back** to a full schema, from whatever the commands have left: the seed's
    `create_schema`; a tuning run that is not cut off, at the revision that is there; and at the
    last revision a downgrade to 0001 and an upgrade. -/
theorem schema_restored (commands : List Invocation) :
    let s := run Schema.step .empty commands
    s.step Command.createSchema.whole = SchemaStage.tuned.schema
      ∧ (∀ version, s.version = some version → s.step Command.tune.whole
          = ⟨baseTables, baseIndexes ++ tuningIndexes, some version⟩)
      ∧ (s.version = some .tuningIndexes →
          (s.step (Command.downgrade (some .initialSchema)).whole).step Command.upgrade.whole
            = SchemaStage.tuned.schema) := by
  intro s
  obtain ⟨stage, hstage⟩ : ∃ stage : SchemaStage, s = stage.schema := ⟨_, schema_refines commands⟩
  rw [hstage]
  refine ⟨schema_step stage Command.createSchema.whole, fun version hversion => ?_, fun hhead => ?_⟩
  · rw [schema_step]
    cases stage with
    | bare => cases hversion
    | ready version' built =>
      cases hversion
      rfl
  · obtain ⟨built, rfl⟩ := (schema_version stage).mp hhead
    rw [schema_step, schema_step]
    rfl

end GpuIndex
