/-
  The outside world, one call at a time.

  Every `await` of the service is a call of the signature `svc`: a clock reading, a counter bump, a
  Redis command or a database statement.  `exec` says what a call answers and what it changes.
  Whatever the outside decides on its own (does the command fail, in which order are rows met,
  which keys does this SCAN report) is in the `Choice` that `exec` is given, so running a program
  under all choices is running it under everything that can happen.

  A `Machine` is the shared world with one request's session.  Fields marked ghost are written
  here and read by no call.
-/
import GpuIndex.Core.Config
import GpuIndex.Db.Queries
import GpuIndex.Lib.ExpiringStore
import GpuIndex.Lib.Prog

namespace GpuIndex

open Calendar ExpiringStore
open JsonText (FloatFormat FloatVal)

/-! ## Redis -/

/-- What a Redis command may raise: no connection, or an error reply. -/
inductive RedisError where
  | connection
  | response
  deriving DecidableEq

/-- The commands the service issues; the limiter's `INCR` and `EXPIRE` are one transaction. -/
inductive RedisCmd where
  | get (key : String)
  | set (key value : String) (ex : Int)
  | incrExpire (key : String) (seconds : Int)
  | scan (cursor : Nat) (keyPrefix : String)
  | delete (key : String)
  deriving DecidableEq

/-- The reply to a command.  `SCAN` answers with the next cursor and a batch of keys.  Cursors are
    opaque but for zero, which ends the iteration; here they count the batches still to come. -/
abbrev RedisCmd.Reply : RedisCmd → Type
  | .get _ => Option String
  | .set _ _ _ => Unit
  | .incrExpire _ _ => Int
  | .scan _ _ => Nat × List String
  | .delete _ => Unit

/-- What a key holds. -/
inductive Cell where
  | text (s : String)
  | counter (n : Int)
  deriving DecidableEq

/-- What `GET` shows of a cell. -/
def Cell.show : Cell → String
  | .text s => s
  | .counter n => toString n

/-- A cell, with the database its text was computed from (ghost). -/
structure Cached where
  cell : Cell
  source : Option Database

/-- The key space. -/
abbrev Redis := Store String Cached

/-- Whether `match=f"{keyPrefix}*"` matches the key. -/
def hasPrefix (keyPrefix key : String) : Bool := keyPrefix.toList.isPrefixOf key.toList

theorem hasPrefix_append (keyPrefix rest : String) :
    hasPrefix keyPrefix (keyPrefix ++ rest) = true := by
  rw [hasPrefix, String.toList_append]
  exact List.isPrefixOf_iff_prefix.mpr (List.prefix_append _ _)

/-- A key begins as its prefix does, so it has no prefix that begins otherwise. -/
theorem hasPrefix_head {keyPrefix key : String} {c : Char} (h : hasPrefix keyPrefix key = true)
    (hc : keyPrefix.toList.head? = some c) : key.toList.head? = some c := by
  obtain ⟨s, hs⟩ := List.isPrefixOf_iff_prefix.mp h
  rw [← hs, List.head?_append, hc]
  rfl

/-! ## Statements -/

/-- A row of `insert(PricePoint).values(rows)` as the service builds it. -/
structure PriceParams where
  gpuModelId : Integer
  providerId : Integer
  region : String
  instanceType : String
  usdPerHour : ℚ
  availability : String
  observedAt : Datetime
  deriving DecidableEq

/-- What the service asks of the database. -/
inductive Statement where
  | getGpuModel (id : Int)
  | listGpus (vendor : Option String) (minVramGb : Option Int) (limit : Nat)
  | benchmarks (gpuModelId : Int) (workload precision : Option String) (limit : Nat)
  | latestPrices (gpuModelId : Int) (since : Instant) (availability : Option String) (limit : Nat)
  | keysetPage (gpuModelId : Int) (cursor : Option (Datetime × Int)) (limit : Nat)
  | index (workload : String) (precision : Option String) (since : Instant) (limit : Nat)
  | gpuModels
  | providers
  | insertPrices (rows : List PriceParams)
  | commit
  deriving DecidableEq

/-- The result of a statement. -/
abbrev Statement.Result : Statement → Type
  | .getGpuModel _ => Option GpuModel
  | .listGpus _ _ _ => List GpuModel
  | .benchmarks _ _ _ _ => List BenchmarkRun
  | .latestPrices _ _ _ _ => List LatestRow
  | .keysetPage _ _ _ => List PageRow
  | .index _ _ _ _ => List IndexRow
  | .gpuModels => List GpuModel
  | .providers => List Provider
  | .insertPrices _ => Unit
  | .commit => Unit

/-! ## Calls -/

/-- The counters of `STATS`. -/
inductive Stat where
  | hits
  | misses
  | errors
  deriving DecidableEq

/-- A call. -/
inductive Op where
  /-- `int(time.time())` -/
  | time
  /-- `datetime.now(UTC)` -/
  | now
  /-- `STATS[stat] += 1` -/
  | bump (stat : Stat)
  | redis (cmd : RedisCmd)
  | db (stmt : Statement)
  deriving DecidableEq

/-- The answer to a call. -/
abbrev Op.Ans : Op → Type
  | .time => Int
  | .now => Instant
  | .bump _ => Unit
  | .redis cmd => Except RedisError cmd.Reply
  | .db stmt => Except DbError stmt.Result

/-- The signature of the service's programs. -/
abbrev svc : Sig := ⟨Op, Op.Ans⟩

/-! ## The world -/

/-- The values of `STATS`. -/
structure Stats where
  hits : Nat
  misses : Nat
  errors : Nat
  deriving DecidableEq

/-- One more of a counter. -/
def Stats.bump (s : Stats) : Stat → Stats
  | .hits => { s with hits := s.hits + 1 }
  | .misses => { s with misses := s.misses + 1 }
  | .errors => { s with errors := s.errors + 1 }

/-- What the requests share. -/
structure World where
  redis : Redis
  db : Database
  now : Instant
  stats : Stats

/-- A call that has been answered. -/
structure Event where
  op : Op
  ans : op.Ans

/-- What belongs to one request. -/
structure Session where
  /-- The rows of the open transaction. -/
  pending : List PriceValues := []
  /-- The keys the running SCAN iteration still owes, with their stamps. -/
  owed : List (String × Nat) := []
  /-- The database the rows in hand were computed from (ghost). -/
  source : Option Database := none
  /-- The rows the request has committed (ghost). -/
  added : List PricePoint := []
  /-- The calls made, latest first (ghost). -/
  log : List Event := []

/-- The shared world and one request's session. -/
structure Machine where
  world : World
  session : Session

/-- What a process brings along. -/
structure Env where
  settings : Settings
  /-- Doubles: rounding and printing. -/
  fmt : FloatFormat
  collation : Collation
  /-- The UTC offset of the process's time zone. -/
  localOffset : Civil → Offset
  /-- The builtin `hash` of a `str` in this process. -/
  strHash : String → Int
  /-- The process's clock. -/
  clock : Instant → Instant
  /-- How a date-time text of a cached row is validated. -/
  parseDatetime : String → Option Datetime

/-- What happens to a Redis command: it is answered, it never arrives, or its answer is lost. -/
inductive Fault where
  | none
  | refused
  | lost
  deriving DecidableEq

/-- Everything the outside decides about one call. -/
structure Choice where
  fault : Fault
  dbError : Option DbError
  plan : Plan
  /-- How many batches follow, when the call begins a SCAN iteration. -/
  batches : Nat
  /-- The keys this batch reports. -/
  batch : List String

/-- Nothing fails, rows are met as stored, a SCAN reports all it owes in one batch. -/
def Choice.calm : Choice := ⟨.none, none, .stored, 0, []⟩

/-- The server carries out what it is asked, as far as it can. -/
def Choice.Answers (c : Choice) : Prop := c.dbError = none

theorem Choice.answers_calm : Choice.calm.Answers := rfl

/-! ## Redis commands -/

/-- Seconds in the unit of instants. -/
def seconds (n : Int) : Nat := n.toNat * 1000000

/-- What `INCR` makes of a key; it refuses text. -/
def nextCount (redis : Redis) (now : Nat) (key : String) : Option Int :=
  match redis.peek now key with
  | none => some 1
  | some e =>
    match e.value.cell with
    | .counter n => some (n + 1)
    | .text _ => none

/-- `INCR` and `EXPIRE`: the count, unless the key holds text.  An expiry that is not positive
    removes the key. -/
def incrCounter (redis : Redis) (now : Nat) (key : String) (ex : Int) :
    Except RedisError Int × Redis :=
  match nextCount redis now key with
  | none => (.error .response, redis)
  | some n =>
    (.ok n, if ex ≤ 0 then redis.remove key
      else redis.put now key ⟨.counter n, none⟩ (now + seconds ex))

/-- The keys a SCAN iteration that begins now owes, with their stamps. -/
def scanDebt (redis : Redis) (now : Nat) (keyPrefix : String) : List (String × Nat) :=
  ((redis.liveKeys now).filter (hasPrefix keyPrefix)).filterMap fun k =>
    (redis.peek now k).map fun e => (k, e.born)

/-- The keys owed that have been there ever since. -/
def stillOwed (redis : Redis) (now : Nat) (owed : List (String × Nat)) : List (String × Nat) :=
  owed.filter fun o => (redis.peek now o.1).map (·.born) = some o.2

/-- The batches that follow a batch; the first one may be followed by any number. -/
def batchesAfter (c : Choice) (cursor : Nat) : Nat := if cursor = 0 then c.batches else cursor - 1

/-- One batch of a SCAN.  The server may report any keys that match, in any order and more than
    once; but with the last batch every key that was there from the first to the last must have
    been reported, and a choice that would break this promise reports what is owed instead. -/
def scanBatch (c : Choice) (redis : Redis) (now : Nat) (cursor : Nat) (keyPrefix : String)
    (owed : List (String × Nat)) : (Nat × List String) × List (String × Nat) :=
  let remaining := batchesAfter c cursor
  let debt := stillOwed redis now (if cursor = 0 then scanDebt redis now keyPrefix else owed)
  let keys := c.batch.filter (hasPrefix keyPrefix)
  if remaining = 0 then
    if ∀ o ∈ debt, o.1 ∈ keys then ((0, keys), [])
    else ((0, keys ++ debt.map Prod.fst), [])
  else ((remaining, keys), debt.filter fun o => o.1 ∉ keys)

/-- A command that reaches the server. -/
def RedisCmd.serve (c : Choice) (m : Machine) :
    (cmd : RedisCmd) → Except RedisError cmd.Reply × Machine
  | .get key =>
    match m.world.redis.peek m.world.now.us key with
    | some e => (.ok (some e.value.cell.show), { m with session.source := e.value.source })
    | none => (.ok none, m)
  | .set key value ex =>
    if ex ≤ 0 then (.error .response, m)
    else
      let redis := m.world.redis.put m.world.now.us key ⟨.text value, m.session.source⟩
        (m.world.now.us + seconds ex)
      (.ok (), { m with world.redis := redis })
  | .incrExpire key ex =>
    let r := incrCounter m.world.redis m.world.now.us key ex
    (r.1, { m with world.redis := r.2 })
  | .scan cursor keyPrefix =>
    let r := scanBatch c m.world.redis m.world.now.us cursor keyPrefix m.session.owed
    (.ok r.1, { m with session.owed := r.2 })
  | .delete key => (.ok (), { m with world.redis := m.world.redis.remove key })

/-- A command under its fault. -/
def RedisCmd.exec (c : Choice) (cmd : RedisCmd) (m : Machine) :
    Except RedisError cmd.Reply × Machine :=
  match c.fault with
  | .none => cmd.serve c m
  | .refused => (.error .connection, m)
  | .lost => (.error .connection, (cmd.serve c m).2)

/-- **What a command can change**: the key space, where the rows in hand are from, and what a SCAN
    owes. -/
theorem RedisCmd.exec_eq (c : Choice) (cmd : RedisCmd) (m : Machine) :
    ∃ redis source owed, (cmd.exec c m).2 =
      { m with world.redis := redis, session.source := source, session.owed := owed } := by
  have hserve : ∃ redis source owed, (cmd.serve c m).2 =
      { m with world.redis := redis, session.source := source, session.owed := owed } := by
    cases cmd with
    | get key =>
      simp only [RedisCmd.serve]
      split
      · exact ⟨_, _, _, rfl⟩
      · exact ⟨_, _, _, rfl⟩
    | set key value ex =>
      simp only [RedisCmd.serve]
      split
      · exact ⟨_, _, _, rfl⟩
      · exact ⟨_, _, _, rfl⟩
    | incrExpire key ex => exact ⟨_, _, _, rfl⟩
    | scan cursor keyPrefix => exact ⟨_, _, _, rfl⟩
    | delete key => exact ⟨_, _, _, rfl⟩
  unfold RedisCmd.exec
  split
  · exact hserve
  · exact ⟨_, _, _, rfl⟩
  · exact hserve

/-! ## Database statements -/

/-- Bind an integer, or fail as the driver does. -/
def bindInteger (n : Int) : Except DbError Integer :=
  match Integer.ofInt? n with
  | some i => .ok i
  | none => .error .dataError

/-- Bind an integer to 64 bits, or fail as the driver does. -/
def bindBigInteger (n : Int) : Except DbError BigInteger :=
  match BigInteger.ofInt? n with
  | some i => .ok i
  | none => .error .dataError

/-- Bind a text to a comparison: any length, but no NUL. -/
def bindText (s : String) : Except DbError String :=
  if NoNul s then .ok s else .error .dataError

/-- Bind an optional parameter. -/
def bindOption {α β : Type} (bind : α → Except DbError β) : Option α → Except DbError (Option β)
  | none => .ok none
  | some a => (bind a).map some

/-- Bind a text to a column of `n` characters. -/
def bindVarchar (n : Nat) (s : String) : Except DbError (Varchar n) :=
  match Varchar.ofString? n s with
  | some v => .ok v
  | none => .error .dataError

/-- Bind a date-time; one without an offset is read in the process's time zone. -/
def bindDatetime (env : Env) (d : Datetime) : Except DbError Instant :=
  match d.toInstant? env.localOffset with
  | some i => .ok i
  | none => .error .overflow

/-- Bind the cursor of a page. -/
def bindCursor (env : Env) (c : Datetime × Int) : Except DbError (Instant × BigInteger) := do
  return (← bindDatetime env c.1, ← bindBigInteger c.2)

/-- Bind a `LIMIT`. -/
def bindLimit (n : Nat) : Except DbError Nat :=
  if n < 9223372036854775808 then .ok n else .error .dataError

/-- Bind a row to the columns of `price_points`. -/
def PriceParams.bind (env : Env) (p : PriceParams) : Except DbError PriceValues := do
  let region ← bindVarchar 32 p.region
  let instanceType ← bindVarchar 64 p.instanceType
  let availability ← bindVarchar 16 p.availability
  let observedAt ← bindDatetime env p.observedAt
  match Numeric.ofRat? 10 4 p.usdPerHour with
  | some usdPerHour =>
    .ok ⟨p.gpuModelId, p.providerId, region, instanceType, usdPerHour, availability, observedAt⟩
  | none => .error .dataError

/-- The most bind parameters of one statement. -/
def maxBindParameters : Nat := 32767

/-- The bind parameters of a row. -/
def parametersPerRow : Nat := 7

/-- Bind the rows of a multi-row insert. -/
def bindRows (env : Env) (rows : List PriceParams) : Except DbError (List PriceValues) :=
  if maxBindParameters < rows.length * parametersPerRow then .error .tooManyArguments
  else rows.mapM (PriceParams.bind env)

/-- A statement on the database as it is. -/
def Statement.eval (env : Env) (plan : Plan) (db : Database) :
    (stmt : Statement) → Except DbError stmt.Result
  | .getGpuModel id => do return db.gpuModel? (← bindInteger id)
  | .listGpus vendor minVramGb limit => do
    let vendor ← bindOption bindText vendor
    let minVramGb ← bindOption bindInteger minVramGb
    return listGpusSql env.collation plan db vendor minVramGb (← bindLimit limit)
  | .benchmarks gpuModelId workload precision limit => do
    let gpuModelId ← bindInteger gpuModelId
    let workload ← bindOption bindText workload
    let precision ← bindOption bindText precision
    return benchmarksSql plan db gpuModelId workload precision (← bindLimit limit)
  | .latestPrices gpuModelId since availability limit => do
    let gpuModelId ← bindInteger gpuModelId
    let availability ← bindOption bindText availability
    return latestPricesSql env.collation env.fmt plan db gpuModelId since availability
      (← bindLimit limit)
  | .keysetPage gpuModelId cursor limit => do
    let gpuModelId ← bindInteger gpuModelId
    let cursor ← bindOption (bindCursor env) cursor
    return keysetPageSql env.fmt plan db gpuModelId cursor (← bindLimit limit)
  | .index workload precision since limit => do
    let workload ← bindText workload
    let precision ← bindOption bindText precision
    return indexSql env.fmt plan db workload precision since (← bindLimit limit)
  | .gpuModels => .ok (plan.gpuModels.apply db.gpuModels)
  | .providers => .ok db.providers
  | .insertPrices rows => do
    let rows ← bindRows env rows
    let _ ← db.insertPrices rows
    return ()
  | .commit => .ok ()

/-- The rows in hand are those of the database as it is. -/
def Machine.readRows (m : Machine) : Machine := { m with session.source := some m.world.db }

/-- Rows wait in the transaction. -/
def Machine.insert (m : Machine) (values : List PriceValues) : Machine :=
  { m with session.pending := m.session.pending ++ values }

/-- The transaction has become the database `db`. -/
def Machine.commit (m : Machine) (db : Database) : Machine :=
  { m with
    world.db := db
    session.pending := []
    session.added :=
      m.session.added ++ db.pricePoints.drop m.world.db.pricePoints.length }

/-- What a statement that succeeds leaves behind.  An insert waits in the transaction; its rows
    are seen, and meet the rows of others, when it commits. -/
def Statement.effect (env : Env) (m : Machine) : Statement → Except DbError Machine
  | .latestPrices _ _ _ _ => .ok m.readRows
  | .index _ _ _ _ => .ok m.readRows
  | .insertPrices rows => return m.insert (← bindRows env rows)
  | .commit => return m.commit (← m.world.db.insertPrices m.session.pending)
  | _ => .ok m

/-- What a statement can leave behind. -/
theorem Statement.effect_cases {env : Env} {m m' : Machine} {stmt : Statement}
    (h : stmt.effect env m = .ok m') :
    m' = m ∨ m' = m.readRows
      ∨ (∃ rows values, stmt = .insertPrices rows ∧ bindRows env rows = .ok values
          ∧ m' = m.insert values)
      ∨ ∃ db, stmt = .commit ∧ m.world.db.insertPrices m.session.pending = .ok db
          ∧ m' = m.commit db := by
  cases stmt with
  | latestPrices => exact .inr (.inl (Except.ok.inj h).symm)
  | index => exact .inr (.inl (Except.ok.inj h).symm)
  | insertPrices rows =>
    rw [Statement.effect] at h
    cases hvalues : bindRows env rows with
    | error e => rw [hvalues] at h; cases h
    | ok values =>
      rw [hvalues] at h
      exact .inr (.inr (.inl ⟨rows, values, rfl, hvalues, (Except.ok.inj h).symm⟩))
  | commit =>
    rw [Statement.effect] at h
    cases hdb : m.world.db.insertPrices m.session.pending with
    | error e => rw [hdb] at h; cases h
    | ok db =>
      rw [hdb] at h
      exact .inr (.inr (.inr ⟨db, rfl, rfl, (Except.ok.inj h).symm⟩))
  | getGpuModel => exact .inl (Except.ok.inj h).symm
  | listGpus => exact .inl (Except.ok.inj h).symm
  | benchmarks => exact .inl (Except.ok.inj h).symm
  | keysetPage => exact .inl (Except.ok.inj h).symm
  | gpuModels => exact .inl (Except.ok.inj h).symm
  | providers => exact .inl (Except.ok.inj h).symm

/-- A statement under its choice: it fails, or it is evaluated and takes effect. -/
def Statement.exec (env : Env) (c : Choice) (stmt : Statement) (m : Machine) :
    Except DbError stmt.Result × Machine :=
  match c.dbError with
  | some e => (.error e, m)
  | none =>
    match stmt.eval env c.plan m.world.db, stmt.effect env m with
    | .ok r, .ok m' => (.ok r, m')
    | .error e, _ => (.error e, m)
    | _, .error e => (.error e, m)

/-- A statement that is answered has been evaluated and has taken effect. -/
theorem Statement.exec_ok {env : Env} {c : Choice} {stmt : Statement} {m m' : Machine}
    {r : stmt.Result} (h : stmt.exec env c m = (.ok r, m')) :
    c.dbError = none ∧ stmt.eval env c.plan m.world.db = .ok r
      ∧ stmt.effect env m = .ok m' := by
  unfold Statement.exec at h
  cases hdb : c.dbError with
  | some e => simp [hdb] at h
  | none =>
    simp only [hdb] at h
    split at h
    · rename_i heval heffect
      cases h
      exact ⟨rfl, heval, heffect⟩
    · cases h
    · cases h

/-- A statement that fails changes nothing. -/
theorem Statement.exec_error {env : Env} {c : Choice} {stmt : Statement} {m m' : Machine}
    {e : DbError} (h : stmt.exec env c m = (.error e, m')) : m' = m := by
  unfold Statement.exec at h
  split at h
  · exact (Prod.mk.inj h).2.symm
  · split at h
    · cases h
    · exact (Prod.mk.inj h).2.symm
    · exact (Prod.mk.inj h).2.symm

/-- **What a statement can leave behind**, answered or not. -/
theorem Statement.exec_cases (env : Env) (c : Choice) (stmt : Statement) (m : Machine) :
    (stmt.exec env c m).2 = m ∨ (stmt.exec env c m).2 = m.readRows
      ∨ (∃ rows values, stmt = .insertPrices rows ∧ bindRows env rows = .ok values
          ∧ (stmt.exec env c m).2 = m.insert values)
      ∨ ∃ db, stmt = .commit ∧ m.world.db.insertPrices m.session.pending = .ok db
          ∧ (stmt.exec env c m).2 = m.commit db := by
  rcases hexec : stmt.exec env c m with ⟨e | r, m'⟩
  · exact .inl (Statement.exec_error hexec)
  · obtain ⟨-, -, heffect⟩ := Statement.exec_ok hexec
    exact Statement.effect_cases heffect

/-- What reading, inserting and committing leave alone, every statement leaves alone. -/
theorem Statement.exec_frame {α : Type} (f : Machine → α) (env : Env) (c : Choice)
    (stmt : Statement) (m : Machine) (hread : f m.readRows = f m)
    (hinsert : ∀ values, f (m.insert values) = f m) (hcommit : ∀ db, f (m.commit db) = f m) :
    f (stmt.exec env c m).2 = f m := by
  rcases stmt.exec_cases env c m with h | h | ⟨_, values, -, -, h⟩ | ⟨db, -, -, h⟩
  · rw [h]
  · rw [h, hread]
  · rw [h, hinsert]
  · rw [h, hcommit]

/-- A statement that does not fail by itself answers with its value. -/
theorem Statement.exec_calm {env : Env} {c : Choice} {stmt : Statement} {m m' : Machine}
    (hc : c.dbError = none) (heffect : stmt.effect env m = .ok m') :
    stmt.exec env c m = match stmt.eval env c.plan m.world.db with
      | .ok r => (.ok r, m')
      | .error e => (.error e, m) := by
  unfold Statement.exec
  simp only [hc, heffect]
  cases stmt.eval env c.plan m.world.db <;> rfl

theorem bindInteger_ok {n : Int} {i : Integer} (h : bindInteger n = .ok i) : i.val = n := by
  unfold bindInteger at h
  split at h
  · rename_i hi
    cases h
    exact Integer.ofInt?_eq_some hi
  · cases h

theorem bindText_of_noNul {s : String} (h : NoNul s) : bindText s = .ok s := if_pos h

theorem bindText_of_nul {s : String} (h : ¬ NoNul s) : bindText s = .error .dataError := if_neg h

theorem bindOption_ok {α β : Type} {bind : α → Except DbError β} {f : α → β} {a : Option α}
    (h : ∀ x ∈ a, bind x = .ok (f x)) : bindOption bind a = .ok (a.map f) := by
  cases a with
  | none => rfl
  | some x =>
    rw [bindOption, h x rfl]
    rfl

/-- An optional text is bound as it is, unless it has a NUL. -/
theorem bindOption_bindText {s : Option String} (h : ∀ x ∈ s, NoNul x) :
    bindOption bindText s = .ok s := by
  rw [bindOption_ok fun x hx => bindText_of_noNul (h x hx), Option.map_id']

theorem bindOption_bindText_nul {s : Option String} (h : ¬ ∀ x ∈ s, NoNul x) :
    bindOption bindText s = .error .dataError := by
  simp only [not_forall] at h
  obtain ⟨x, hx, hnul⟩ := h
  rw [Option.mem_def.mp hx, bindOption, bindText_of_nul hnul]
  rfl

/-- The limits that the routes admit are bound as they are. -/
theorem bindLimit_of_le {n : Nat} (h : n ≤ 500) : bindLimit n = .ok n := if_pos (by omega)

theorem bindLimit_ok {n k : Nat} (h : bindLimit n = .ok k) : k = n := by
  unfold bindLimit at h
  split at h
  · exact (Except.ok.inj h).symm
  · cases h

/-! ## All calls -/

/-- Whole seconds of an instant since 1970. -/
def unixSeconds (i : Instant) : Int := ((i.us : Int) - 62135596800000000).tdiv 1000000

/-- What a call answers and changes. -/
def perform (env : Env) (c : Choice) : (op : Op) → Machine → op.Ans × Machine
  | .time, m => (unixSeconds (env.clock m.world.now), m)
  | .now, m => (env.clock m.world.now, m)
  | .bump stat, m => ((), { m with world.stats := m.world.stats.bump stat })
  | .redis cmd, m => cmd.exec c m
  | .db stmt, m => stmt.exec env c m

/-- The machine with one more call on record. -/
def Machine.record (m : Machine) (op : Op) (ans : op.Ans) : Machine :=
  { m with session.log := ⟨op, ans⟩ :: m.session.log }

/-- Perform a call and put it on record. -/
def exec (env : Env) (c : Choice) (op : Op) (m : Machine) : op.Ans × Machine :=
  ((perform env c op m).1, (perform env c op m).2.record op (perform env c op m).1)

section Record

variable (m : Machine) (op : Op) (ans : op.Ans)

@[simp] theorem Machine.record_world : (m.record op ans).world = m.world := rfl

@[simp] theorem Machine.record_pending :
    (m.record op ans).session.pending = m.session.pending := rfl

@[simp] theorem Machine.record_owed : (m.record op ans).session.owed = m.session.owed := rfl

@[simp] theorem Machine.record_source : (m.record op ans).session.source = m.session.source := rfl

@[simp] theorem Machine.record_added : (m.record op ans).session.added = m.session.added := rfl

end Record

end GpuIndex
