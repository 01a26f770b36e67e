/-
  Price queries: the latest prices of a GPU, and its price history page by page.
-/
import GpuIndex.Services.Cursor

namespace GpuIndex

open Calendar
open JsonText (FloatFormat FloatVal Value)

/-- A text parameter that is there and not empty, as `if parameter:` tests it. -/
def truthy (parameter : Option String) : Option String := parameter.filter (· ≠ "")

/-- `now - timedelta(days=days)` -/
def minusDays (now : Instant) (days : Int) : Except Exn Instant :=
  if h : 0 ≤ (now.us : Int) - days * dayMicros ∧ (now.us : Int) - days * dayMicros < maxMicros then
    .ok ⟨((now.us : Int) - days * dayMicros).toNat, by omega⟩
  else .error .overflowError

/-- A window can only begin too early or too late. -/
theorem minusDays_overflow {now : Instant} {days : Int} {e : Exn}
    (h : minusDays now days = .error e) : e = .overflowError := by
  unfold minusDays at h
  split at h
  · cases h
  · exact (Except.error.inj h).symm

/-- A program that reads the clock and works on the window that ends then. -/
theorem runSvc_window {α : Type} (env : Env) (choices : Nat → Choice) (days : Int)
    (f : Instant → Svc α) (m : Machine) :
    (runSvc env choices (do
        let now ← call .now
        let since ← ofExcept (minusDays now days)
        f since) m).1
      = (minusDays (env.clock m.world.now) days).bind fun since =>
        ((f since).go env choices (m.record .now (env.clock m.world.now), 1)).1 := by
  rw [runSvc, Svc.go_bind, Svc.go_now]
  simp only [Svc.go_bind]
  cases minusDays (env.clock m.world.now) days <;> rfl

/-- A statement that takes effect answers with its value, unless the server fails. -/
theorem go_query_value {env : Env} {choices : Nat → Choice} {stmt : Statement} {m m' : Machine}
    {n : Nat} (heffect : stmt.effect env m = .ok m') :
    (Svc.go env choices (query stmt) (m, n)).1 = match (choices n).dbError with
      | some e => .error (.db e)
      | none => (stmt.eval env (choices n).plan m.world.db).mapError Exn.db := by
  rw [Svc.go_query]
  cases hdb : (choices n).dbError with
  | some e => simp only [Statement.exec, hdb]
  | none =>
    rw [Statement.exec_calm hdb heffect]
    cases stmt.eval env (choices n).plan m.world.db <;> rfl

/-- `latest_prices` -/
def latestPrices (gpuModelId windowDays : Int) (availability : Option String) (limit : Nat) :
    Svc (List LatestRow) := do
  let now ← call .now
  let since ← ofExcept (minusDays now windowDays)
  query (.latestPrices gpuModelId since (truthy availability) limit)

/-- `encode_cursor(rows[-1]["observed_at"], rows[-1]["id"])`, when the page is full. -/
def nextCursor (fmt : FloatFormat) (rows : List PageRow) (limit : Nat) : Option String :=
  if rows.length = limit then
    rows.getLast?.map fun r => encodeCursor fmt (utc r.observedAt) r.id.val
  else none

/-- `price_page`: a page of rows, and the cursor of the next one. -/
def pricePage (env : Env) (gpuModelId : Int) (limit : Nat) (cursor : Option String) :
    Svc (List PageRow × Option String) := do
  let position ← match truthy cursor with
    | some cursor => some <$> ofExcept (decodeCursor env.fmt cursor)
    | none => pure none
  let rows ← query (.keysetPage gpuModelId position limit)
  return (rows, nextCursor env.fmt rows limit)

/-! ## Rows as JSON -/

/-- A JSON number, or `null`. -/
def floatOrNull : Option FloatVal → Json
  | some x => .float x
  | none => .null

/-- The dictionary of a result row. -/
def LatestRow.toJson (r : LatestRow) : Json :=
  .obj [("provider", .str r.provider.val), ("region", .str r.region.val),
    ("instance_type", .str r.instanceType.val), ("usd_per_hour", .float r.usdPerHour),
    ("availability", .str r.availability.val), ("observed_at", .ext (utc r.observedAt)),
    ("median_30d", floatOrNull r.median30d)]

/-- The value `gpu_prices` caches. -/
def latestJson (rows : List LatestRow) : Json := .arr (rows.map LatestRow.toJson)

end GpuIndex
