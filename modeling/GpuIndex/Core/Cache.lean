/-
  The read-through cache.

  `readThrough` answers from Redis when it can and from its producer when it cannot;
  `invalidatePrefix` drops every key under a prefix.  Neither lets a Redis error out.
-/
import GpuIndex.Core.Svc
import GpuIndex.Lib.IsoFormat

namespace GpuIndex

open Calendar
open JsonText (loads dumps)

/-- `str` of a date-time, which `json.dumps(..., default=str)` writes for one. -/
def strDatetime (d : Datetime) : String := String.ofList (isoformat ' ' d)

/-- `json.dumps(value, default=str)` -/
def dumpsText (env : Env) (value : Json) : String := String.ofList (dumps env.fmt strDatetime value)

/-- The body of the first `try`: the decoded entry of the key, if there is one. -/
def lookupCached (env : Env) (key : String) : Svc (Option Json) := do
  match ← redis (.get key) with
  | none => return none
  | some cached =>
    call (.bump .hits)
    match loads env.fmt cached.toList with
    | some value => return some value
    | none => throw .jsonDecodeError

/-- `read_through`: the value, and whether it came from the cache. -/
def readThrough (env : Env) (key : String) (producer : Svc Json) (ttl : Option Int) :
    Svc (Json × Bool) := do
  let ttl := ttl.getD env.settings.cacheTtlSeconds
  let cached ← tryCatch (lookupCached env key) fun _ => do
    call (.bump .errors)
    return none
  match cached with
  | some value => return (value, true)
  | none =>
    call (.bump .misses)
    let value ← producer
    tryCatch (redis (.set key (dumpsText env value) ttl)) fun _ => call (.bump .errors)
    return (value, false)

/-! ## Invalidation -/

/-- How a loop ended, and how many keys it had removed by then. -/
abbrev Removal := Except Exn Unit × Nat

/-- Delete the keys of one batch. -/
def deleteKeys : List String → Nat → Prog svc Removal
  | [], removed => return (.ok (), removed)
  | key :: keys, removed => do
    match ← (redis (.delete key)).run with
    | .ok _ => deleteKeys keys (removed + 1)
    | .error e => return (.error e, removed)

/-- Fetch one batch, delete its keys, and go on from the cursor of the reply. -/
def scanThen (keyPrefix : String) (cursor removed : Nat) (next : Nat → Nat → Prog svc Removal) :
    Prog svc Removal := do
  match ← (redis (.scan cursor keyPrefix)).run with
  | .error e => return (.error e, removed)
  | .ok (cursor, keys) =>
    match ← deleteKeys keys removed with
    | (.error e, removed) => return (.error e, removed)
    | (.ok _, removed) => next cursor removed

/-- `scan_iter` from a cursor on, until the cursor is zero. -/
def scanRest (keyPrefix : String) : Nat → Nat → Prog svc Removal
  | 0, removed => return (.ok (), removed)
  | cursor + 1, removed =>
    scanThen keyPrefix (cursor + 1) removed fun _ removed => scanRest keyPrefix cursor removed

/-- The body of the `try` of `invalidate_prefix`. -/
def scanDelete (keyPrefix : String) : Prog svc Removal :=
  scanThen keyPrefix 0 0 (scanRest keyPrefix)

/-- `invalidate_prefix`: the number of keys removed. -/
def invalidatePrefix (keyPrefix : String) : Svc Nat := do
  match ← ExceptT.lift (scanDelete keyPrefix) with
  | (.ok _, removed) => return removed
  | (.error _, removed) =>
    call (.bump .errors)
    return removed

end GpuIndex
