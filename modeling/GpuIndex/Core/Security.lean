/-
  API keys and the fixed-window limiter.
-/
import GpuIndex.Core.Svc
import Mathlib.Data.List.Defs

namespace GpuIndex

/-- Whoever makes a request. -/
structure Principal where
  apiKey : String
  deriving DecidableEq

/-- The low 32 bits as eight hexadecimal digits, as `:08x` prints them. -/
def hex8 (n : Int) : String :=
  String.ofList ((Nat.toDigits 16 (n % 4294967296).toNat).leftpad 8 '0')

/-- `Principal.bucket_id`, with the builtin hash of the process. -/
def Principal.bucketId (strHash : String → Int) (p : Principal) : String :=
  "rl:" ++ hex8 (strHash p.apiKey)

/-- `require_api_key` -/
def requireApiKey (settings : Settings) (key : Option String) : Svc Principal :=
  match key with
  | some key =>
    if key = "" ∨ key ∉ settings.apiKeySet then
      throw (.http 401 "Missing or invalid API key." [])
    else return ⟨key⟩
  | none => throw (.http 401 "Missing or invalid API key." [])

/-- The Redis key of a window. -/
def windowBucket (bucketId : String) (time window : Int) : String :=
  bucketId ++ ":" ++ toString (time.fdiv window)

/-- The refusal of a request over the limit. -/
def tooManyRequests (settings : Settings) : Exn :=
  .http 429 ("Rate limit of " ++ toString settings.rateLimitRequests ++ " per "
    ++ toString settings.rateLimitWindowSeconds ++ "s exceeded.")
    [("Retry-After", toString settings.rateLimitWindowSeconds)]

/-- `rate_limit`: count the request in its window, and refuse it when the count is over the limit.
    A Redis error admits the request. -/
def rateLimit (env : Env) (principal : Principal) : Svc Principal := do
  let window := env.settings.rateLimitWindowSeconds
  let time ← call .time
  if window = 0 then throw .zeroDivisionError
  let bucket := windowBucket (principal.bucketId env.strHash) time window
  let count : Option Int ←
    tryCatch (some <$> redis (.incrExpire bucket (window * 2))) fun _ => return none
  match count with
  | none => return principal
  | some count =>
    if env.settings.rateLimitRequests < count then throw (tooManyRequests env.settings)
    else return principal

end GpuIndex
