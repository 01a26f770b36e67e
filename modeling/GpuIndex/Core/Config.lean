/-
  Runtime configuration.

  The settings are what the service reads of the environment; nothing bounds them, so the numbers
  are integers of any sign.
-/

namespace GpuIndex

/-- The settings the requests use, with their defaults. -/
structure Settings where
  cacheTtlSeconds : Int := 60
  rateLimitRequests : Int := 120
  rateLimitWindowSeconds : Int := 60
  apiKeys : String := "local-dev-key"

/-- The characters `str.strip` removes. -/
def whitespace : List Char :=
  ['\t', '\n', '\x0b', '\x0c', '\r', '\x1c', '\x1d', '\x1e', '\x1f', ' ', '\u0085', '\u00a0',
    '\u1680', '\u2000', '\u2001', '\u2002', '\u2003', '\u2004', '\u2005', '\u2006', '\u2007',
    '\u2008', '\u2009', '\u200a', '\u2028', '\u2029', '\u202f', '\u205f', '\u3000']

/-- `str.strip` -/
def strip (s : List Char) : List Char :=
  ((s.dropWhile (· ∈ whitespace)).reverse.dropWhile (· ∈ whitespace)).reverse

/-- The keys in the comma-separated `api_keys`, blank ones left out. -/
def Settings.apiKeySet (settings : Settings) : List String :=
  (((settings.apiKeys.toList.splitOn ',').map strip).filter (· ≠ [])).map String.ofList

example : Settings.apiKeySet { apiKeys := " a, b,,c " } = ["a", "b", "c"] := by decide

end GpuIndex
