/-
  What the counters of the cache count.

  A client of `read_through` sees `GET` answer anything or fail, and `SET` succeed or fail.  A hit
  is counted when `GET` answers with a text, a miss when the lookup ends without a value; a text
  that `json.loads` does not take is counted as both.  `go_readThrough` says so of one call, and
  `run_counts` of any sequence of calls.  So the counters account for every lookup exactly if no
  call is answered with such a text, and then, and only then, the ratio on the metrics page is the
  fraction of the lookups that were served from the cache (**`lookups_accounted_iff`**).
-/
import GpuIndex.Core.ReadThrough
import GpuIndex.Fixture
import GpuIndex.Lib.Trace
import Mathlib.Algebra.Order.Round
import Mathlib.Tactic.FieldSimp

namespace GpuIndex

open ExpiringStore Trace
open JsonText (FloatFormat FloatVal loads)

/-! ## The metrics page -/

/-- The nearest integer, the even one of two that are as near. -/
def roundHalfEven (q : ℚ) : Int :=
  if q - ⌊q⌋ < 1 / 2 then ⌊q⌋
  else if 1 / 2 < q - ⌊q⌋ then ⌊q⌋ + 1
  else if ⌊q⌋ % 2 = 0 then ⌊q⌋
  else ⌊q⌋ + 1

/-- A double as `:.4f` prints it. -/
def fixed4 : FloatVal → String
  | .finite q =>
    let scaled := (roundHalfEven (|q| * 10000)).toNat
    (if q < 0 then "-" else "") ++ toString (scaled / 10000) ++ "."
      ++ String.ofList ((Nat.toDigits 10 (scaled % 10000)).leftpad 4 '0')
  | .infinity neg => if neg then "-inf" else "inf"
  | .nan => "nan"

/-- The hit ratio of `metrics`, before it is rounded to a double. -/
def hitRatio (stats : Stats) : ℚ :=
  let total := stats.hits + stats.misses
  if total ≠ 0 then stats.hits / total else 0

/-- `metrics` -/
def metrics (env : Env) (stats : Stats) : String :=
  let ratio := if stats.hits + stats.misses ≠ 0 then env.fmt.round (hitRatio stats) else .finite 0
  "\n".intercalate
    ["# HELP cache_hits_total Read-through cache hits.",
      "# TYPE cache_hits_total counter",
      "cache_hits_total " ++ toString stats.hits,
      "# HELP cache_misses_total Read-through cache misses.",
      "# TYPE cache_misses_total counter",
      "cache_misses_total " ++ toString stats.misses,
      "# HELP cache_errors_total Redis errors degraded to direct reads.",
      "# TYPE cache_errors_total counter",
      "cache_errors_total " ++ toString stats.errors,
      "# HELP cache_hit_ratio Hits over total lookups.",
      "# TYPE cache_hit_ratio gauge",
      "cache_hit_ratio " ++ fixed4 ratio,
      ""]

/-! ## Calls that count no lookup -/

/-- The call counts neither a hit nor a miss. -/
def NoLookup (op : Op) : Prop := op ≠ .bump .hits ∧ op ≠ .bump .misses

/-- The same hits and the same misses. -/
def Stats.SameLookups (s s' : Stats) : Prop := s'.hits = s.hits ∧ s'.misses = s.misses

theorem Stats.SameLookups.refl (s : Stats) : s.SameLookups s := ⟨rfl, rfl⟩

theorem Stats.SameLookups.trans {a b c : Stats} (h₁ : a.SameLookups b) (h₂ : b.SameLookups c) :
    a.SameLookups c :=
  ⟨h₂.1.trans h₁.1, h₂.2.trans h₁.2⟩

theorem RedisCmd.exec_stats (c : Choice) (cmd : RedisCmd) (m : Machine) :
    (cmd.exec c m).2.world.stats = m.world.stats := by
  obtain ⟨_, _, _, hcmd⟩ := cmd.exec_eq c m
  rw [hcmd]

theorem Statement.exec_stats (env : Env) (c : Choice) (stmt : Statement) (m : Machine) :
    (stmt.exec env c m).2.world.stats = m.world.stats :=
  stmt.exec_frame (·.world.stats) env c m rfl (fun _ => rfl) fun _ => rfl

theorem exec_sameLookups {env : Env} {c : Choice} {op : Op} (hop : NoLookup op) (m : Machine) :
    m.world.stats.SameLookups (exec env c op m).2.world.stats := by
  cases op with
  | time => exact .refl _
  | now => exact .refl _
  | bump stat =>
    cases stat with
    | hits => exact absurd rfl hop.1
    | misses => exact absurd rfl hop.2
    | errors => exact ⟨rfl, rfl⟩
  | redis cmd =>
    have hstats : (exec env c (.redis cmd) m).2.world.stats = m.world.stats := cmd.exec_stats c m
    rw [hstats]
    exact .refl _
  | db stmt =>
    have hstats : (exec env c (.db stmt) m).2.world.stats = m.world.stats := stmt.exec_stats env c m
    rw [hstats]
    exact .refl _

/-- A program of such calls counts no lookup. -/
theorem wp_sameLookups {α : Type} {env : Env} {C : Choice → Prop} {p : Svc α} (hp : p.Only NoLookup)
    (m : Machine) : Svc.wp env C p (fun _ m' => m.world.stats.SameLookups m'.world.stats) m :=
  Svc.wp_of_only (P := fun m' => m.world.stats.SameLookups m'.world.stats)
    (fun _ _ m' _ hop h => h.trans (exec_sameLookups hop m')) hp (.refl _)

/-! ## One call -/

/-- What a `GET` answered: a text, nothing, or an error. -/
abbrev GetAnswer := Except RedisError (Option String)

/-- The text, when there is one. -/
def textOf : GetAnswer → Option String
  | .ok text => text
  | .error _ => none

/-- The value that the lookup makes of the answer. -/
def valueOf (fmt : FloatFormat) (answer : GetAnswer) : Option Json :=
  (textOf answer).bind fun text => loads fmt text.toList

section Call

variable {env : Env} {choices : Nat → Choice} {key : String} {m : Machine} {n : Nat}

/-- The first `try`: a hit is counted when there is a text, whether or not it is decoded. -/
theorem go_tryLookup (env : Env) (answer : GetAnswer)
    (hanswer : ((RedisCmd.get key).exec (choices n) m).1 = answer) :
    ∃ s', Svc.go env choices (tryCatch (lookupCached env key) fun _ => do
          call (.bump .errors)
          return none) (m, n) = (.ok (valueOf env.fmt answer), s')
      ∧ s'.1.world.stats.hits = m.world.stats.hits + (if (textOf answer).isSome then 1 else 0)
      ∧ s'.1.world.stats.misses = m.world.stats.misses := by
  have hstats := RedisCmd.exec_stats (choices n) (.get key) m
  have hhits := congrArg Stats.hits hstats
  have hmisses := congrArg Stats.misses hstats
  rw [Svc.go_tryCatch, lookupCached, Svc.go_bind, Svc.go_redis]
  rcases hexec : (RedisCmd.get key).exec (choices n) m with ⟨e | text, m'⟩
  · rw [hexec] at hanswer hhits hmisses
    subst hanswer
    exact ⟨_, rfl, hhits, hmisses⟩
  · rw [hexec] at hanswer hhits hmisses
    subst hanswer
    cases text with
    | none => exact ⟨_, rfl, hhits, hmisses⟩
    | some text =>
      have hvalue : valueOf env.fmt (.ok (some text)) = loads env.fmt text.toList := rfl
      rw [hvalue]
      cases hloads : loads env.fmt text.toList with
      | some value =>
        simp only [Svc.go_bind, hloads]
        exact ⟨_, rfl, congrArg (· + 1) hhits, hmisses⟩
      | none =>
        simp only [Svc.go_bind, hloads]
        exact ⟨_, rfl, congrArg (· + 1) hhits, hmisses⟩

/-- After a miss: the producer runs, and its value is stored if it can be. -/
theorem wp_produce (env : Env) {C : Choice → Prop} {producer : Svc Json}
    (hproducer : producer.Only NoLookup) (key : String) (ttl : Int) (m : Machine) :
    Svc.wp env C (do
        let value ← producer
        tryCatch (redis (.set key (dumpsText env value) ttl)) fun _ => call (.bump .errors)
        return (value, false))
      (fun r m' => (∀ value hit, r = .ok (value, hit) → hit = false)
        ∧ m.world.stats.SameLookups m'.world.stats) m := by
  have hredis : ∀ cmd, NoLookup (.redis cmd) :=
    fun _ => ⟨(fun h => nomatch h), (fun h => nomatch h)⟩
  have herrors : NoLookup (.bump .errors) := ⟨(fun h => nomatch h), (fun h => nomatch h)⟩
  refine Svc.wp_and ?_ (wp_sameLookups ?_ m)
  · refine Svc.wp_seq (R := fun _ _ => True) (Prog.wp_true _ _) (fun value m₁ _ => ?_) ?_
    · refine Svc.wp_seq (R := fun _ _ => True) (Prog.wp_true _ _) (fun _ m₂ _ => ?_) ?_
      · intro value' hit h
        cases h
        rfl
      · exact fun _ _ _ _ _ h => nomatch h
    · exact fun _ _ _ _ _ h => nomatch h
  · refine Svc.only_bind hproducer fun value => Svc.only_bind ?_ fun _ => Svc.only_pure
    exact Svc.only_tryCatch (Svc.only_redis (hredis _)) fun _ => Svc.only_call herrors

/-- **One call**: a hit is counted for a text, a miss when no value came of it. -/
theorem go_readThrough {producer : Svc Json} {ttl : Option Int} (hproducer : producer.Only NoLookup)
    {answer : GetAnswer} (hanswer : ((RedisCmd.get key).exec (choices n) m).1 = answer)
    {value : Json} {hit : Bool} {s' : Machine × Nat}
    (hgo : (readThrough env key producer ttl).go env choices (m, n) = (.ok (value, hit), s')) :
    hit = (valueOf env.fmt answer).isSome
      ∧ s'.1.world.stats.hits = m.world.stats.hits + (if (textOf answer).isSome then 1 else 0)
      ∧ s'.1.world.stats.misses = m.world.stats.misses + (if hit then 0 else 1) := by
  obtain ⟨⟨m₁, n₁⟩, hlookup, hhits, hmisses⟩ := go_tryLookup env answer hanswer
  simp only [readThrough, Svc.go_bind, hlookup] at hgo
  cases hvalue : valueOf env.fmt answer with
  | some cached =>
    rw [hvalue] at hgo
    cases hgo
    exact ⟨rfl, hhits, hmisses⟩
  | none =>
    rw [hvalue] at hgo
    dsimp only at hgo
    rw [Svc.go_bind, Svc.go_call] at hgo
    have hproduce := Svc.go_of_wp (C := fun _ => True) choices (fun _ => trivial) (n₁ + 1)
      (wp_produce env hproducer key (ttl.getD env.settings.cacheTtlSeconds)
        (exec env (choices n₁) (.bump .misses) m₁).2)
    obtain ⟨hfalse, hhits', hmisses'⟩ := hproduce
    dsimp only at hgo
    rw [hgo] at hfalse hhits' hmisses'
    obtain rfl := hfalse value hit rfl
    refine ⟨rfl, hhits'.trans hhits, hmisses'.trans ?_⟩
    exact congrArg (· + 1) hmisses

end Call

/-! ## Sequences of calls -/

/-- A call of `read_through`: its arguments, the client it meets and what the outside decides. -/
structure Lookup where
  key : String
  producer : Svc Json
  ttl : Option Int
  machine : Machine
  choices : Nat → Choice

/-- What the client answers to the `GET`. -/
def Lookup.answer (l : Lookup) : GetAnswer := ((RedisCmd.get l.key).exec (l.choices 0) l.machine).1

/-- A text that the client answers with is one that `json.loads` takes. -/
def Lookup.decodes (env : Env) (l : Lookup) : Bool :=
  (textOf l.answer).all fun text => (loads env.fmt text.toList : Option Json).isSome

/-- The call, made when the counters stand at `stats`. -/
def Lookup.run (env : Env) (stats : Stats) (l : Lookup) : Except Exn (Json × Bool) × Machine :=
  runSvc env l.choices (readThrough env l.key l.producer l.ttl)
    { l.machine with world.stats := stats }

/-- The counters after the call. -/
def counted (env : Env) (stats : Stats) (l : Lookup) : Stats := (l.run env stats).2.world.stats

/-- The call returns. -/
def Returns (env : Env) (stats : Stats) (l : Lookup) : Prop :=
  ∃ value hit, (l.run env stats).1 = .ok (value, hit)

/-- The call is counted once: as a hit if `cache_hit` is returned as true, as a miss if as false. -/
def Accounted (env : Env) (stats : Stats) (l : Lookup) : Prop :=
  ∃ value hit, (l.run env stats).1 = .ok (value, hit)
    ∧ (counted env stats l).hits + (counted env stats l).misses = stats.hits + stats.misses + 1
    ∧ (stats.hits < (counted env stats l).hits ↔ hit = true)
    ∧ (stats.misses < (counted env stats l).misses ↔ hit = false)

/-- The answer was served from the cache. -/
def servedFromCache : Except Exn (Json × Bool) → Bool
  | .ok (_, hit) => hit
  | .error _ => false

/-- How many of the calls were. -/
def servedCount (env : Env) : Stats → List Lookup → Nat
  | _, [] => 0
  | stats, l :: ls =>
    (if servedFromCache (l.run env stats).1 then 1 else 0)
      + servedCount env (counted env stats l) ls

section Calls

variable {env : Env} {stats : Stats}

/-- The answer of the client does not depend on the counters. -/
theorem Lookup.exec_get (l : Lookup) (stats : Stats) :
    ((RedisCmd.get l.key).exec (l.choices 0) { l.machine with world.stats := stats }).1
      = l.answer := by
  have hserve : ((RedisCmd.get l.key).serve (l.choices 0) { l.machine with world.stats := stats }).1
      = ((RedisCmd.get l.key).serve (l.choices 0) l.machine).1 := by
    simp only [RedisCmd.serve]
    split <;> rfl
  unfold answer RedisCmd.exec
  split
  · exact hserve
  · rfl
  · rfl

/-- What a call that returns counts: itself, and a text that is not decoded as a hit as well. -/
theorem counted_eq {l : Lookup} (hproducer : l.producer.Only NoLookup) {value : Json} {hit : Bool}
    (hrun : (l.run env stats).1 = .ok (value, hit)) :
    (counted env stats l).hits
        = stats.hits + (if hit then 1 else 0) + (if l.decodes env then 0 else 1)
      ∧ (counted env stats l).misses = stats.misses + (if hit then 0 else 1)
      ∧ (l.decodes env = false → hit = false) := by
  obtain ⟨hhit, hhits, hmisses⟩ := go_readThrough (n := 0) hproducer (l.exec_get stats)
    (Prod.ext hrun rfl)
  have hcounted : (counted env stats l).hits
      = stats.hits + (if (textOf l.answer).isSome then 1 else 0) := hhits
  rw [hcounted, hhit, Lookup.decodes, valueOf]
  refine ⟨?_, by rw [← valueOf, ← hhit]; exact hmisses, ?_⟩
  · cases textOf l.answer with
    | none => rfl
    | some text => cases h : (loads env.fmt text.toList : Option Json) <;> simp [h]
  · cases textOf l.answer with
    | none => exact fun _ => rfl
    | some text => exact id

/-- A call is accounted for exactly if its text, if there is one, is decoded. -/
theorem accounted_iff {l : Lookup} (hproducer : l.producer.Only NoLookup)
    (hreturns : Returns env stats l) : Accounted env stats l ↔ l.decodes env = true := by
  obtain ⟨value, hit, hrun⟩ := hreturns
  obtain ⟨hhits, hmisses, hhit⟩ := counted_eq hproducer hrun
  constructor
  · rintro ⟨value', hit', hrun', htotal, -, -⟩
    cases hdecodes : l.decodes env with
    | true => rfl
    | false =>
      rw [hhits, hmisses, hdecodes, hhit hdecodes] at htotal
      simp at htotal
      omega
  · intro hdecodes
    refine ⟨value, hit, hrun, ?_, ?_, ?_⟩
    · rw [hhits, hmisses, hdecodes]
      cases hit <;> simp <;> omega
    · rw [hhits, hdecodes]
      cases hit <;> simp
    · rw [hmisses]
      cases hit <;> simp

/-- What a sequence of calls counts: the hits are the calls served from the cache and those whose
    text was not decoded, the misses all calls that were not served from the cache. -/
theorem run_counts {ls : List Lookup} (hproducers : ∀ l ∈ ls, l.producer.Only NoLookup)
    (hreturns : Guarded (counted env) (Returns env) stats ls) :
    (run (counted env) stats ls).hits
        = stats.hits + servedCount env stats ls + ls.countP (fun l => !l.decodes env)
      ∧ (run (counted env) stats ls).misses + servedCount env stats ls = stats.misses + ls.length
      ∧ servedCount env stats ls + ls.countP (fun l => !l.decodes env) ≤ ls.length := by
  induction ls generalizing stats with
  | nil => exact ⟨rfl, rfl, le_rfl⟩
  | cons l ls ih =>
    obtain ⟨⟨value, hit, hrun⟩, hrest⟩ := hreturns
    obtain ⟨hhits, hmisses, hhit⟩ := counted_eq (hproducers l List.mem_cons_self) hrun
    obtain ⟨ihhits, ihmisses, ihle⟩ :=
      ih (fun l' h => hproducers l' (List.mem_cons_of_mem l h)) hrest
    have hserved : servedCount env stats (l :: ls)
        = (if hit then 1 else 0) + servedCount env (counted env stats l) ls := by
      rw [servedCount, hrun]
      rfl
    rw [run_cons, List.countP_cons, List.length_cons, hserved]
    rw [hhits] at ihhits
    rw [hmisses] at ihmisses
    cases hdecodes : l.decodes env with
    | true =>
      rw [hdecodes] at ihhits
      cases hit <;> simp at ihhits ihmisses ⊢ <;> omega
    | false =>
      rw [hhit hdecodes, hdecodes] at ihhits
      rw [hhit hdecodes] at ihmisses ⊢
      simp at ihhits ihmisses ⊢
      omega

end Calls

/-- Counters that start at zero show the fraction exactly if every text was decoded. -/
theorem hitRatio_eq_iff {stats : Stats} {lookups served undecoded : Nat}
    (hhits : stats.hits = served + undecoded) (hmisses : stats.misses + served = lookups)
    (hle : served + undecoded ≤ lookups) :
    hitRatio stats = served / lookups ↔ undecoded = 0 := by
  have htotal : stats.hits + stats.misses = lookups + undecoded := by omega
  simp only [hitRatio]
  rw [htotal, hhits]
  rcases Nat.eq_zero_or_pos lookups with rfl | hpos
  · have hzero : served = 0 ∧ undecoded = 0 := by omega
    obtain ⟨rfl, rfl⟩ := hzero
    simp
  · have hne : (lookups : ℚ) ≠ 0 := by exact_mod_cast hpos.ne'
    have hne' : ((lookups + undecoded : Nat) : ℚ) ≠ 0 := by
      exact_mod_cast (Nat.add_pos_left hpos undecoded).ne'
    rw [if_pos (Nat.add_pos_left hpos undecoded).ne', div_eq_div_iff hne' hne]
    constructor
    · intro h
      have hcross : (served + undecoded) * lookups = served * (lookups + undecoded) := by
        exact_mod_cast h
      have heq : undecoded * lookups = undecoded * served := by linarith
      rcases Nat.eq_zero_or_pos undecoded with hzero | hsome
      · exact hzero
      · have hall : lookups = served := Nat.eq_of_mul_eq_mul_left hsome heq
        omega
    · rintro rfl
      push_cast
      ring

/-- **The counters account for every lookup** exactly if every text that the client answers with is
    decoded; then, and only then, counters that start at zero show the fraction of the lookups that
    were served from the cache. -/
theorem lookups_accounted_iff (env : Env) (stats : Stats) (ls : List Lookup)
    (hproducers : ∀ l ∈ ls, l.producer.Only NoLookup)
    (hreturns : Guarded (counted env) (Returns env) stats ls) :
    (Guarded (counted env) (Accounted env) stats ls ↔ ∀ l ∈ ls, l.decodes env = true)
      ∧ (stats.hits = 0 → stats.misses = 0 →
        (hitRatio (run (counted env) stats ls) = servedCount env stats ls / ls.length
          ↔ ∀ l ∈ ls, l.decodes env = true)) := by
  constructor
  · induction ls generalizing stats with
    | nil => exact ⟨fun _ _ h => absurd h List.not_mem_nil, fun _ => trivial⟩
    | cons l ls ih =>
      have hrest := ih (counted env stats l) (fun l' h => hproducers l' (List.mem_cons_of_mem l h))
        hreturns.2
      rw [List.forall_mem_cons, ← hrest,
        ← accounted_iff (hproducers l List.mem_cons_self) hreturns.1]
      rfl
  · intro hhits hmisses
    obtain ⟨ihhits, ihmisses, ihle⟩ := run_counts hproducers hreturns
    rw [hhits, Nat.zero_add] at ihhits
    rw [hmisses, Nat.zero_add] at ihmisses
    rw [hitRatio_eq_iff ihhits ihmisses ihle, List.countP_eq_zero]
    refine forall₂_congr fun l _ => ?_
    cases l.decodes env <;> decide

/-! ## A text that is not JSON -/

/-- A lookup of a key that holds the text, for a value that is `null`. -/
def lookupOf (text : String) : Lookup where
  key := "index:llm-inference-7b:all"
  producer := return .null
  ttl := none
  machine :=
    { world :=
        { worldOf tinyDb with
          redis := ExpiringStore.empty.put newYear.us "index:llm-inference-7b:all"
            ⟨.text text, none⟩ (newYear.us + seconds 300) }
      session := {} }
  choices := fun _ => .calm

/-- A lookup that finds nothing. -/
def absentLookup : Lookup := { lookupOf "null" with machine := ⟨worldOf tinyDb, {}⟩ }

/-- A hit and a miss are accounted for, and an empty text after them is not. -/
theorem lookups_accounted_three :
    Guarded (counted env) (Accounted env) ⟨0, 0, 0⟩ [lookupOf "null", absentLookup]
      ∧ hitRatio (run (counted env) ⟨0, 0, 0⟩ [lookupOf "null", absentLookup])
        = servedCount env ⟨0, 0, 0⟩ [lookupOf "null", absentLookup] / 2
      ∧ ¬ Guarded (counted env) (Accounted env) ⟨0, 0, 0⟩
          [lookupOf "null", absentLookup, lookupOf ""]
      ∧ hitRatio (run (counted env) ⟨0, 0, 0⟩ [lookupOf "null", absentLookup, lookupOf ""])
        ≠ servedCount env ⟨0, 0, 0⟩ [lookupOf "null", absentLookup, lookupOf ""] / 3 := by
  have hproducer (l : Lookup) (hl : l ∈ [lookupOf "null", absentLookup, lookupOf ""]) :
      l.producer.Only NoLookup := by
    simp only [List.mem_cons, List.not_mem_nil, or_false] at hl
    rcases hl with rfl | rfl | rfl <;> exact Svc.only_pure
  have htwo := lookups_accounted_iff env ⟨0, 0, 0⟩ [lookupOf "null", absentLookup]
    (fun l hl => hproducer l (List.mem_append_left [lookupOf ""] hl))
    ⟨⟨.null, true, rfl⟩, ⟨.null, false, rfl⟩, trivial⟩
  have hthree := lookups_accounted_iff env ⟨0, 0, 0⟩ [lookupOf "null", absentLookup, lookupOf ""]
    hproducer ⟨⟨.null, true, rfl⟩, ⟨.null, false, rfl⟩, ⟨.null, false, rfl⟩, trivial⟩
  have hdecodes : ∀ l ∈ [lookupOf "null", absentLookup], l.decodes env = true := by decide
  have hempty : ¬ ∀ l ∈ [lookupOf "null", absentLookup, lookupOf ""], l.decodes env = true := by
    decide
  exact ⟨htwo.1.mpr hdecodes, (htwo.2 rfl rfl).mpr hdecodes, fun h => hempty (hthree.1.mp h),
    fun h => hempty ((hthree.2 rfl rfl).mp h)⟩

/-- The empty text is counted as a hit and as a miss: one lookup, none served from the cache, and a
    hit ratio of one half. -/
theorem empty_text_not_accounted :
    (lookupOf "").producer.Only NoLookup
      ∧ Guarded (counted env) (Returns env) ⟨0, 0, 0⟩ [lookupOf ""]
      ∧ ¬ Guarded (counted env) (Accounted env) ⟨0, 0, 0⟩ [lookupOf ""]
      ∧ counted env ⟨0, 0, 0⟩ (lookupOf "") = ⟨1, 1, 1⟩
      ∧ servedCount env ⟨0, 0, 0⟩ [lookupOf ""] = 0
      ∧ hitRatio (run (counted env) ⟨0, 0, 0⟩ [lookupOf ""]) = 1 / 2 := by
  have hcounted : counted env ⟨0, 0, 0⟩ (lookupOf "") = ⟨1, 1, 1⟩ := rfl
  refine ⟨Svc.only_pure, ⟨⟨.null, false, rfl⟩, trivial⟩, ?_, hcounted, rfl, ?_⟩
  · rintro ⟨⟨value, hit, -, htotal, -⟩, -⟩
    rw [hcounted] at htotal
    cases htotal
  · rw [run_cons, run_nil, hcounted]
    norm_num [hitRatio]

end GpuIndex
