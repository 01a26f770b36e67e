/-
  One request after the other: the cache does not show.

  On a healthy Redis, with requests that do not overlap, every entry that is seen holds what its
  request would select from the price table as it is now, at the instant the entry was stored
  (`CurrentEntry`).  Time only lets entries die, a read stores what it has just selected, and an
  ingest that changes the table leaves no entry under either prefix.  So a read answers with what it
  would have selected itself within the last `cache_ttl_seconds` (`sequential_transparency`).
-/
import GpuIndex.Api.Answers
import GpuIndex.Api.Exceptions
import GpuIndex.Core.Invalidation

namespace GpuIndex

open Calendar ExpiringStore Joined
open JsonText (loads)

/-! ## Requests whose keys do not clash -/

/-- The availability filter is absent or one of the three that items can have. -/
def PricesQuery.Plain (q : PricesQuery) : Prop :=
  ∀ a ∈ q.availability, a = "available" ∨ a = "constrained" ∨ a = "unavailable"

/-- No part of the key is empty, has a colon, or is the sentinel. -/
structure IndexQuery.Plain (q : IndexQuery) : Prop where
  workload : q.workload ≠ "" ∧ ':' ∉ q.workload.toList
  precision : ∀ p ∈ q.precision, p ≠ "" ∧ ':' ∉ p.toList ∧ p ≠ "any"

/-- A route whose key does not clash with others; routes without a key never do. -/
def Route.Plain : Route → Prop
  | .gpuPrices q => q.Plain
  | .workloadIndex q => q.Plain
  | _ => True

/-- Plain requests with one prices key select the same rows. -/
theorem PricesQuery.Plain.selected_eq {q q' : PricesQuery} (h : q.Plain) (h' : q'.Plain)
    (hkey : pricesKey q = pricesKey q') (env : Env) :
    pricesSelected env q = pricesSelected env q' := by
  obtain ⟨hgpu, hname, hwindow⟩ := pricesKey_inj.mp hkey
  -- the sentinel is not one of the three filters
  have hall {q : PricesQuery} (h : q.Plain) : q.availability ≠ some "all" := by
    intro hq
    rcases h "all" hq with h | h | h <;> exact absurd h (by decide)
  have htruthy : truthy q.availability = truthy q'.availability := by
    rcases truthy_eq_of_filterName hname with heq | ⟨-, hq'⟩ | ⟨hq, -⟩
    · exact heq
    · exact absurd hq' (hall h')
    · exact absurd hq (hall h)
  funext now db plan
  exact selectPrices_congr hgpu hwindow htruthy

/-- A precision that is no sentinel is told from its name. -/
theorem precision_eq_of_name {p p' : Option String} (h : ∀ s ∈ p, s ≠ "" ∧ s ≠ "any")
    (h' : ∀ s ∈ p', s ≠ "" ∧ s ≠ "any") (hname : precisionName p = precisionName p') : p = p' := by
  have htruthy {p : Option String} (h : ∀ s ∈ p, s ≠ "" ∧ s ≠ "any") : truthy p = p := by
    cases p with
    | none => rfl
    | some s => exact Option.filter_eq_some_iff.mpr ⟨rfl, decide_eq_true (h s rfl).1⟩
  rw [precisionName, precisionName, htruthy h, htruthy h'] at hname
  cases p with
  | none =>
    cases p' with
    | none => rfl
    | some s' => exact absurd hname.symm (h' s' rfl).2
  | some s =>
    cases p' with
    | none => exact absurd hname (h s rfl).2
    | some s' => exact congrArg some hname

/-- Plain requests with one index key rank the same rows. -/
theorem IndexQuery.Plain.selected_eq {q q' : IndexQuery} (h : q.Plain) (h' : q'.Plain)
    (hkey : indexKey q = indexKey q') (env : Env) :
    indexSelected env q = indexSelected env q' := by
  obtain ⟨hlimit, hfields⟩ := indexKey_inj.mp hkey
  -- without colons inside, the first colon ends the workload
  obtain ⟨hworkload, hname⟩ := first_inj h.workload.2 h'.workload.2 hfields
  have hprecision : q.precision = q'.precision :=
    precision_eq_of_name (fun p hp => ⟨(h.precision p hp).1, (h.precision p hp).2.2⟩)
      (fun p hp => ⟨(h'.precision p hp).1, (h'.precision p hp).2.2⟩) (String.toList_inj.mp hname)
  funext now db plan
  rw [indexSelected, indexSelected, rankIndex_eq, rankIndex_eq, String.toList_inj.mp hworkload,
    hprecision, hlimit]

/-! ## The invariant -/

/-- The rows were selected for a plain request with the key from the table `db`, at the instant that
    is `ttl` before the entry dies. -/
structure CurrentRows {κ ρ : Type} (env : Env) (now : Instant) (db : Database) (e : Entry Cached)
    (select : κ → Instant → Database → Plan → Except Exn (List ρ)) (json : List ρ → Json)
    (q : κ) (at' : Instant) (plan : Plan) (rows : List ρ) : Prop where
  past : at' ≤ now
  deadline : e.deadline = at'.us + seconds env.settings.cacheTtlSeconds
  selected : select q at' db plan = .ok rows
  text : e.value.cell = .text (dumpsText env (json rows))

/-- **The invariant** of an entry: under each prefix, its rows are those of a plain request. -/
structure CurrentEntry (env : Env) (now : Instant) (db : Database) (key : String)
    (e : Entry Cached) : Prop where
  prices : hasPrefix "prices:" key = true → ∃ q at' plan rows,
    PricesQuery.Plain q ∧ key = pricesKey q
    ∧ CurrentRows env now db e (pricesSelected env) latestJson q at' plan rows
  index : hasPrefix "index:" key = true → ∃ q at' plan rows, IndexQuery.Plain q ∧ key = indexKey q
    ∧ CurrentRows env now db e (indexSelected env) indexJson q at' plan rows

/-- Every entry that is seen is current. -/
def World.Current (env : Env) (w : World) : Prop := w.CacheHolds (CurrentEntry env w.now w.db)

section Steps

variable {env : Env} {w : World} {m m' : Machine}

theorem currentEntry_counter (now : Instant) (db : Database) (key : String) (e : Entry Cached)
    (h : hasPrefix "rl:" key = true) : CurrentEntry env now db key e := by
  have hhead := hasPrefix_head (c := 'r') h rfl
  constructor
  · intro hp
    rw [hasPrefix_head (c := 'p') hp rfl] at hhead
    cases hhead
  · intro hi
    rw [hasPrefix_head (c := 'i') hi rfl] at hhead
    cases hhead

/-- What a plain route stores is current. -/
theorem stores_currentEntry (env : Env) {route : Route} (h : route.Plain) (w : World) :
    route.Stores env w (CurrentEntry env w.now w.db) := by
  constructor
  · rintro q rfl plan rows born hselected
    constructor
    · intro _
      exact ⟨q, w.now, plan, rows, h, rfl, le_rfl, rfl, hselected, rfl⟩
    · intro hi
      have hhead := hasPrefix_head (c := 'p') (hasPrefix_pricesKey q) rfl
      rw [hasPrefix_head (c := 'i') hi rfl] at hhead
      cases hhead
  · rintro q rfl plan rows born hselected
    constructor
    · intro hp
      have hhead := hasPrefix_head (c := 'i') (hasPrefix_indexKey q) rfl
      rw [hasPrefix_head (c := 'p') hp rfl] at hhead
      cases hhead
    · intro _
      exact ⟨q, w.now, plan, rows, h, rfl, le_rfl, rfl, hselected, rfl⟩

/-- Time only lets entries die. -/
theorem World.Current.wait (h : w.Current env) {later : Instant} (hle : w.now ≤ later) :
    ({ w with now := later } : World).Current env := by
  intro key e he
  have hus : w.now.us ≤ later.us := Instant.le_iff.mp hle
  obtain ⟨hprices, hindex⟩ := h key e (peek_of_le he hus)
  constructor
  · intro hp
    obtain ⟨q, at', plan, rows, hq, hkey, hrows⟩ := hprices hp
    exact ⟨q, at', plan, rows, hq, hkey, { hrows with past := hrows.past.trans hle }⟩
  · intro hi
    obtain ⟨q, at', plan, rows, hq, hkey, hrows⟩ := hindex hi
    exact ⟨q, at', plan, rows, hq, hkey, { hrows with past := hrows.past.trans hle }⟩

/-- Where no entry is left under the prefixes, every entry is current. -/
theorem current_of_cleared (hp : w.Cleared "prices:") (hi : w.Cleared "index:") :
    w.Current env := by
  intro key e he
  constructor
  · intro h
    rw [hp key e he] at h
    cases h
  · intro h
    rw [hi key e he] at h
    cases h

end Steps

/-! ## One request -/

section Request

variable {env : Env} {C : Choice → Prop} {w : World} {m m' : Machine}

/-- A read through the cache leaves the tables alone. -/
theorem CachedRoute.sameTables {ρ β : Type} {key : String}
    {select : Instant → Database → Plan → Except Exn (List ρ)} {json : List ρ → Json}
    {build : Json → Except Exn β} {r : Except Exn β}
    (h : CachedRoute env key select json build m r m') : m.SameTables m' := by
  obtain ⟨read, hread, -⟩ := h
  cases hread with
  | hit _ _ done => exact done.tables
  | raised miss produced =>
    cases produced with
    | failed tables _ _ => exact miss.tables.trans tables
    | overflow _ tables _ => exact miss.tables.trans tables
  | fresh miss produced fill =>
    cases produced with
    | rows _ tables _ _ _ _ => exact miss.tables.trans (tables.trans fill.tables)

/-- Only an ingest changes the tables. -/
theorem wp_handle_sameTables (env : Env) {route : Route} (h : ∀ payload, route ≠ .ingest payload)
    (m : Machine) : Svc.wp env C (handle env route) (fun _ m' => m.SameTables m') m := by
  have hpure {α : Type} {p : Svc α} (f : α → Response)
      (h : Svc.wp env C p (fun _ m' => m.SameTables m') m) :
      Svc.wp env C (p >>= fun a => pure (f a)) (fun _ m' => m.SameTables m') m :=
    Svc.wp_seq h (fun _ _ h => h) (fun _ _ h => h)
  cases route with
  | listGpus q => exact hpure _ (wp_query_sameTables (only_listGpus q) m)
  | gpuPriceHistory q => exact hpure _ (wp_query_sameTables (only_gpuPriceHistory env q) m)
  | gpuBenchmarks q => exact hpure _ (wp_query_sameTables (only_gpuBenchmarks env q) m)
  | ingest payload => exact absurd rfl (h payload)
  | workloadIndex q => exact hpure _ (Svc.wp_mono (wp_workloadIndex q m) fun _ _ h => h.sameTables)
  | gpuPrices q =>
    refine hpure _ (Svc.wp_mono (wp_gpuPrices q m) ?_)
    rintro r m' ⟨loaded, m₁, -, hread, h⟩
    cases loaded with
    | ok gpu => exact hread.tables.trans h.sameTables
    | error e =>
      rw [h.2]
      exact hread.tables

theorem wp_serveRequest_sameTables (env : Env) {req : Request}
    (h : ∀ payload, req.route ≠ .ingest payload) (m : Machine) :
    Svc.wp env C (serveRequest env req) (fun _ m' => m.SameTables m') m := by
  have hserved := wp_serveRequest (C := C) (m := m) (Q := fun m₁ _ m' => m₁.SameTables m')
    fun m₁ _ _ _ => wp_handle_sameTables env h m₁
  refine Svc.wp_mono hserved fun r m' hr => ?_
  cases hr with
  | unauthorized _ => exact .refl m
  | refused tables _ _ => exact tables
  | noWindow tables _ => exact tables
  | admitted tables _ _ handled => exact tables.trans handled

/-- An ingest that is answered has left no entry under either prefix. -/
theorem wp_ingest_cleared (payload : List PricePointIn) (m : Machine) :
    Svc.wp env Choice.Healthy (ingest payload) (fun r m' => ∀ a, r = .ok a →
      m'.world.Cleared "prices:" ∧ m'.world.Cleared "index:") m := by
  unfold ingest
  split
  · exact fun _ h => nomatch h
  · refine Svc.wp_seq (R := fun _ _ => True) (Prog.wp_true _ _) (fun result m₁ _ => ?_)
      (fun _ _ _ _ h => nomatch h)
    refine Svc.wp_seq (wp_invalidatePrefix_cleared "prices:" m₁) (fun n m₂ h₂ => ?_)
      (fun _ _ _ _ h => nomatch h)
    refine Svc.wp_seq (Svc.wp_and (wp_invalidatePrefix_cleared "index:" m₂)
      (wp_invalidatePrefix env "index:" m₂)) (fun n' m₃ h₃ => ?_) (fun _ _ _ _ h => nomatch h)
    obtain ⟨hindex, -, htables, hshrinks⟩ := h₃
    refine fun _ _ => ⟨fun key e he => ?_, hindex⟩
    -- what the second scan left was there after the first
    rw [htables.now] at he
    exact h₂ key e (hshrinks _ key e he)

theorem wp_serve_cleared (env : Env) (apiKey : Option String) (payload : List PricePointIn)
    (m : Machine) :
    Svc.wp env Choice.Healthy (serveRequest env ⟨apiKey, .ingest payload⟩)
      (fun r m' => ∀ a, r = .ok a → m'.world.Cleared "prices:" ∧ m'.world.Cleared "index:") m := by
  refine Svc.wp_seq (R := fun _ _ => True) (Prog.wp_true _ _) (fun principal m₁ _ => ?_)
    (fun _ _ _ _ h => nomatch h)
  refine Svc.wp_seq (R := fun _ _ => True) (Prog.wp_true _ _) (fun _ m₂ _ => ?_)
    (fun _ _ _ _ h => nomatch h)
  exact Svc.wp_seq (wp_ingest_cleared payload m₂) (fun a m₃ h₃ _ _ => h₃ a rfl)
    (fun _ _ _ _ h => nomatch h)

/-- A request is served at one instant. -/
theorem served_now (env : Env) (choices : Nat → Choice) (req : Request) (w : World) :
    (served env choices req w).2.world.now = w.now :=
  runSvc_of_wp choices (C := fun _ => True) (fun _ => trivial)
    (Svc.wp_of_only (P := fun m' => m'.world.now = w.now)
      (fun c op m' _ _ h => (exec_now env c op m').trans h) (Prog.only_true _) rfl)

/-- **A request** leaves the cache current. -/
theorem World.Current.serve (h : w.Current env) {req : Request} (hplain : req.route.Plain)
    {choices : Nat → Choice} (hhealthy : ∀ n, (choices n).Healthy) :
    (served env choices req w).2.world.Current env := by
  have hkeeps := runSvc_of_wp choices hhealthy (wp_serveRequest_holds (m := ⟨w, {}⟩)
    (currentEntry_counter w.now w.db) (stores_currentEntry env hplain w) h)
  have hnow := served_now env choices req w
  have hsame (hdb : (served env choices req w).2.world.db = w.db) :
      (served env choices req w).2.world.Current env := by
    rw [World.Current, hnow, hdb]
    exact hkeeps
  by_cases hingest : ∃ payload, req.route = .ingest payload
  · obtain ⟨payload, hroute⟩ := hingest
    obtain ⟨apiKey, route⟩ := req
    dsimp only at hroute
    subst hroute
    have hdb := runSvc_of_wp choices hhealthy
      (wp_serve_ingest env apiKey payload (m := ⟨w, {}⟩) rfl)
    have hcleared := runSvc_of_wp choices hhealthy
      (wp_serve_cleared env apiKey payload ⟨w, {}⟩)
    -- an ingest that raises has changed nothing
    rcases hr : (runSvc env choices (serveRequest env ⟨apiKey, .ingest payload⟩) ⟨w, {}⟩).1
      with e | a
    · rw [hr] at hdb
      exact hsame hdb
    · obtain ⟨hp, hi⟩ := hcleared a hr
      exact current_of_cleared hp hi
  · have htables := runSvc_of_wp choices hhealthy (wp_serveRequest_sameTables env
      (fun payload hroute => hingest ⟨payload, hroute⟩) ⟨w, {}⟩)
    exact hsame htables.db

end Request

/-! ## The service without its cache -/

/-- `gpu_prices` without the cache. -/
def uncachedPrices (env : Env) (q : PricesQuery) : Svc PriceSummaryOut := do
  let gpu ← loadGpu q.gpuId
  let rows ← producePrices q
  ofExcept (priceSummary env gpu.modelName.val rows)

/-- `workload_index` without the cache. -/
def uncachedIndex (env : Env) (q : IndexQuery) : Svc (Page IndexEntryOut) := do
  let rows ← produceIndex q
  ofExcept (indexPage env rows)

/-- The handlers without the cache. -/
def uncached (env : Env) : Route → Svc Response
  | .gpuPrices q => do return ⟨200, .summary (← uncachedPrices env q), []⟩
  | .workloadIndex q => do return ⟨200, .index (← uncachedIndex env q), []⟩
  | route => handle env route

/-- What the handler without the cache answers at an instant on a table, from a database that
    answers and meets rows as the plan says. -/
def uncachedAt (env : Env) (plan : Plan) (at' : Instant) (db : Database) (route : Route) :
    Except Exn Response := (runSvc env (answering plan) (uncached env route) (aloneOn db at')).1

section Uncached

variable {env : Env} {plan : Plan} {at' : Instant} {db : Database}

/-- A GPU that is there is found. -/
theorem go_loadGpu_answering (env : Env) {gpuId : Int} {id : Integer} {gpu : GpuModel}
    (hid : Integer.ofInt? gpuId = some id) (hgpu : db.gpuModel? id = some gpu) :
    ∃ s', (loadGpu gpuId).go env (answering plan) (aloneOn db at', 0) = (.ok gpu, s')
      ∧ s'.1.world = (aloneOn db at').world := by
  have heval : (Statement.getGpuModel gpuId).eval env plan db = .ok (some gpu) := by
    rw [Statement.eval, bindInteger, hid]
    exact congrArg Except.ok hgpu
  have hexec : (Statement.getGpuModel gpuId).exec env (answering plan 0) (aloneOn db at')
      = (.ok (some gpu), aloneOn db at') := by
    rw [Statement.exec_calm rfl rfl]
    simp only [answering, aloneOn, heval]
  rw [loadGpu, Svc.go_bind, Svc.go_query, hexec]
  exact ⟨_, rfl, rfl⟩

theorem go_ofExcept {α : Type} {choices : Nat → Choice} (r : Except Exn α) (s : Machine × Nat) :
    (ofExcept r).go env choices s = (r, s) := by
  cases r <;> rfl

/-- `gpu_prices` without the cache builds its answer from what it selects. -/
theorem uncachedAt_prices {q : PricesQuery} {id : Integer} {gpu : GpuModel}
    (hid : Integer.ofInt? q.gpuId = some id) (hgpu : db.gpuModel? id = some gpu)
    {rows : List LatestRow} (hselected : pricesSelected env q at' db plan = .ok rows) :
    uncachedAt env plan at' db (.gpuPrices q)
      = (priceSummary env gpu.modelName.val (latestJson rows)).map
          fun summary => ⟨200, .summary summary, []⟩ := by
  obtain ⟨⟨m, n⟩, hload, hworld⟩ := go_loadGpu_answering env hid hgpu
  dsimp only at hworld
  have hrows := go_latestPrices_answering env plan q m n
  rw [hworld, ← selectPrices_eq] at hrows
  have hproduce : ∃ s', (producePrices q).go env (answering plan) (m, n)
      = (.ok (latestJson rows), s') := by
    rw [producePrices, Svc.go_bind]
    rcases hrun : (latestPrices q.gpuId q.windowDays q.availability 200).go env (answering plan)
      (m, n) with ⟨r, s'⟩
    rw [hrun] at hrows
    obtain rfl : r = .ok rows := hrows.trans hselected
    exact ⟨s', rfl⟩
  obtain ⟨s', hproduce⟩ := hproduce
  rw [uncachedAt, uncached, runSvc, Svc.go_bind, uncachedPrices, Svc.go_bind, hload]
  dsimp only
  rw [Svc.go_bind, hproduce]
  dsimp only
  rw [go_ofExcept]
  cases priceSummary env gpu.modelName.val (latestJson rows) <;> rfl

/-- `workload_index` without the cache builds its answer from what it ranks. -/
theorem uncachedAt_index {q : IndexQuery} {rows : List IndexRow}
    (hselected : indexSelected env q at' db plan = .ok rows) :
    uncachedAt env plan at' db (.workloadIndex q)
      = (indexPage env (indexJson rows)).map fun page => ⟨200, .index page, []⟩ := by
  have hrows := go_computeIndex_answering env plan q (aloneOn db at') 0
  have hproduce : ∃ s', (produceIndex q).go env (answering plan) (aloneOn db at', 0)
      = (.ok (indexJson rows), s') := by
    rw [produceIndex, Svc.go_bind]
    rcases hrun : (computeIndex q.workload q.precision 30 q.limit).go env (answering plan)
      (aloneOn db at', 0) with ⟨r, s'⟩
    rw [hrun] at hrows
    obtain rfl : r = .ok rows :=
      hrows.trans ((rankIndex_eq env plan at' db q).symm.trans hselected)
    exact ⟨s', rfl⟩
  obtain ⟨s', hproduce⟩ := hproduce
  rw [uncachedAt, uncached, runSvc, Svc.go_bind, uncachedIndex, Svc.go_bind, hproduce]
  dsimp only
  rw [go_ofExcept]
  cases indexPage env (indexJson rows) <;> rfl

end Uncached

/-! ## Answers -/

/-- The instant is at most `cache_ttl_seconds` ago. -/
structure Recent (env : Env) (now at' : Instant) : Prop where
  past : at' ≤ now
  within : now.us ≤ at'.us + seconds env.settings.cacheTtlSeconds

/-- The handler without the cache gives the answer at some recent instant. -/
def UncachedAnswer (env : Env) (w : World) (route : Route) (r : Except Exn Response) : Prop :=
  ∃ at' plan, Recent env w.now at' ∧ uncachedAt env plan at' w.db route = r

section Answers

variable {env : Env} {m m' : Machine}

theorem recent_now (now : Instant) : Recent env now now := ⟨le_rfl, Nat.le_add_right _ _⟩

/-- The rows of an entry that is seen were selected recently. -/
theorem CurrentRows.recent {κ ρ : Type} {now : Instant} {db : Database} {e : Entry Cached}
    {select : κ → Instant → Database → Plan → Except Exn (List ρ)} {json : List ρ → Json}
    {q : κ} {at' : Instant} {plan : Plan} {rows : List ρ} {redis : Redis} {key : String}
    (h : CurrentRows env now db e select json q at' plan rows)
    (he : redis.peek now.us key = some e) : Recent env now at' := by
  have hlive := (peek_eq_some.mp he).2
  have hdeadline := h.deadline
  exact ⟨h.past, by omega⟩

/-- How a cached route that answers has come by its rows: it selected them recently, and they were
    built into the answer as they are or as they are stored. -/
theorem CachedRoute.current {ρ β : Type} {key : String}
    {select : Instant → Database → Plan → Except Exn (List ρ)} {json : List ρ → Json}
    {build : Json → Except Exn β} {answer : β}
    (h : CachedRoute env key select json build m (.ok answer) m') (stored : List ρ → Json)
    (hstored : ∀ e, m.world.redis.peek m.world.now.us key = some e → ∃ at' plan rows,
      Recent env m.world.now at' ∧ select at' m.world.db plan = .ok rows
        ∧ loads env.fmt e.value.cell.show.toList = some (stored rows)
        ∧ build (stored rows) = build (json rows)) :
    ∃ at' plan rows, Recent env m.world.now at' ∧ select at' m.world.db plan = .ok rows
      ∧ build (json rows) = .ok answer := by
  obtain ⟨read, hread, hr⟩ := h
  cases hread with
  | hit entry decoded done =>
    obtain ⟨at', plan, rows, hrecent, hselected, hloads, hbuild⟩ := hstored _ entry
    rw [decoded] at hloads
    obtain rfl := Option.some.inj hloads
    exact ⟨at', plan, rows, hrecent, hselected, hbuild.symm.trans hr.symm⟩
  | raised miss produced => cases hr
  | fresh miss produced fill =>
    cases produced with
    | rows selected _ _ _ _ _ =>
      rw [miss.tables.now, miss.tables.db] at selected
      exact ⟨_, _, _, recent_now _, selected, hr.symm⟩

/-- **`workload_index`** on a current cache. -/
theorem indexRoute_current {q : IndexQuery} (hplain : q.Plain)
    (hcache : m.world.CacheHolds (CurrentEntry env m.world.now m.world.db))
    {page : Page IndexEntryOut}
    (h : CachedRoute env (indexKey q) (indexSelected env q) indexJson (indexPage env) m (.ok page)
      m') :
    ∃ at' plan rows, Recent env m.world.now at'
      ∧ indexSelected env q at' m.world.db plan = .ok rows
      ∧ indexPage env (indexJson rows) = .ok page := by
  refine h.current indexJson fun e he => ?_
  obtain ⟨q', at', plan, rows, hplain', hkey, hrows⟩ := (hcache _ e he).index (hasPrefix_indexKey q)
  have hselected : indexSelected env q at' m.world.db plan = .ok rows := by
    rw [hplain.selected_eq hplain' hkey]
    exact hrows.selected
  refine ⟨at', plan, rows, hrows.recent he, hselected, ?_, rfl⟩
  rw [hrows.text]
  exact loads_indexJson fun r hr => (ofFormat_indexSelected hselected r hr).2

/-- **`gpu_prices`** on a current cache, once the GPU is loaded. -/
theorem pricesRoute_current (hparse : ∀ i, env.parseDatetime (strDatetime (utc i)) = some (utc i))
    {q : PricesQuery} (hplain : q.Plain)
    (hcache : m.world.CacheHolds (CurrentEntry env m.world.now m.world.db)) {gpuModel : String}
    {summary : PriceSummaryOut}
    (h : CachedRoute env (pricesKey q) (pricesSelected env q) latestJson (priceSummary env gpuModel)
      m (.ok summary) m') :
    ∃ at' plan rows, Recent env m.world.now at'
      ∧ pricesSelected env q at' m.world.db plan = .ok rows
      ∧ priceSummary env gpuModel (latestJson rows) = .ok summary := by
  refine h.current storedLatest fun e he => ?_
  obtain ⟨q', at', plan, rows, hplain', hkey, hrows⟩ :=
    (hcache _ e he).prices (hasPrefix_pricesKey q)
  have hselected : pricesSelected env q at' m.world.db plan = .ok rows := by
    rw [hplain.selected_eq hplain' hkey]
    exact hrows.selected
  refine ⟨at', plan, rows, hrows.recent he, hselected, ?_, ?_⟩
  · rw [hrows.text]
    exact loads_latestJson (ofFormat_pricesSelected hselected)
  · have hstored :=
      priceSummary_dict strLeaf (fun i => datetimeField_strLeaf (hparse i)) gpuModel rows
    exact hstored.trans (priceSummary_latestJson gpuModel rows).symm

/-- The program of `gpu_prices` on a current cache. -/
theorem wp_gpuPrices_uncached (C : Choice → Prop)
    (hparse : ∀ i, env.parseDatetime (strDatetime (utc i)) = some (utc i)) {q : PricesQuery}
    (hplain : q.Plain)
    (hcache : m.world.CacheHolds (CurrentEntry env m.world.now m.world.db)) :
    Svc.wp env C (gpuPrices env q) (fun r _ => ∀ summary, r = .ok summary →
      UncachedAnswer env m.world (.gpuPrices q) (.ok ⟨200, .summary summary, []⟩)) m := by
  refine Svc.wp_mono (wp_gpuPrices q m) ?_
  rintro r m₂ ⟨loaded, m₁, hloaded, hread, hr⟩ summary rfl
  cases hloaded with
  | missing _ _ => exact absurd hr.1 nofun
  | failed => exact absurd hr.1 nofun
  | @found id gpu hid hgpu =>
    have hcache₁ : m₁.world.CacheHolds (CurrentEntry env m₁.world.now m₁.world.db) := by
      rw [hread.tables.now, hread.tables.db]
      exact hcache.of_sameRedis hread.redis hread.tables.now
    obtain ⟨at', plan, rows, hrecent, hselected, hbuild⟩ :=
      pricesRoute_current hparse hplain hcache₁ hr
    rw [hread.tables.now] at hrecent
    rw [hread.tables.db] at hselected
    refine ⟨at', plan, hrecent, ?_⟩
    rw [uncachedAt_prices hid hgpu hselected, hbuild]
    rfl

/-- The program of `workload_index` on a current cache. -/
theorem wp_workloadIndex_uncached (C : Choice → Prop) {q : IndexQuery} (hplain : q.Plain)
    (hcache : m.world.CacheHolds (CurrentEntry env m.world.now m.world.db)) :
    Svc.wp env C (workloadIndex env q) (fun r _ => ∀ page, r = .ok page →
      UncachedAnswer env m.world (.workloadIndex q) (.ok ⟨200, .index page, []⟩)) m := by
  refine Svc.wp_mono (wp_workloadIndex q m) ?_
  rintro r m₂ hr page rfl
  obtain ⟨at', plan, rows, hrecent, hselected, hbuild⟩ := indexRoute_current hplain hcache hr
  refine ⟨at', plan, hrecent, ?_⟩
  rw [uncachedAt_index hselected, hbuild]
  rfl

end Answers

/-! ## Runs -/

/-- **A request** on a current cache answers what the handler without the cache answers. -/
theorem World.Current.answer {env : Env} {w : World} (h : w.Current env)
    (hparse : ∀ i, env.parseDatetime (strDatetime (utc i)) = some (utc i)) {req : Request}
    (hplain : req.route.Plain) (hcached : req.route.Cached) (choices : Nat → Choice)
    {response : Response} (hresponse : (served env choices req w).1 = .ok response) :
    UncachedAnswer env w req.route (.ok response) := by
  have hserved := served_of_handle env req w choices (Q := fun m₁ r _ => r = .ok response →
    UncachedAnswer env m₁.world req.route (.ok response)) ?_
  · rw [hresponse] at hserved
    generalize (served env choices req w).2 = m' at hserved
    cases hserved with
    | admitted tables _ _ handled =>
      have hanswer := handled rfl
      rw [UncachedAnswer, tables.now, tables.db] at hanswer
      exact hanswer
  · intro m₁ htables hsame _
    have hcache : m₁.world.CacheHolds (CurrentEntry env m₁.world.now m₁.world.db) := by
      rw [htables.now, htables.db]
      exact h.of_sameCache (m := ⟨w, {}⟩) (currentEntry_counter w.now w.db) hsame htables.now
    cases hroute : req.route with
    | gpuPrices q =>
      rw [hroute] at hplain
      refine Svc.wp_seq (wp_gpuPrices_uncached _ hparse hplain hcache)
        (fun summary m₂ h hresponse => ?_) (fun _ _ _ h => nomatch h)
      exact Except.ok.inj hresponse ▸ h summary rfl
    | workloadIndex q =>
      rw [hroute] at hplain
      refine Svc.wp_seq (wp_workloadIndex_uncached _ hplain hcache)
        (fun page m₂ h hresponse => ?_) (fun _ _ _ h => nomatch h)
      exact Except.ok.inj hresponse ▸ h page rfl
    | listGpus q => rw [hroute] at hcached; exact hcached.elim
    | gpuPriceHistory q => rw [hroute] at hcached; exact hcached.elim
    | gpuBenchmarks q => rw [hroute] at hcached; exact hcached.elim
    | ingest payload => rw [hroute] at hcached; exact hcached.elim

/-- The items a request has ingested. -/
def Request.ingested (req : Request) (r : Except Exn Response) : List PricePointIn :=
  match req.route, r with
  | .ingest payload, .ok _ => payload
  | _, _ => []

/-- Plain requests one after the other on a healthy Redis, with any time between them, and the items
    they have ingested. -/
inductive Serial (env : Env) (w₀ : World) : List PricePointIn → World → Prop where
  | start : Serial env w₀ [] w₀
  | wait {items : List PricePointIn} {w : World} {later : Instant} (run : Serial env w₀ items w)
      (forward : w.now ≤ later) : Serial env w₀ items { w with now := later }
  | request {items : List PricePointIn} {w : World} {req : Request} {choices : Nat → Choice}
      (run : Serial env w₀ items w) (plain : req.route.Plain)
      (healthy : ∀ n, (choices n).Healthy) :
      Serial env w₀ (items ++ req.ingested (served env choices req w).1)
        (served env choices req w).2.world

/-- What a request has ingested was offered to the table. -/
theorem served_offered (env : Env) (w : World) (req : Request) (choices : Nat → Choice) :
    Offered env w.db (req.ingested (served env choices req w).1)
      (served env choices req w).2.world.db := by
  by_cases hingest : ∃ payload, req.route = .ingest payload
  · obtain ⟨payload, hroute⟩ := hingest
    obtain ⟨apiKey, route⟩ := req
    dsimp only at hroute
    subst hroute
    have hdb := runSvc_of_wp choices (C := fun _ => True) (fun _ => trivial)
      (wp_serve_ingest env apiKey payload (m := ⟨w, {}⟩) rfl)
    rcases hr : (served env choices ⟨apiKey, .ingest payload⟩ w).1 with e | a
    · rw [served] at hr
      rw [hr] at hdb
      rw [served, show _ = w.db from hdb]
      exact .of_no_known rfl
    · rw [served] at hr
      rw [hr] at hdb
      exact hdb
  · have htables := runSvc_of_wp choices (C := fun _ => True) (fun _ => trivial)
      (wp_serveRequest_sameTables env
        (fun payload hroute => hingest ⟨payload, hroute⟩) ⟨w, {}⟩)
    have hnone : req.ingested (served env choices req w).1 = [] := by
      unfold Request.ingested
      split
      · rename_i hroute _
        exact absurd ⟨_, hroute⟩ hingest
      · rfl
    rw [hnone, served, show _ = w.db from htables.db]
    exact .of_no_known rfl

/-- **Runs** keep the cache current, and offer what they ingest to the table. -/
theorem Serial.invariant {env : Env} {w₀ w : World} {items : List PricePointIn}
    (h : Serial env w₀ items w) (hempty : w₀.redis = ExpiringStore.empty) :
    w.Current env ∧ Offered env w₀.db items w.db := by
  induction h with
  | start =>
    constructor
    · intro key e he
      rw [hempty] at he
      cases he
    · exact .of_no_known rfl
  | wait _ forward ih => exact ⟨ih.1.wait forward, ih.2⟩
  | request _ plain healthy ih =>
    exact ⟨ih.1.serve plain healthy, ih.2.append (served_offered env _ _ _)⟩

/-- **The cache does not show**: after any run of requests that do not overlap, the price table is
    what the ingests have made of it, and a read that answers answers what the handler without the
    cache answers on that table at some instant of the last `cache_ttl_seconds`. -/
theorem sequential_transparency (env : Env) (w₀ w : World) (items : List PricePointIn)
    (hempty : w₀.redis = ExpiringStore.empty)
    (hparse : ∀ i, env.parseDatetime (strDatetime (utc i)) = some (utc i))
    (hrun : Serial env w₀ items w) (req : Request) (hplain : req.route.Plain)
    (hcached : req.route.Cached) (choices : Nat → Choice) :
    Offered env w₀.db items w.db
      ∧ ((serve env choices req w).1.status = 200 →
        UncachedAnswer env w req.route (.ok (serve env choices req w).1)) := by
  obtain ⟨hcurrent, hoffered⟩ := hrun.invariant hempty
  refine ⟨hoffered, fun hstatus => ?_⟩
  rcases hresponse : (served env choices req w).1 with e | response
  · have herror := served_error_status hresponse
    rw [serve, hresponse] at hstatus
    have hok : (respond (.error e)).status = 200 := hstatus
    omega
  · rw [serve, hresponse]
    exact hcurrent.answer hparse hplain hcached choices hresponse

/-- An ingest of one observation. -/
def ingestOne : Request :=
  ⟨some "local-dev-key", .ingest [itemOf "H100 SXM" (5 / 2) h100_length fiveHalves_range]⟩

/-- A read of the prices of GPU 1. -/
def readOne : Request := ⟨some "local-dev-key", .gpuPrices (pricesOfOne none)⟩

/-- The world an ingest leaves, ten seconds later. -/
def afterIngest : World :=
  { (served env (fun _ => .calm) ingestOne (worldOf (catalogue ⟨1, one_range⟩))).2.world with
    now := ⟨newYear.us + 10000000, by decide⟩ }

/-- The world a read of it leaves, half a minute later. -/
def afterRead : World :=
  { (served env (fun _ => .calm) readOne afterIngest).2.world with
    now := ⟨newYear.us + 40000000, by decide⟩ }

theorem readOne_status : (serve env (fun _ => .calm) readOne afterRead).1.status = 200 := by
  decide +kernel

/-- The second read is answered from the cache. -/
theorem readOne_hit : (serve env (fun _ => .calm) readOne afterRead).2.stats = ⟨1, 1, 0⟩ := by
  decide +kernel

theorem sequential_transparency_again :
    (serve env (fun _ => .calm) readOne afterRead).2.stats = ⟨1, 1, 0⟩
    ∧ ∃ items, Offered env (catalogue ⟨1, by decide⟩) items afterRead.db
      ∧ UncachedAnswer env afterRead readOne.route
          (.ok (serve env (fun _ => .calm) readOne afterRead).1) := by
  have hingested : Serial env (worldOf (catalogue ⟨1, by decide⟩)) _ afterIngest :=
    .wait (.request .start trivial fun _ => rfl)
      (by rw [served_now]; exact Instant.le_iff.mpr (Nat.le_add_right _ _))
  have hrun : Serial env (worldOf (catalogue ⟨1, by decide⟩)) _ afterRead :=
    .wait (.request hingested (fun _ h => nomatch h) fun _ => rfl)
      (by rw [served_now]; exact Instant.le_iff.mpr (by decide))
  have htransparent := sequential_transparency env _ _ _ rfl
    (sound_worldOf (catalogue ⟨1, by decide⟩)).parse hrun readOne (fun _ h => nomatch h) trivial
    (fun _ => .calm)
  exact ⟨readOne_hit, _, htransparent.1, htransparent.2 readOne_status⟩

end GpuIndex
