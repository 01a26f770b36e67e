/-
  A cache that requests share, whatever fails.

  No entry is stored but by a request that has asked for the time, read the tables and then stored
  the text of its rows (`Filled`).  Every call of every request keeps the cache so (`Steady`), and
  relies on the others for no more; whether Redis refuses commands, loses answers or drops entries,
  and whether statements fail, does not matter.  So a cached read answers with the rows of one
  selection, its own or that of a request with the same key (`complies_cachedRoute`).
-/
import GpuIndex.Api.Answers
import GpuIndex.Api.ConcurrentRequests
import GpuIndex.Api.HandlerCalls
import GpuIndex.Core.Comply

namespace GpuIndex

open Calendar ExpiringStore
open JsonText (loads)

/-! ## Selections -/

/-- A query whose rows are cached: under which prefix and key, what it selects, and what is
    stored. -/
structure CachedQuery (κ ρ : Type) where
  under : String
  key : κ → String
  select : Env → κ → Instant → Database → Plan → Except Exn (List ρ)
  json : List ρ → Json

/-- The query of `gpu_prices`. -/
def pricesQuery : CachedQuery PricesQuery LatestRow :=
  ⟨"prices:", pricesKey, pricesSelected, latestJson⟩

/-- The query of `workload_index`. -/
def indexQuery : CachedQuery IndexQuery IndexRow := ⟨"index:", indexKey, indexSelected, indexJson⟩

/-- One execution of a query: for which request, in which world the clock was read, and in which the
    tables were. -/
structure Selection (ι κ : Type) where
  thread : ι
  query : κ
  asked : World
  read : World
  plan : Plan

section Shared

variable {ι κ ρ : Type}

/-- The execution yields the rows, in worlds that its request has lived in. -/
structure Selection.Yields (x : Selection ι κ) (cq : CachedQuery κ ρ) (env : ι → Env)
    (life : ι → World → Prop) (rows : List ρ) : Prop where
  asked : life x.thread x.asked
  read : life x.thread x.read
  inOrder : x.asked.now.us ≤ x.read.now.us
  selected : cq.select (env x.thread) x.query x.asked.now x.read.db x.plan = .ok rows

/-- The entry was stored by the request of the execution, with the text of its rows. -/
structure Selection.Fills (x : Selection ι κ) (cq : CachedQuery κ ρ) (env : ι → Env)
    (life : ι → World → Prop) (rows : List ρ) (stored : World) (key : String) (e : Entry Cached) :
    Prop where
  yields : x.Yields cq env life rows
  lived : life x.thread stored
  inOrder : x.read.now.us ≤ stored.now.us
  key : key = cq.key x.query
  value : e.value = ⟨.text (dumpsText (env x.thread) (cq.json rows)), some x.read.db⟩
  deadline : e.deadline = stored.now.us + seconds (env x.thread).settings.cacheTtlSeconds

/-- Every entry that is seen under the prefix of the query was stored by a request. -/
def CachedQuery.Filled (cq : CachedQuery κ ρ) (env : ι → Env)
    (life : ι → World → Prop) (w : World) : Prop :=
  ∀ key e, w.redis.peek w.now.us key = some e → hasPrefix cq.under key = true →
    ∃ (x : Selection ι κ) (rows : List ρ) (stored : World), x.Fills cq env life rows stored key e

/-- **The invariant** of the cache. -/
structure FilledCache (env : ι → Env) (life : ι → World → Prop) (w : World) : Prop where
  prices : pricesQuery.Filled env life w
  index : indexQuery.Filled env life w

/-- Nothing is cached. -/
def World.Cold (w : World) : Prop :=
  ∀ keyPrefix ∈ cachePrefixes, ∀ key, hasPrefix keyPrefix key = true →
    w.redis.peek w.now.us key = none

/-- A cold cache is filled by requests. -/
theorem World.Cold.filled {env : ι → Env} {life : ι → World → Prop} {w : World} (h : w.Cold) :
    FilledCache env life w where
  prices := fun key e he hunder => by
    rw [h _ List.mem_cons_self key hunder] at he
    cases he
  index := fun key e he hunder => by
    rw [h _ (List.mem_cons_of_mem _ List.mem_cons_self) key hunder] at he
    cases he

/-- Time goes on, the table grows, and the cache stays filled by requests. -/
structure Steady (env : ι → Env) (life : ι → World → Prop) (w w' : World) : Prop where
  later : w.now.us ≤ w'.now.us
  grows : w.db.Grows w'.db
  cache : FilledCache env life w → FilledCache env life w'

theorem Steady.refl (env : ι → Env) (life : ι → World → Prop) (w : World) : Steady env life w w :=
  ⟨le_rfl, .refl _, id⟩

variable {env : ι → Env} {life : ι → World → Prop} {i : ι}

theorem Steady.trans {a b c : World} (h : Steady env life a b) (h' : Steady env life b c) :
    Steady env life a c :=
  ⟨h.later.trans h'.later, h.grows.trans h'.grows, h'.cache ∘ h.cache⟩

/-! ## Calls -/

/-- Entries that are seen under the prefix were seen before. -/
theorem CachedQuery.Filled.of_entries {cq : CachedQuery κ ρ} {w w' : World}
    (h : cq.Filled env life w)
    (hentries : ∀ key e, hasPrefix cq.under key = true → w'.redis.peek w'.now.us key = some e →
      w.redis.peek w.now.us key = some e) : cq.Filled env life w' :=
  fun key e he hunder => h key e (hentries key e hunder he) hunder

theorem FilledCache.of_entries {w w' : World} (h : FilledCache env life w)
    (hentries : ∀ keyPrefix ∈ cachePrefixes, ∀ key e, hasPrefix keyPrefix key = true →
      w'.redis.peek w'.now.us key = some e → w.redis.peek w.now.us key = some e) :
    FilledCache env life w' where
  prices := h.prices.of_entries (hentries _ List.mem_cons_self)
  index := h.index.of_entries (hentries _ (List.mem_cons_of_mem _ List.mem_cons_self))

/-- The call stores no entry of the cache. -/
def StoresNothing (op : Op) : Prop :=
    OwnCounter op ∧ ∀ key value ex, op ≠ .redis (.set key value ex)

/-- What such a call leaves under a prefix of the cache was there. -/
theorem exec_entries {e' : Env} {c : Choice} {op : Op} {m : Machine} (hop : StoresNothing op)
    {keyPrefix : String} (hcache : keyPrefix ∈ cachePrefixes) {now : Nat} {key : String}
    {e : Entry Cached} (hunder : hasPrefix keyPrefix key = true)
    (he : (exec e' c op m).2.world.redis.peek now key = some e) :
    m.world.redis.peek now key = some e := by
  obtain ⟨hcounter, hset⟩ := hop
  cases op with
  | time => exact he
  | now => exact he
  | bump stat => exact he
  | db stmt => rwa [exec_sameRedis ⟨stmt, rfl⟩] at he
  | redis cmd =>
    cases cmd with
    | get key' =>
      have hsame : (exec e' c (.redis (.get key')) m).2.world.redis = m.world.redis :=
        exec_get_redis c key' m
      rwa [hsame] at he
    | set key' value ex => exact absurd rfl (hset key' value ex)
    | incrExpire key' ex =>
      have hlimiter : LimiterCall (.redis (.incrExpire key' ex)) :=
        .inr ⟨key', ex, hcounter key' ex rfl, rfl⟩
      have hsame : m.SameCache (exec e' c (.redis (.incrExpire key' ex)) m).2 :=
        exec_sameCache hlimiter m
      have hkey : hasPrefix "rl:" key = false := by
        by_contra hrl
        rw [not_cache_of_limiter hcache (Bool.of_not_eq_false hrl)] at hunder
        cases hunder
      rwa [hsame.peek now key hkey] at he
    | scan cursor keyPrefix' => exact exec_shrinks (.inl ⟨cursor, keyPrefix', rfl⟩) m now key e he
    | delete key' => exact exec_shrinks (.inr (.inl ⟨key', rfl⟩)) m now key e he

theorem steady_exec {e' : Env} {c : Choice} {op : Op} {m : Machine} (hop : StoresNothing op) :
    Steady env life m.world (exec e' c op m).2.world := by
  obtain ⟨hgrows, hnow⟩ := exec_grows e' c op m
  refine ⟨by rw [hnow], hgrows, fun h => h.of_entries fun keyPrefix hcache key e hunder he => ?_⟩
  rw [hnow] at he
  exact exec_entries hop hcache hunder he

theorem storesNothing_bump (stat : Stat) : StoresNothing (.bump stat) :=
  ⟨ownCounter_of_ne nofun, nofun⟩

theorem FilledCache.bump {m : Machine} (h : FilledCache env life m.world) (e' : Env) (c : Choice)
    (stat : Stat) : FilledCache env life (exec e' c (.bump stat) m).2.world :=
  (steady_exec (storesNothing_bump stat)).cache h

/-- A key under one prefix of the cache is not under the other. -/
theorem not_hasPrefix_of_head {p p' key : String} {c c' : Char} (hp : hasPrefix p key = true)
    (hc : p.toList.head? = some c) (hc' : p'.toList.head? = some c') (hne : c ≠ c') :
    hasPrefix p' key = false := by
  by_contra h
  have hhead := hasPrefix_head hp hc
  rw [hasPrefix_head (Bool.of_not_eq_false h) hc'] at hhead
  exact hne (Option.some.inj hhead).symm

/-- The world when a text from the database `source` has been stored. -/
def World.store (w : World) (key text : String) (source : Option Database) (ex : Int) : World :=
  { w with redis := w.redis.put w.now.us key ⟨.text text, source⟩ (w.now.us + seconds ex) }

/-- A text that is stored under the key of the execution fills the cache. -/
theorem CachedQuery.Filled.store {cq : CachedQuery κ ρ} {w : World} (h : cq.Filled env life w)
    {x : Selection ι κ} {rows : List ρ} (hx : x.Yields cq env life rows) (hlife : life x.thread w)
    (hread : x.read.now.us ≤ w.now.us) :
    cq.Filled env life (w.store (cq.key x.query) (dumpsText (env x.thread) (cq.json rows))
      (some x.read.db) (env x.thread).settings.cacheTtlSeconds) := by
  intro key e he hunder
  by_cases hkey : key = cq.key x.query
  · subst hkey
    obtain ⟨hvalue, hdeadline, -⟩ := peek_put_self _ he
    exact ⟨x, rows, w, hx, hlife, hread, rfl, hvalue, hdeadline⟩
  · exact h key e (by rwa [World.store, peek_put_ne _ _ _ _ hkey] at he) hunder

/-- What is stored elsewhere does not matter to the entries under the prefix. -/
theorem CachedQuery.Filled.store_other {cq : CachedQuery κ ρ} {w : World}
    (h : cq.Filled env life w) {key text : String} {source : Option Database} {ex : Int}
    (hkey : hasPrefix cq.under key = false) : cq.Filled env life (w.store key text source ex) :=
  h.of_entries fun key' e hunder he => by
    have hne : key' ≠ key := by
      rintro rfl
      rw [hkey] at hunder
      cases hunder
    rwa [World.store, peek_put_ne _ _ _ _ hne] at he

/-! ## Programs -/

/-- A request is answered while it lives. -/
def Alive (life : ι → World → Prop) (i : ι) : Answering := fun _ _ m => life i m.world

/-- What every call promises. -/
def KeepsSteady (env : ι → Env) (life : ι → World → Prop) (m m' : Machine) : Prop :=
  Steady env life m.world m'.world

/-- Every call of the request keeps the cache filled by requests, and the request ends as `Q`
    says. -/
abbrev Svc.sharing {α : Type} (env : ι → Env) (life : ι → World → Prop) (i : ι) (p : Svc α)
    (Q : Except Exn α → Machine → Prop) (m : Machine) : Prop :=
  Svc.complies (env i) (Alive life i) (Steady env life) (KeepsSteady env life) p Q m

/-- What the calls of one request promise is what the others rely on. -/
theorem compatible_steady (env : ι → Env) (life : ι → World → Prop) :
    Pool.Compatible (ι := ι) (σ := World) (τ := Session) (fun _ => Steady env life)
      (fun _ x y => KeepsSteady env life ⟨x.1, x.2⟩ ⟨y.1, y.2⟩) where
  refl _ w := .refl env life w
  trans _ _ _ _ := Steady.trans
  promise _ _ _ _ _ h := h

variable {α β : Type} {m : Machine}

/-- A program that stores nothing, with what its calls and the others keep. -/
theorem sharing_of_only {P : Machine → Prop} {B : Op → Prop} {p : Svc α}
    (hB : ∀ op, B op → StoresNothing op) (hmoved : ∀ m w, P m → P (Machine.inWorld m w))
    (hcall : ∀ c op m, B op → P m → P (exec (env i) c op m).2) (hp : p.Only B)
    (hcache : FilledCache env life m.world) (hm : P m) :
    Svc.sharing env life i p (fun _ m' => FilledCache env life m'.world ∧ P m') m :=
  Svc.complies_of_only (P := fun m => FilledCache env life m.world ∧ P m)
    (fun m w h hR => ⟨hR.cache h.1, hmoved m w h.2⟩)
    (fun c op m _ hop h => ⟨steady_exec (hB op hop), (steady_exec (hB op hop)).cache h.1,
      hcall c op m hop h.2⟩) hp ⟨hcache, hm⟩

/-- A program that stores nothing leaves the cache filled by requests. -/
theorem sharing_filled {p : Svc α} (hp : p.Only StoresNothing)
    (hcache : FilledCache env life m.world) :
    Svc.sharing env life i p (fun _ m' => FilledCache env life m'.world) m :=
  Svc.complies_mono (sharing_of_only (P := fun _ => True) (fun _ h => h) (fun _ _ _ => trivial)
    (fun _ _ _ _ _ => trivial) hp hcache trivial) fun _ _ h => h.1

/-- Exceptions of the request's own: an HTTP error, a statement that failed, a window that begins
    too early, a limiter without a window. -/
def Exn.Own : Exn → Prop
  | .http _ _ _ => True
  | .db _ => True
  | .overflowError => True
  | .zeroDivisionError => True
  | _ => False

/-! ## Producers -/

/-- How the producer of a request can end. -/
inductive ProducedBy (cq : CachedQuery κ ρ) (env : ι → Env) (life : ι → World → Prop)
    (i : ι) (q : κ) : Except Exn Json → Machine → Prop where
  | rows {x : Selection ι κ} {rows : List ρ} {m : Machine} (yields : x.Yields cq env life rows)
      (thread : x.thread = i) (query : x.query = q) (inOrder : x.read.now.us ≤ m.world.now.us)
      (source : m.session.source = some x.read.db) :
      ProducedBy cq env life i q (.ok (cq.json rows)) m
  | raised {e : Exn} {m : Machine} (own : e.Own) : ProducedBy cq env life i q (.error e) m

/-- A program that takes the time, and selects and dresses rows. -/
theorem sharing_window {cq : CachedQuery κ ρ} {q : κ} {days : Int} (stmt : Instant → Statement)
    (dress : ∀ since, (stmt since).Result → Json)
    (hread : ∀ since (m : Machine), (stmt since).effect (env i) m = .ok m.readRows)
    (hselect : ∀ now since db plan r, minusDays ((env i).clock now) days = .ok since →
      (stmt since).eval (env i) plan db = .ok r →
      ∃ rows, cq.select (env i) q now db plan = .ok rows ∧ dress since r = cq.json rows)
    (hcache : FilledCache env life m.world) :
    Svc.sharing env life i (do
        let now ← call .now
        let since ← ofExcept (minusDays now days)
        let r ← query (stmt since)
        return dress since r)
      (fun r m' => FilledCache env life m'.world ∧ ProducedBy cq env life i q r m') m := by
  have hquiet (stmt : Statement) : StoresNothing (.db stmt) := ⟨ownCounter_of_ne nofun, nofun⟩
  refine Svc.complies_call.mpr fun asked hR c hasked =>
    ⟨steady_exec ⟨ownCounter_of_ne nofun, nofun⟩, ?_⟩
  have hcache₁ : FilledCache env life asked := hR.cache hcache
  show Svc.sharing env life i (ofExcept (minusDays ((env i).clock asked.now) days) >>= _) _ _
  cases hsince : minusDays ((env i).clock asked.now) days with
  | error e =>
    obtain rfl := minusDays_overflow hsince
    exact fun w hR => ⟨hR.cache hcache₁, .raised trivial⟩
  | ok since =>
    refine Svc.complies_query fun read hR₁ c₁ hlived => ⟨steady_exec (hquiet _), ?_⟩
    have hcache₂ : FilledCache env life read := hR₁.cache hcache₁
    -- a statement that fails changes nothing; one that is answered has read the tables
    split
    · rename_i r m' hexec
      obtain ⟨-, heval, heffect⟩ := Statement.exec_ok hexec
      rw [hread] at heffect
      obtain rfl := Except.ok.inj heffect
      obtain ⟨rows, hselected, hdress⟩ := hselect asked.now since read.db c₁.plan r hsince heval
      rw [hdress]
      refine fun w hR₂ => ⟨hR₂.cache hcache₂, ?_⟩
      exact .rows (x := ⟨i, q, asked, read, c₁.plan⟩) ⟨hasked, hlived, hR₁.later, hselected⟩ rfl rfl
        hR₂.later rfl
    · rename_i e m' hexec
      rw [Statement.exec_error hexec]
      exact fun w hR₂ => ⟨hR₂.cache hcache₂, .raised trivial⟩

theorem sharing_producePrices (q : PricesQuery) (hcache : FilledCache env life m.world) :
    Svc.sharing env life i (producePrices q) (fun r m' => FilledCache env life m'.world
      ∧ ProducedBy pricesQuery env life i q r m') m := by
  simp only [producePrices, latestPrices, bind_assoc]
  refine sharing_window (fun since => .latestPrices q.gpuId since (truthy q.availability) 200)
    (fun _ rows => latestJson rows) (fun _ _ => rfl) (fun now since db plan rows hsince heval => ?_)
    hcache
  refine ⟨rows, ?_, rfl⟩
  show selectPrices (env i) plan now db q = .ok rows
  rw [selectPrices_eq, hsince]
  exact congrArg raised heval

theorem sharing_produceIndex (q : IndexQuery) (hcache : FilledCache env life m.world) :
    Svc.sharing env life i (produceIndex q) (fun r m' => FilledCache env life m'.world
      ∧ ProducedBy indexQuery env life i q r m') m := by
  simp only [produceIndex, computeIndex, bind_assoc]
  refine sharing_window (fun since => .index q.workload q.precision since q.limit)
    (fun _ rows => indexJson rows) (fun _ _ => rfl)
    (fun now since db plan rows hsince heval => ?_) hcache
  refine ⟨rows, ?_, rfl⟩
  show rankIndex (env i) plan now db q = .ok rows
  rw [rankIndex_eq, hsince]
  exact congrArg raised heval

/-! ## Reads through the cache -/

/-- What a query stores under its key keeps the invariant. -/
def CachedQuery.Stores (cq : CachedQuery κ ρ) (env : ι → Env) (life : ι → World → Prop) : Prop :=
  ∀ (w : World) (x : Selection ι κ) (rows : List ρ),
    FilledCache env life w → x.Yields cq env life rows →
    life x.thread w → x.read.now.us ≤ w.now.us →
    FilledCache env life (w.store (cq.key x.query) (dumpsText (env x.thread) (cq.json rows))
      (some x.read.db) (env x.thread).settings.cacheTtlSeconds)

theorem stores_pricesQuery : pricesQuery.Stores env life := fun w x rows h hx hlife hread =>
  ⟨h.prices.store hx hlife hread, h.index.store_other
    (not_hasPrefix_of_head (hasPrefix_pricesKey x.query) (rfl : _ = some 'p') (rfl : _ = some 'i')
      (by decide))⟩

theorem stores_indexQuery : indexQuery.Stores env life := fun w x rows h hx hlife hread =>
  ⟨h.prices.store_other
    (not_hasPrefix_of_head (hasPrefix_indexKey x.query) (rfl : _ = some 'i') (rfl : _ = some 'p')
      (by decide)),
    h.index.store hx hlife hread⟩

/-- The entry of the key was seen, and was stored by the request of the execution. -/
structure Found (cq : CachedQuery κ ρ) (env : ι → Env) (life : ι → World → Prop) (i : ι) (q : κ)
    (x : Selection ι κ) (rows : List ρ) (stored seen : World) (value : Json)
    (source : Option Database) : Prop where
  yields : x.Yields cq env life rows
  key : cq.key x.query = cq.key q
  lived : life x.thread stored
  inOrder : x.read.now.us ≤ stored.now.us
  looked : life i seen
  fresh : seen.now.us < stored.now.us + seconds (env x.thread).settings.cacheTtlSeconds
  decoded : loads (env i).fmt (dumpsText (env x.thread) (cq.json rows)).toList = some value
  source : source = some x.read.db

/-- How a read through the cache can end. -/
inductive ReadBy (cq : CachedQuery κ ρ) (env : ι → Env) (life : ι → World → Prop) (i : ι) (q : κ) :
    Except Exn (Json × Bool) → Machine → Prop where
  | found {x : Selection ι κ} {rows : List ρ} {stored seen : World} {value : Json} {m : Machine}
      (found : Found cq env life i q x rows stored seen value m.session.source) :
      ReadBy cq env life i q (.ok (value, true)) m
  | produced {x : Selection ι κ} {rows : List ρ} {m : Machine} (yields : x.Yields cq env life rows)
      (thread : x.thread = i) (query : x.query = q) (source : m.session.source = some x.read.db) :
      ReadBy cq env life i q (.ok (cq.json rows, false)) m
  | raised {e : Exn} {m : Machine} (own : e.Own) : ReadBy cq env life i q (.error e) m

/-- **The lookup**: a value that was found was stored by a request. -/
theorem sharing_lookupCached {cq : CachedQuery κ ρ} {q : κ}
    (hunder : hasPrefix cq.under (cq.key q) = true)
    (hfilled : ∀ w, FilledCache env life w → cq.Filled env life w)
    (hcache : FilledCache env life m.world) :
    Svc.sharing env life i (lookupCached (env i) (cq.key q))
    (fun r m' => FilledCache env life m'.world
      ∧ ∀ value, r = .ok (some value) → ∃ x rows stored seen,
          Found cq env life i q x rows stored seen value m'.session.source) m := by
  have hget : StoresNothing (.redis (.get (cq.key q))) := ⟨ownCounter_of_ne nofun, nofun⟩
  refine Svc.complies_redis fun seen hR c hlooked => ⟨steady_exec hget, ?_⟩
  have hseen : FilledCache env life seen := hR.cache hcache
  have hsteady :
      Steady env life seen (exec (env i) c (.redis (.get (cq.key q))) (m.inWorld seen)).2.world :=
    steady_exec (m := m.inWorld seen) hget
  simp only [exec, perform, Machine.record_world] at hsteady
  split
  · rename_i r m₁ hexec
    rcases exec_get_ok hexec with ⟨rfl, rfl⟩ | ⟨e, he, rfl, rfl⟩
    · exact fun w hR₁ => ⟨hR₁.cache hseen, fun _ h => by cases h⟩
    · obtain ⟨x, rows, stored, hx⟩ := hfilled seen hseen _ e he hunder
      have hfresh : seen.now.us < e.deadline := (peek_eq_some.mp he).2
      have hcell : e.value.cell.show = dumpsText (env x.thread) (cq.json rows) := by
        rw [hx.value]
        rfl
      dsimp only
      refine Svc.complies_call.mpr fun w hR₁ c₁ _ => ⟨steady_exec (storesNothing_bump _), ?_⟩
      have hw : FilledCache env life w := hR₁.cache hseen
      rw [hcell]
      cases hloads : loads (env i).fmt (dumpsText (env x.thread) (cq.json rows)).toList with
      | none => exact fun w' hR₂ => ⟨hR₂.cache (FilledCache.bump hw ..), fun _ h => by cases h⟩
      | some value =>
        refine fun w' hR₂ => ⟨hR₂.cache (FilledCache.bump hw ..), fun value' h => ?_⟩
        cases h
        refine ⟨x, rows, stored, seen, hx.yields, hx.key.symm, hx.lived, hx.inOrder, hlooked,
          ?_, hloads, ?_⟩
        · rwa [← hx.deadline]
        · show e.value.source = _
          rw [hx.value]
  · rename_i e m₁ hexec
    rw [hexec] at hsteady
    exact fun w hR₁ => ⟨hR₁.cache (hsteady.cache hseen), fun _ h => by cases h⟩

/-- The first `try`: whatever is raised counts as a miss. -/
theorem sharing_tryLookup {cq : CachedQuery κ ρ} {q : κ}
    (hunder : hasPrefix cq.under (cq.key q) = true)
    (hfilled : ∀ w, FilledCache env life w → cq.Filled env life w)
    (hcache : FilledCache env life m.world) :
    Svc.sharing env life i (tryCatch (lookupCached (env i) (cq.key q)) fun _ => do
        call (.bump .errors)
        return none)
      (fun r m' => (∃ a, r = .ok a) ∧ FilledCache env life m'.world
        ∧ ∀ value, r = .ok (some value) → ∃ x rows stored seen,
          Found cq env life i q x rows stored seen value m'.session.source) m := by
  refine Svc.complies_try (sharing_lookupCached hunder hfilled hcache) (fun a m' h => ⟨⟨a, rfl⟩, h⟩)
    fun e m' h => ?_
  have hm' : FilledCache env life m'.world := (h m'.world (.refl ..)).1
  refine Svc.complies_call.mpr fun w hR c _ =>
    ⟨steady_exec (storesNothing_bump _), fun w' hR' => ?_⟩
  exact ⟨⟨none, rfl⟩, hR'.cache (FilledCache.bump (hR.cache hm') ..), fun _ h => nomatch h⟩

/-- The second `try`: what is stored is the text of the rows in hand. -/
theorem sharing_fill {cq : CachedQuery κ ρ} (hstores : cq.Stores env life) {x : Selection ι κ}
    {rows : List ρ} (hx : x.Yields cq env life rows) (hthread : x.thread = i)
    (hread : x.read.now.us ≤ m.world.now.us) (hsource : m.session.source = some x.read.db)
    (hcache : FilledCache env life m.world) :
    Svc.sharing env life i
      (tryCatch (redis (.set (cq.key x.query) (dumpsText (env i) (cq.json rows))
        (env i).settings.cacheTtlSeconds)) fun _ => call (.bump .errors))
      (fun r m' => (∃ a, r = .ok a) ∧ m'.session.source = some x.read.db) m := by
  subst hthread
  -- stored or not, the cache is filled by requests and the rows in hand stay
  have hset : Svc.sharing env life x.thread (redis (.set (cq.key x.query)
      (dumpsText (env x.thread) (cq.json rows)) (env x.thread).settings.cacheTtlSeconds))
      (fun _ m' => m'.session.source = some x.read.db) m := by
    rw [← bind_pure (redis _)]
    refine Svc.complies_redis fun w hR c hlived => ⟨?_, ?_⟩
    · have hw : FilledCache env life w := hR.cache hcache
      obtain ⟨hgrows, hnow⟩ := exec_grows (env x.thread) c (.redis (.set (cq.key x.query)
        (dumpsText (env x.thread) (cq.json rows)) (env x.thread).settings.cacheTtlSeconds))
        (m.inWorld w)
      refine ⟨by rw [hnow], hgrows, fun _ => ?_⟩
      rcases exec_set_redis (env x.thread) c (cq.key x.query)
        (dumpsText (env x.thread) (cq.json rows)) (env x.thread).settings.cacheTtlSeconds
        (m.inWorld w) with hredis | ⟨-, hredis⟩
      · refine hw.of_entries fun keyPrefix _ key e _ he => ?_
        rwa [hredis, hnow] at he
      · refine (hstores w x rows hw hx hlived (hread.trans hR.later)).of_entries
          fun keyPrefix _ key e _ he => ?_
        rw [hredis, hnow] at he
        show (w.redis.put _ _ ⟨.text _, some x.read.db⟩ _).peek _ _ = _
        rwa [← hsource]
    · have hkept := exec_set_source (env x.thread) c (cq.key x.query)
        (dumpsText (env x.thread) (cq.json rows))
        (env x.thread).settings.cacheTtlSeconds (m.inWorld w)
      simp only [exec, perform, Machine.record_source] at hkept
      split
      · rename_i r m₁ hexec
        rw [hexec] at hkept
        exact fun w' _ => hkept.trans hsource
      · rename_i e m₁ hexec
        rw [hexec] at hkept
        exact fun w' _ => hkept.trans hsource
  refine Svc.complies_try hset (fun a m' h => ⟨⟨a, rfl⟩, h⟩) fun e m' h => ?_
  rw [← bind_pure (call _)]
  exact Svc.complies_call.mpr fun w hR c _ => ⟨steady_exec (storesNothing_bump _), fun w' _ =>
    ⟨⟨_, rfl⟩, h m'.world (.refl ..)⟩⟩

/-- **A read through the cache**, whatever Redis does: the value was stored by a request, or the
    producer has made it. -/
theorem sharing_readThrough {cq : CachedQuery κ ρ} {q : κ} (hstores : cq.Stores env life)
    (hunder : hasPrefix cq.under (cq.key q) = true)
    (hfilled : ∀ w, FilledCache env life w → cq.Filled env life w) {producer : Svc Json}
    (hproducer : ∀ m : Machine, FilledCache env life m.world → Svc.sharing env life i producer
      (fun r m' => FilledCache env life m'.world ∧ ProducedBy cq env life i q r m') m)
    (hcache : FilledCache env life m.world) :
    Svc.sharing env life i (readThrough (env i) (cq.key q) producer none)
    (ReadBy cq env life i q) m := by
  unfold readThrough
  refine Svc.complies_seq (sharing_tryLookup hunder hfilled hcache)
    (fun cached m₁ h => ?_) fun e m₁ h => ?_
  · obtain ⟨-, hcache₁, hcached⟩ := h m₁.world (.refl ..)
    cases cached with
    | some value =>
      obtain ⟨x, rows, stored, seen, hfound⟩ := hcached value rfl
      exact fun w _ => .found hfound
    | none =>
      refine Svc.complies_call.mpr fun w hR c _ => ⟨steady_exec (storesNothing_bump _), ?_⟩
      refine Svc.complies_seq (hproducer _ (FilledCache.bump (hR.cache hcache₁) ..))
        (fun value m₂ h => ?_) fun e m₂ h => ?_
      · obtain ⟨hcache₂, hproduced⟩ := h m₂.world (.refl ..)
        cases hproduced with
        | rows yields thread query inOrder source =>
          subst query
          refine Svc.complies_seq (sharing_fill hstores yields thread inOrder source hcache₂)
            (fun _ m₃ h => ?_) fun e m₃ h => ?_
          · exact fun w hR => .produced yields thread rfl (h m₃.world (.refl ..)).2
          · obtain ⟨⟨_, h⟩, -⟩ := h
            cases h
      · cases h.2 with
        | raised own => exact .raised own
  · obtain ⟨⟨_, h⟩, -⟩ := h
    cases h

/-! ## Routes -/

/-- The rows a request answers with: selected by itself, or stored in its lifetime plus the time to
    live by a request with the same key. -/
structure Selection.Answers (x : Selection ι κ) (cq : CachedQuery κ ρ) (env : ι → Env)
    (life : ι → World → Prop) (i : ι) (q : κ) (rows : List ρ)
    (source : Option Database) : Prop where
  yields : x.Yields cq env life rows
  key : cq.key x.query = cq.key q
  source : source = some x.read.db
  recent : x.thread = i ∨ ∃ stored seen, life x.thread stored ∧ life i seen
    ∧ x.read.now.us ≤ stored.now.us
    ∧ seen.now.us < stored.now.us + seconds (env x.thread).settings.cacheTtlSeconds

/-- Processes of one image: the same doubles, and pydantic reads what `str` writes of a
    date-time. -/
structure OneImage (env : ι → Env) : Prop where
  fmt : ∀ i j, (env i).fmt = (env j).fmt
  parse : ∀ i d, (env i).parseDatetime (strDatetime (utc d)) = some (utc d)

/-- A text that one process has written, another reads. -/
theorem OneImage.dumpsText_eq (h : OneImage env) (i j : ι) (value : Json) :
    dumpsText (env i) value = dumpsText (env j) value := by
  rw [dumpsText, dumpsText, h.fmt i j]

/-- A route that reads through the cache and builds its answer. -/
theorem sharing_cachedRoute (cq : CachedQuery κ ρ) (q : κ) (hstores : cq.Stores env life)
    (hunder : hasPrefix cq.under (cq.key q) = true)
    (hfilled : ∀ w, FilledCache env life w → cq.Filled env life w) {producer : Svc Json}
    (hproducer : ∀ m : Machine, FilledCache env life m.world → Svc.sharing env life i producer
      (fun r m' => FilledCache env life m'.world ∧ ProducedBy cq env life i q r m') m)
    {build : Json → Except Exn β} {answer : List ρ → β}
    (hbuild : ∀ (x : Selection ι κ) rows, x.Yields cq env life rows →
      build (cq.json rows) = .ok (answer rows)
        ∧ ∀ value, loads (env i).fmt (dumpsText (env x.thread) (cq.json rows)).toList = some value →
          build value = .ok (answer rows))
    (hcache : FilledCache env life m.world) :
    Svc.sharing env life i (do
        let (rows, _hit) ← readThrough (env i) (cq.key q) producer none
        ofExcept (build rows))
      (fun r m' => (∃ e, r = .error e ∧ e.Own) ∨ ∃ (x : Selection ι κ) (rows : List ρ),
        x.Answers cq env life i q rows m'.session.source ∧ r = .ok (answer rows)) m := by
  refine Svc.complies_seq (sharing_readThrough hstores hunder hfilled hproducer hcache)
    (fun read m' h => Svc.complies_ofExcept fun w _ => .inr ?_) fun e m' h => .inl ?_
  · cases h m'.world (.refl ..) with
    | @found x rows _ _ _ _ found =>
      refine ⟨x, rows, ⟨found.yields, found.key, found.source, .inr ?_⟩,
        (hbuild x rows found.yields).2 _ found.decoded⟩
      exact ⟨_, _, found.lived, found.looked, found.inOrder, found.fresh⟩
    | @produced x rows _ yields thread query source =>
      exact ⟨x, rows, ⟨yields, by rw [query], source, .inl thread⟩, (hbuild x rows yields).1⟩
  · cases h with
    | raised own => exact ⟨e, rfl, own⟩

/-- What the texts of `gpu_prices` and the rows themselves are built into. -/
theorem build_prices (himage : OneImage env) {x : Selection ι PricesQuery} {rows : List LatestRow}
    (hx : x.Yields pricesQuery env life rows) (gpuModel : String) :
    priceSummary (env i) gpuModel (latestJson rows) = .ok (summaryOf gpuModel rows)
      ∧ ∀ value, loads (env i).fmt (dumpsText (env x.thread) (latestJson rows)).toList
        = some value →
        priceSummary (env i) gpuModel value = .ok (summaryOf gpuModel rows) := by
  refine ⟨priceSummary_latestJson gpuModel rows, fun value hvalue => ?_⟩
  have hformat : ∀ r ∈ rows, r.OfFormat (env i).fmt := by
    rw [himage.fmt i x.thread]
    exact ofFormat_pricesSelected hx.selected
  rw [himage.dumpsText_eq x.thread i, loads_latestJson hformat] at hvalue
  obtain rfl := Option.some.inj hvalue
  exact priceSummary_dict strLeaf (fun d => datetimeField_strLeaf (himage.parse i d)) gpuModel rows

/-- What the texts of `workload_index` and the rows themselves are built into. -/
theorem build_index (himage : OneImage env) {x : Selection ι IndexQuery} {rows : List IndexRow}
    (hx : x.Yields indexQuery env life rows) :
    indexPage (env i) (indexJson rows) = .ok (pageOf rows)
      ∧ ∀ value, loads (env i).fmt (dumpsText (env x.thread) (indexJson rows)).toList = some value →
        indexPage (env i) value = .ok (pageOf rows) := by
  have hrows : ∀ r ∈ rows, r.HasRatio ∧ r.OfFormat (env i).fmt := by
    rw [himage.fmt i x.thread]
    exact ofFormat_indexSelected hx.selected
  have hbuilt : indexPage (env i) (indexJson rows) = .ok (pageOf rows) :=
    indexPage_indexJson fun r hr => (hrows r hr).1
  refine ⟨hbuilt, fun value hvalue => ?_⟩
  rw [himage.dumpsText_eq x.thread i, loads_indexJson fun r hr => (hrows r hr).2] at hvalue
  obtain rfl := Option.some.inj hvalue
  exact hbuilt

/-- The GPU of the id was there in a world that the request has lived in. -/
def GpuSeen (life : ι → World → Prop) (i : ι) (gpuId : Int) (gpu : GpuModel) : Prop :=
  ∃ id looked, Integer.ofInt? gpuId = some id ∧ life i looked ∧ looked.db.gpuModel? id = some gpu

theorem sharing_loadGpu (gpuId : Int) (hcache : FilledCache env life m.world) :
    Svc.sharing env life i (loadGpu gpuId) (fun r m' => FilledCache env life m'.world ∧ match r with
      | .ok gpu => GpuSeen life i gpuId gpu
      | .error e => e.Own) m := by
  unfold loadGpu
  refine Svc.complies_query fun looked hR c hlooked =>
    ⟨steady_exec ⟨ownCounter_of_ne nofun, nofun⟩, ?_⟩
  have hlooked' : FilledCache env life looked := hR.cache hcache
  split
  · rename_i gpu m' hexec
    obtain ⟨-, heval, heffect⟩ := Statement.exec_ok hexec
    obtain rfl := Except.ok.inj heffect
    obtain ⟨id, hid, heval⟩ := bind_ok heval
    have hgpu : looked.db.gpuModel? id = gpu := Except.ok.inj heval
    have hrange : Integer.ofInt? gpuId = some id := by
      unfold bindInteger at hid
      cases hofInt : Integer.ofInt? gpuId with
      | none => rw [hofInt] at hid; cases hid
      | some id' =>
        rw [hofInt] at hid
        rw [Except.ok.inj hid]
    cases gpu with
    | none => exact fun w hR' => ⟨hR'.cache hlooked', trivial⟩
    | some gpu => exact fun w hR' => ⟨hR'.cache hlooked', id, looked, hrange, hlooked, hgpu⟩
  · rename_i e m' hexec
    rw [Statement.exec_error hexec]
    exact fun w hR' => ⟨hR'.cache hlooked', trivial⟩

/-- How a cached route answers: with the rows of one selection, or with an error of its own. -/
inductive SharedAnswer (env : ι → Env) (life : ι → World → Prop) (i : ι) :
    Route → Except Exn Response → Option Database → Prop where
  | prices {q : PricesQuery} {gpu : GpuModel} {x : Selection ι PricesQuery} {rows : List LatestRow}
      {source : Option Database} (seen : GpuSeen life i q.gpuId gpu)
      (answers : x.Answers pricesQuery env life i q rows source) :
      SharedAnswer env life i (.gpuPrices q)
        (.ok ⟨200, .summary (summaryOf gpu.modelName.val rows), []⟩) source
  | index {q : IndexQuery} {x : Selection ι IndexQuery} {rows : List IndexRow}
      {source : Option Database} (answers : x.Answers indexQuery env life i q rows source) :
      SharedAnswer env life i (.workloadIndex q) (.ok ⟨200, .index (pageOf rows), []⟩) source
  | raised {route : Route} {e : Exn} {source : Option Database} (own : e.Own) :
      SharedAnswer env life i route (.error e) source

/-- **`gpu_prices`** amid others, whatever fails. -/
theorem sharing_gpuPrices (himage : OneImage env) (q : PricesQuery)
    (hcache : FilledCache env life m.world) :
    Svc.sharing env life i (handle (env i) (.gpuPrices q))
      (fun r m' => SharedAnswer env life i (.gpuPrices q) r m'.session.source) m := by
  have hroute :
      Svc.sharing env life i (gpuPrices (env i) q) (fun r m' => (∃ e, r = .error e ∧ e.Own)
      ∨ ∃ gpu, GpuSeen life i q.gpuId gpu ∧ ∃ (x : Selection ι PricesQuery) (rows : List LatestRow),
        x.Answers pricesQuery env life i q rows m'.session.source
          ∧ r = .ok (summaryOf gpu.modelName.val rows)) m := by
    refine Svc.complies_seq (sharing_loadGpu q.gpuId hcache) (fun gpu m₁ h => ?_)
      fun e m₁ h => .inl ⟨e, rfl, h.2⟩
    obtain ⟨hcache₁, hgpu⟩ := h m₁.world (.refl ..)
    refine Svc.complies_mono (sharing_cachedRoute pricesQuery q stores_pricesQuery
      (hasPrefix_pricesKey q) (fun _ h => h.prices) (fun _ h => sharing_producePrices q h)
      (fun x rows hx => build_prices himage hx gpu.modelName.val) hcache₁) fun r m' h => ?_
    exact h.imp id fun h => ⟨gpu, hgpu, h⟩
  refine Svc.complies_seq hroute (fun summary m₁ h => ?_) fun e m₁ h => ?_
  · rcases h m₁.world (.refl ..) with ⟨_, h, -⟩ | ⟨gpu, hgpu, x, rows, hx, h⟩
    · cases h
    · cases h
      exact fun w _ => .prices hgpu hx
  · rcases h with ⟨_, h, hown⟩ | ⟨_, -, _, _, -, h⟩
    · cases h
      exact .raised hown
    · cases h

/-- **`workload_index`** amid others, whatever fails. -/
theorem sharing_workloadIndex (himage : OneImage env) (q : IndexQuery)
    (hcache : FilledCache env life m.world) :
    Svc.sharing env life i (handle (env i) (.workloadIndex q))
      (fun r m' => SharedAnswer env life i (.workloadIndex q) r m'.session.source) m := by
  refine Svc.complies_seq (sharing_cachedRoute indexQuery q stores_indexQuery
    (hasPrefix_indexKey q) (fun _ h => h.index) (fun _ h => sharing_produceIndex q h)
    (fun x rows hx => build_index himage hx) hcache) (fun page m₁ h => ?_) fun e m₁ h => ?_
  · rcases h m₁.world (.refl ..) with ⟨_, h, -⟩ | ⟨x, rows, hx, h⟩
    · cases h
    · cases h
      exact fun w _ => .index hx
  · rcases h with ⟨_, h, hown⟩ | ⟨_, _, -, h⟩
    · cases h
      exact .raised hown
    · cases h

/-! ## Requests -/

theorem storesNothing_of_limiterCall (op : Op) (h : LimiterCall op) : StoresNothing op := by
  refine ⟨ownCounter_of_limiterCall op h, fun key value ex heq => ?_⟩
  rcases h with rfl | ⟨_, _, -, rfl⟩ <;> cases heq

theorem storesNothing_of_statementCall (op : Op) (h : StatementCall op) : StoresNothing op := by
  refine ⟨ownCounter_of_statementCall op h, fun key value ex heq => ?_⟩
  obtain ⟨stmt, rfl⟩ := h
  cases heq

theorem storesNothing_of_invalidationCall (op : Op) (h : InvalidationCall op) :
    StoresNothing op := by
  refine ⟨ownCounter_of_invalidationCall op h, fun key value ex heq => ?_⟩
  rcases h with ⟨_, _, rfl⟩ | ⟨_, rfl⟩ | ⟨_, rfl⟩ <;> cases heq

/-- A handler that does not read through the cache stores nothing in it. -/
theorem only_handle_storesNothing (e' : Env) {route : Route} (h : ¬ route.Cached) :
    (handle e' route).Only StoresNothing := by
  refine only_handle_of e' (fun op hop => ?_) (fun hcached => absurd hcached h) fun _ _ op hop => ?_
  · exact storesNothing_of_statementCall op (statementCall_of_queryCall op hop)
  · exact hop.elim (storesNothing_of_statementCall op) (storesNothing_of_invalidationCall op)

/-- The limiter raises errors of the request's own. -/
theorem sharing_rateLimit (principal : Principal) (hcache : FilledCache env life m.world) :
    Svc.sharing env life i (rateLimit (env i) principal) (fun r m' => FilledCache env life m'.world
      ∧ ∀ e, r = .error e → e.Own) m := by
  have hcall (key : String) (ex : Int) (h : hasPrefix "rl:" key = true) :
      StoresNothing (.redis (.incrExpire key ex)) :=
    storesNothing_of_limiterCall _ (.inr ⟨key, ex, h, rfl⟩)
  unfold rateLimit
  refine Svc.complies_call.mpr fun w hR c _ => ⟨steady_exec ⟨ownCounter_of_ne nofun, nofun⟩, ?_⟩
  have hw : FilledCache env life w := hR.cache hcache
  dsimp only
  split
  · exact fun w' hR' => ⟨hR'.cache hw, fun e h => by cases h; trivial⟩
  · have hcount (key : String) (ex : Int) (h : hasPrefix "rl:" key = true) (m : Machine)
        (hm : FilledCache env life m.world) :
        Svc.sharing env life i (tryCatch (some <$> redis (.incrExpire key ex)) fun _ => pure none)
          (fun r m' => FilledCache env life m'.world ∧ ∃ a, r = .ok a) m := by
      refine Svc.complies_try (sharing_filled (Svc.only_bind (Svc.only_redis (hcall key ex h))
        fun _ => Svc.only_pure) hm) (fun a m' h => ⟨h, a, rfl⟩) fun e m' h => ?_
      exact fun w hR => ⟨hR.cache (h m'.world (.refl ..)), none, rfl⟩
    refine Svc.complies_seq (hcount _ _ (hasPrefix_windowBucket _ _ _ _) _ hw)
      (fun count m' h => ?_) fun e m' h => ?_
    · have hm' : FilledCache env life m'.world := (h m'.world (.refl ..)).1
      cases count with
      | none => exact fun w' hR' => ⟨hR'.cache hm', nofun⟩
      | some count =>
        dsimp only
        split
        · exact fun w' hR' => ⟨hR'.cache hm', fun e h => by cases h; trivial⟩
        · exact fun w' hR' => ⟨hR'.cache hm', nofun⟩
    · obtain ⟨-, _, h⟩ := h
      cases h

/-- **A request amid others**, whatever fails: all its calls keep the cache filled by requests, and
    a cached read answers with the rows of one selection. -/
theorem sharing_serveRequest (himage : OneImage env) (req : Request)
    (hcache : FilledCache env life m.world) :
    Svc.sharing env life i (serveRequest (env i) req)
      (fun r m' => req.route.Cached → SharedAnswer env life i req.route r m'.session.source) m := by
  have hown {e : Exn} {m' : Machine} (h : e.Own) : req.route.Cached →
      SharedAnswer env life i req.route (.error e) m'.session.source := fun _ => .raised h
  unfold serveRequest
  by_cases hvalid : ValidKey (env i) req
  · obtain ⟨key, hkey, hreq⟩ := hvalid
    rw [hreq, requireApiKey_eq hkey, pure_bind]
    refine Svc.complies_seq (sharing_rateLimit ⟨key⟩ hcache) (fun _ m₁ h => ?_)
      fun e m₁ h => hown (h.2 e rfl)
    have hcache₁ := (h m₁.world (.refl ..)).1
    by_cases hcached : req.route.Cached
    · cases hroute : req.route with
      | gpuPrices q =>
        exact Svc.complies_mono (sharing_gpuPrices himage q hcache₁) fun _ _ h _ => h
      | workloadIndex q =>
        exact Svc.complies_mono (sharing_workloadIndex himage q hcache₁) fun _ _ h _ => h
      | listGpus q => rw [hroute] at hcached; cases hcached
      | gpuPriceHistory q => rw [hroute] at hcached; cases hcached
      | gpuBenchmarks q => rw [hroute] at hcached; cases hcached
      | ingest payload => rw [hroute] at hcached; cases hcached
    · exact Svc.complies_mono (sharing_filled (only_handle_storesNothing (env i) hcached) hcache₁)
        fun _ _ _ h => absurd h hcached
  · rw [requireApiKey_invalid hvalid]
    exact fun w _ => hown trivial

end Shared

end GpuIndex
