/-
  Walking the price history while the table grows.

  A walk asks for page after page, feeding each cursor into the next request, while ingests commit
  in between.  `price_page` sees one committed table per request.  Its SQL selects what the keyset
  library calls a page (`isPage_keyset`), its cursor carries the key of the last row
  (`decodeCursor_encodeCursor`), so the library's invariant holds along every walk.
-/
import GpuIndex.Fixture
import GpuIndex.Lib.Keyset
import GpuIndex.Services.Pricing
import Mathlib.Data.Prod.Lex
import Mathlib.Logic.Relation

namespace GpuIndex

open Calendar Keyset OrderBy
open JsonText (FloatFormat)

/-! ## The rows of a page -/

/-- The key of a row, compared lexicographically. -/
def rowKey (p : PricePoint) : Instant ×ₗ BigInteger := toLex (p.observedAt, p.id)

/-- The rows of one GPU. -/
def gpuRows (db : Database) (gpuId : Int) : Set PricePoint :=
  {p | p ∈ db.pricePoints ∧ p.gpuModelId.val = gpuId}

/-- A price point as a page shows it. -/
def rowOf (fmt : FloatFormat) (db : Database) (p : PricePoint) : Option PageRow :=
  (db.provider? p.providerId).map (pageRow fmt p)

/-- The rows `KEYSET_PAGE_SQL` has before its `LIMIT`. -/
def keysetSelected (plan : Plan) (db : Database) (gpu : Integer)
    (cursor : Option (Instant × BigInteger)) : List PricePoint :=
  keysetOrder.sort ((plan.prices.apply db.pricePoints).filter fun p =>
    p.gpuModelId = gpu ∧ beforeCursor cursor p)

theorem below_iff {cursor : Option (Instant × BigInteger)} {p : PricePoint} :
    Below rowKey (cursor.map toLex) p ↔ beforeCursor cursor p = true := by
  cases cursor with
  | none => simp [Below, beforeCursor]
  | some c => simp [Below, beforeCursor, rowKey, Prod.Lex.toLex_lt_toLex]

theorem mem_keysetSelected {plan : Plan} {db : Database} {gpu : Integer}
    {cursor : Option (Instant × BigInteger)} {p : PricePoint} :
    p ∈ keysetSelected plan db gpu cursor
      ↔ p ∈ gpuRows db gpu.val ∧ Below rowKey (cursor.map toLex) p := by
  simp [keysetSelected, gpuRows, below_iff, and_assoc, Integer.val_injective.eq_iff]

/-- Two rows in `keysetOrder` with different ids are strictly ordered. -/
theorem rowKey_lt_of_le {p q : PricePoint} (hle : keysetOrder.le p q) (hid : p.id ≠ q.id) :
    rowKey q < rowKey p := by
  obtain ⟨hobs, htie⟩ := hle
  rw [rowKey, rowKey, Prod.Lex.toLex_lt_toLex]
  rcases lt_or_eq_of_le (show q.observedAt ≤ p.observedAt from hobs) with hlt | heq
  · exact .inl hlt
  · exact .inr ⟨heq, lt_of_le_of_ne (htie heq.ge) (Ne.symm hid)⟩

/-- The sort leaves no ties, whatever order the engine meets the rows in. -/
theorem descending_keysetSelected (plan : Plan) (db : Database) (gpu : Integer)
    (cursor : Option (Instant × BigInteger)) :
    Descending rowKey (keysetSelected plan db gpu cursor) := by
  have hids : ((keysetSelected plan db gpu cursor).map PricePoint.id).Nodup := by
    have hperm : (keysetSelected plan db gpu cursor).Perm _ := keysetOrder.perm_sort _
    refine (hperm.map _).nodup_iff.mpr (List.Nodup.sublist (List.filter_sublist.map _) ?_)
    exact ((plan.prices.perm db.pricePoints).map _).nodup_iff.mpr db.constraints.price_points_pkey
  have hne := List.pairwise_map.mp hids
  exact (keysetOrder.pairwise_sort _).imp₂ (fun _ _ hle hid => rowKey_lt_of_le hle hid) hne

/-- **What a page is**: the first rows of the GPU below the cursor. -/
theorem isPage_keyset (plan : Plan) (db : Database) (gpu : Integer)
    (cursor : Option (Instant × BigInteger)) (limit : Nat) :
    IsPage rowKey (gpuRows db gpu.val) (cursor.map toLex) limit
      ((keysetSelected plan db gpu cursor).take limit) :=
  isPage_take (descending_keysetSelected plan db gpu cursor) (fun _ => mem_keysetSelected) limit

/-- A join that finds every partner loses no row. -/
theorem map_some_take_filterMap {α β : Type} {f : α → Option β} {l : List α}
    (h : ∀ a ∈ l, ∃ b, f a = some b) (n : Nat) :
    ((l.filterMap f).take n).map some = (l.take n).map f := by
  have hall : (l.filterMap f).map some = l.map f := by
    induction l with
    | nil => rfl
    | cons a l ih =>
      obtain ⟨b, hb⟩ := h a List.mem_cons_self
      rw [List.filterMap_cons_some hb, List.map_cons, List.map_cons, hb,
        ih fun x hx => h x (List.mem_cons_of_mem _ hx)]
  rw [List.map_take, hall, List.map_take]

/-- The result rows are the selected rows, one for one. -/
theorem keysetPageSql_rows (fmt : FloatFormat) (plan : Plan) (db : Database) (gpu : Integer)
    (cursor : Option (Instant × BigInteger)) (limit : Nat) :
    (keysetPageSql fmt plan db gpu cursor limit).map some
      = ((keysetSelected plan db gpu cursor).take limit).map (rowOf fmt db) := by
  refine map_some_take_filterMap (fun p hp => ?_) limit
  obtain ⟨pr, hpr⟩ := db.provider?_isSome (mem_keysetSelected.mp hp).1.1
  exact ⟨pageRow fmt p pr, by rw [hpr, Option.map_some]⟩

/-! ## One request -/

/-- The cursor text of a position. -/
def cursorOf (fmt : FloatFormat) (position : Option (Instant × BigInteger)) : Option String :=
  position.map fun c => encodeCursor fmt (utc c.1) c.2.val

theorem truthy_cursorOf (fmt : FloatFormat) (position : Option (Instant × BigInteger)) :
    truthy (cursorOf fmt position) = cursorOf fmt position := by
  cases position with
  | none => rfl
  | some c => simp [truthy, cursorOf, encodeCursor_ne_empty]

/-- The position of a cursor text is bound to the key it was made from. -/
theorem bindCursor_utc (env : Env) (c : Instant × BigInteger) :
    bindCursor env (utc c.1, c.2.val) = .ok c := by
  have hts : bindDatetime env (utc c.1) = .ok c.1 := by
    rw [bindDatetime, toInstant?_utc]
  have hid : bindBigInteger c.2.val = .ok c.2 := by
    rw [bindBigInteger, BigInteger.ofInt?_val]
  rw [bindCursor, hts, hid]
  rfl

/-- The cursor of a full page is the key of its last row. -/
theorem nextCursor_eq (fmt : FloatFormat) (rows : List PageRow) (limit : Nat) :
    nextCursor fmt rows limit
      = cursorOf fmt (if rows.length = limit then rows.getLast?.map fun r => (r.observedAt, r.id)
        else none) := by
  unfold nextCursor
  split
  · cases rows.getLast? <;> rfl
  · rfl

/-- Binding a position made from a key gives the key back. -/
theorem bindOption_position (env : Env) (position : Option (Instant × BigInteger)) :
    bindOption (bindCursor env) (position.map fun c => (utc c.1, c.2.val)) = .ok position := by
  cases position with
  | none => rfl
  | some c =>
    rw [Option.map_some, bindOption, bindCursor_utc]
    rfl

/-- A cursor made from a position is decoded to it. -/
theorem pricePage_cursorOf (env : Env) (gpuId : Int) (limit : Nat)
    (position : Option (Instant × BigInteger)) :
    pricePage env gpuId limit (cursorOf env.fmt position) = (do
      let rows ← query (.keysetPage gpuId (position.map fun c => (utc c.1, c.2.val)) limit)
      return (rows, nextCursor env.fmt rows limit)) := by
  rw [pricePage, truthy_cursorOf]
  cases position with
  | none => rfl
  | some c =>
    simp only [cursorOf, Option.map_some, decodeCursor_encodeCursor, readBack_utc]
    rfl

/-- A page statement fails only for its position, if the id and the limit can be bound. -/
theorem eval_keysetPage_fits {env : Env} {plan : Plan} {db : Database} {gpuId : Int} {gpu : Integer}
    {limit : Nat} (hgpu : Integer.ofInt? gpuId = some gpu) (hlimit : limit < 9223372036854775808)
    (position : Option (Datetime × Int)) :
    (Statement.keysetPage gpuId position limit).eval env plan db
      = (bindOption (bindCursor env) position).map fun bound =>
          keysetPageSql env.fmt plan db gpu bound limit := by
  rw [Statement.eval, bindInteger, hgpu, bindLimit, if_pos hlimit]
  cases bindOption (bindCursor env) position <;> rfl

/-- What a page statement answers. -/
theorem eval_keysetPage {env : Env} {plan : Plan} {db : Database} {gpuId : Int} {limit : Nat}
    {position : Option (Instant × BigInteger)} {rows : List PageRow}
    (h : (Statement.keysetPage gpuId (position.map fun c => (utc c.1, c.2.val)) limit).eval env plan
      db = .ok rows) :
    ∃ gpu, gpu.val = gpuId ∧ rows = keysetPageSql env.fmt plan db gpu position limit := by
  rw [Statement.eval, bindOption_position] at h
  obtain ⟨gpu, hgpu, h⟩ := bind_ok h
  obtain ⟨bound, hbound, h⟩ := bind_ok h
  obtain ⟨limit', hlimit, h⟩ := bind_ok h
  cases hbound
  rw [bindLimit_ok hlimit] at h
  exact ⟨gpu, bindInteger_ok hgpu, (Except.ok.inj h).symm⟩

/-- **One request**: a page that is answered is that of the table as it is, from the cursor's
    position on. -/
theorem wp_pricePage (env : Env) (C : Choice → Prop) (gpuId : Int) (limit : Nat)
    (position : Option (Instant × BigInteger)) (m : Machine) :
    Svc.wp env C (pricePage env gpuId limit (cursorOf env.fmt position)) (fun r _ =>
      ∀ rows next, r = .ok (rows, next) → next = nextCursor env.fmt rows limit
        ∧ ∃ gpu plan, gpu.val = gpuId
          ∧ rows = keysetPageSql env.fmt plan m.world.db gpu position limit) m := by
  rw [pricePage_cursorOf, Svc.wp_bind, Svc.wp_query]
  intro c _
  split
  · rename_i rows m' hexec
    obtain ⟨-, heval, -⟩ := Statement.exec_ok hexec
    obtain ⟨gpu, hgpu, hrows⟩ := eval_keysetPage heval
    intro rows' next h
    cases h
    exact ⟨rfl, gpu, c.plan, hgpu, hrows⟩
  · intro rows next h
    cases h

/-! ## Walks -/

/-- A client walking the history of one GPU. -/
structure Walk where
  /-- The committed database. -/
  db : Database
  /-- The cursor of the next request. -/
  cursor : Option String
  /-- The rows of the pages so far. -/
  rows : List PageRow
  /-- The last page came without a cursor. -/
  finished : Bool

/-- Before the first request. -/
def Walk.start (db : Database) : Walk := ⟨db, none, [], false⟩

/-- What happens next: a page is requested and answered, or an ingest commits. -/
inductive Walk.Step (env : Env) (gpuId : Int) : Walk → Walk → Prop where
  | page {w : Walk} {limit : Nat} {m m' : Machine} {choices : Nat → Choice} {rows : List PageRow}
      {next : Option String} (unfinished : w.finished = false) (limit_pos : 1 ≤ limit)
      (committed : m.world.db = w.db)
      (answered : runSvc env choices (pricePage env gpuId limit w.cursor) m
        = (.ok (rows, next), m')) :
      Walk.Step env gpuId w ⟨w.db, next, w.rows ++ rows, next.isNone⟩
  | ingest {w : Walk} {db : Database} (grows : w.db.Grows db) :
      Walk.Step env gpuId w { w with db := db }

/-- Any number of steps. -/
def Walk.Run (env : Env) (gpuId : Int) : Walk → Walk → Prop :=
  Relation.ReflTransGen (Walk.Step env gpuId)

/-- **The invariant** of a walk that started on `db₀`: its rows are those of price points of the
    GPU, which form a keyset walk, finished or from the position of the cursor. -/
structure Walk.Inv (env : Env) (gpuId : Int) (db₀ : Database) (w : Walk) : Prop where
  grows : db₀.Grows w.db
  walked : ∃ points : List PricePoint, w.rows.map some = points.map (rowOf env.fmt w.db)
    ∧ (∀ p ∈ points, p ∈ gpuRows w.db gpuId)
    ∧ if w.finished then Descending rowKey points ∧ ∀ p ∈ gpuRows db₀ gpuId, p ∈ points
      else ∃ position : Option (Instant × BigInteger), w.cursor = cursorOf env.fmt position
        ∧ Walked rowKey (gpuRows db₀ gpuId) (position.map toLex) points

theorem Walk.inv_start (env : Env) (gpuId : Int) (db : Database) :
    (Walk.start db).Inv env gpuId db where
  grows := .refl db
  walked := ⟨[], rfl, fun _ hp => absurd hp List.not_mem_nil, none, rfl, walked_start _⟩

/-- The rows of a GPU are still there when the table has grown, and look the same. -/
theorem Database.Grows.gpuRows_subset {db db' : Database} (h : db.Grows db') (gpuId : Int) :
    gpuRows db gpuId ⊆ gpuRows db' gpuId :=
  fun _ hp => ⟨h.pricePoints.subset hp.1, hp.2⟩

theorem Database.Grows.rowOf_eq {db db' : Database} (h : db.Grows db') (fmt : FloatFormat) :
    rowOf fmt db' = rowOf fmt db := by
  funext p
  simp only [rowOf, Database.provider?, h.providers]

theorem Walk.inv_ingest {env : Env} {gpuId : Int} {db₀ db : Database} {w : Walk}
    (hw : w.Inv env gpuId db₀) (h : w.db.Grows db) :
    Walk.Inv env gpuId db₀ { w with db := db } where
  grows := hw.grows.trans h
  walked := by
    obtain ⟨points, hrows, hmem, hrest⟩ := hw.walked
    exact ⟨points, hrows.trans (by rw [h.rowOf_eq]), fun p hp => h.gpuRows_subset gpuId (hmem p hp),
      hrest⟩

theorem rowOf_key {fmt : FloatFormat} {db : Database} {p : PricePoint} {r : PageRow}
    (h : rowOf fmt db p = some r) : (r.observedAt, r.id) = (p.observedAt, p.id) := by
  obtain ⟨pr, -, rfl⟩ := Option.map_eq_some_iff.mp h
  rfl

/-- Rows carry the keys of their points. -/
theorem rows_keys {fmt : FloatFormat} {db : Database} {rows : List PageRow}
    {points : List PricePoint} (h : rows.map some = points.map (rowOf fmt db)) :
    rows.map (fun r => (r.observedAt, r.id)) = points.map fun p => (p.observedAt, p.id) := by
  induction points generalizing rows with
  | nil => rw [List.map_eq_nil_iff.mp h, List.map_nil, List.map_nil]
  | cons p points ih =>
    cases rows with
    | nil => cases h
    | cons r rows =>
      obtain ⟨hhead, htail⟩ := List.cons.inj h
      rw [List.map_cons, List.map_cons, rowOf_key hhead.symm, ih htail]

theorem Walk.inv_page {env : Env} {gpuId : Int} {db₀ : Database} {w : Walk} {limit : Nat}
    {m m' : Machine} {choices : Nat → Choice} {rows : List PageRow} {next : Option String}
    (hw : w.Inv env gpuId db₀) (unfinished : w.finished = false) (limit_pos : 1 ≤ limit)
    (committed : m.world.db = w.db)
    (answered : runSvc env choices (pricePage env gpuId limit w.cursor) m
      = (.ok (rows, next), m')) :
    Walk.Inv env gpuId db₀ ⟨w.db, next, w.rows ++ rows, next.isNone⟩ where
  grows := hw.grows
  walked := by
    obtain ⟨points, hrows, hmem, hrest⟩ := hw.walked
    rw [if_neg (by simp [unfinished])] at hrest
    obtain ⟨position, hcursor, hwalked⟩ := hrest
    -- the request was answered with the page from the position on
    rw [hcursor] at answered
    have hwp := runSvc_of_wp choices (fun _ => trivial)
      (wp_pricePage env (fun _ => True) gpuId limit position m)
    rw [answered, committed] at hwp
    obtain ⟨hnext, gpu, plan, rfl, hsql⟩ := hwp rows next rfl
    -- the rows stand for points of the table, about which the keyset rules speak
    have hpage := isPage_keyset plan w.db gpu position limit
    have hpageRows := keysetPageSql_rows env.fmt plan w.db gpu position limit
    generalize (keysetSelected plan w.db gpu position).take limit = page at hpage hpageRows
    rw [← hsql] at hpageRows
    have hlen : rows.length = page.length := by simpa using congrArg List.length hpageRows
    have hsub := hw.grows.gpuRows_subset gpu.val
    refine ⟨points ++ page, by rw [List.map_append, List.map_append, hrows, hpageRows], ?_, ?_⟩
    · intro p hp
      rcases List.mem_append.mp hp with hp | hp
      · exact hmem p hp
      · exact (hpage.mem p hp).1
    · rw [hnext, nextCursor_eq, hlen, ← List.getLast?_map, rows_keys hpageRows, List.getLast?_map]
      by_cases hfull : page.length = limit
      · -- a full page has a last row, whose key is the next position
        obtain ⟨last, hlast⟩ : ∃ last, page.getLast? = some last := by
          cases h : page.getLast? with
          | some last => exact ⟨last, rfl⟩
          | none =>
            rw [List.getLast?_eq_none_iff] at h
            rw [h, List.length_nil] at hfull
            omega
        rw [if_pos hfull, hlast]
        exact ⟨some (last.observedAt, last.id), rfl, hwalked.full_page hpage hsub hlast⟩
      -- a short page ends the walk, with every row of the start below the position returned
      · rw [if_neg hfull]
        exact ⟨hwalked.descending_append hpage, fun p hp => hwalked.short_page hpage hsub hfull hp⟩

/-- One step keeps the invariant. -/
theorem Walk.Step.inv {env : Env} {gpuId : Int} {db₀ : Database} {w w' : Walk}
    (hstep : Walk.Step env gpuId w w') (hw : w.Inv env gpuId db₀) : w'.Inv env gpuId db₀ := by
  cases hstep with
  | page unfinished limit_pos committed answered =>
    exact Walk.inv_page hw unfinished limit_pos committed answered
  | ingest grows => exact Walk.inv_ingest hw grows

/-- Every reachable walk satisfies the invariant. -/
theorem Walk.Run.inv {env : Env} {gpuId : Int} {db : Database} {w : Walk}
    (h : Walk.Run env gpuId (Walk.start db) w) : w.Inv env gpuId db := by
  induction h with
  | refl => exact Walk.inv_start env gpuId db
  | tail _ hstep ih => exact hstep.inv ih

/-! ## What a walk returns -/

/-- The order of the pages: later observations first, larger ids first among equals. -/
def PageRow.Before (a b : PageRow) : Prop :=
  b.observedAt < a.observedAt ∨ b.observedAt = a.observedAt ∧ b.id < a.id

/-- Rows of descending points are descending. -/
theorem pairwise_before {fmt : FloatFormat} {db : Database} {rows : List PageRow}
    {points : List PricePoint} (h : rows.map some = points.map (rowOf fmt db))
    (hdesc : Descending rowKey points) : rows.Pairwise PageRow.Before := by
  have hpoints : (points.map fun p => (p.observedAt, p.id)).Pairwise
      fun a b => toLex b < toLex a := List.pairwise_map.mpr hdesc
  rw [← rows_keys h, List.pairwise_map] at hpoints
  exact hpoints.imp fun hab => Prod.Lex.toLex_lt_toLex.mp hab

theorem nodup_of_before {rows : List PageRow} (h : rows.Pairwise PageRow.Before) : rows.Nodup := by
  refine h.imp ?_
  rintro a b hab rfl
  rcases hab with hlt | ⟨-, hlt⟩
  · exact lt_irrefl _ hlt
  · exact lt_irrefl _ hlt

theorem Walk.Inv.descending {env : Env} {gpuId : Int} {db : Database} {w : Walk}
    (h : w.Inv env gpuId db) : w.rows.Pairwise PageRow.Before := by
  obtain ⟨points, hrows, -, hrest⟩ := h.walked
  refine pairwise_before hrows ?_
  split at hrest
  · exact hrest.1
  · obtain ⟨position, -, hwalked⟩ := hrest
    exact hwalked.descending

/-- **A walk of the history**, whatever is ingested meanwhile: its rows are strictly descending,
    all of them rows of the GPU, and when it ends every row of the GPU that was there at the start
    has been returned exactly once. -/
theorem history_walk (env : Env) (gpuId : Int) (db : Database) (w : Walk)
    (h : Walk.Run env gpuId (Walk.start db) w) :
    w.rows.Pairwise PageRow.Before
      ∧ (∀ r ∈ w.rows, ∃ p ∈ w.db.pricePoints, p.gpuModelId.val = gpuId
          ∧ rowOf env.fmt w.db p = some r)
      ∧ (w.finished = true → ∀ p ∈ db.pricePoints, p.gpuModelId.val = gpuId →
          ∃ r, rowOf env.fmt w.db p = some r ∧ w.rows.count r = 1) := by
  have hinv := h.inv
  have hdesc := hinv.descending
  obtain ⟨points, hrows, hmem, hrest⟩ := hinv.walked
  refine ⟨hdesc, fun r hr => ?_, fun hfinished p hp hgpu => ?_⟩
  · have hsome : some r ∈ points.map (rowOf env.fmt w.db) := hrows ▸ List.mem_map_of_mem hr
    obtain ⟨p, hp, hrow⟩ := List.mem_map.mp hsome
    exact ⟨p, (hmem p hp).1, (hmem p hp).2, hrow⟩
  · rw [if_pos hfinished] at hrest
    have hpoint : p ∈ points := hrest.2 p ⟨hp, hgpu⟩
    have hrow : rowOf env.fmt w.db p ∈ w.rows.map some := hrows ▸ List.mem_map_of_mem hpoint
    obtain ⟨r, hr, heq⟩ := List.mem_map.mp hrow
    exact ⟨r, heq.symm, List.count_eq_one_of_mem (nodup_of_before hdesc) hr⟩

/-- The market with two more offers. -/
def grownTables : Tables :=
  { marketTables with
    pricePoints := marketTables.pricePoints ++ westOffers
    lastPriceId := 8 }

theorem grown_constraints : grownTables.Constraints :=
  { market_constraints with
    price_points_pkey := by decide
    uq_price_observation := by decide
    price_points_gpu_model_id_fkey := by decide
    price_points_provider_id_fkey := by decide }

def grown : Database := ⟨grownTables, grown_constraints⟩

theorem market_grows : market.Grows grown where
  pricePoints := ⟨_, rfl⟩
  gpuModels := rfl
  providers := rfl
  benchmarkRuns := rfl

/-- The rows of a database whose offers have these ids. -/
def shownRows (db : Database) (ids : List Int) : List PageRow :=
  ids.filterMap fun id => (db.pricePoints.find? fun p => p.id.val = id).bind (rowOf halves db)

/-- The walk of two requests, with a commit in between: the new offer above the cursor is not seen,
    the one below it is. -/
def grownWalk : Walk where
  db := grown
  cursor := none
  rows := shownRows market [2] ++ shownRows grown [1, 8, 3]
  finished := true

/-- The cursor of its first page. -/
def grownCursor : Option String := cursorOf halves (some (newYear, h100New.id))

/-- Its pages, from a server that answers. -/
theorem marketPage :
    (runSvc env (fun _ => .calm) (pricePage env 1 1 none) ⟨worldOf market, {}⟩).1
      = .ok (shownRows market [2], grownCursor) := by
  with_unfolding_all rfl

theorem grownPage :
    (runSvc env (fun _ => .calm) (pricePage env 1 5 grownCursor) ⟨worldOf grown, {}⟩).1
      = .ok (shownRows grown [1, 8, 3], none) := by
  have hcursor := pricePage_cursorOf env 1 5 (some (newYear, h100New.id))
  rw [show grownCursor = cursorOf env.fmt _ from rfl, hcursor]
  with_unfolding_all rfl

theorem grownWalk_run : Walk.Run env 1 (Walk.start market) grownWalk := by
  have hrun {α : Type} {run : Except Exn α × Machine} {r : Except Exn α} (h : run.1 = r) :
      run = (r, run.2) := Prod.ext h rfl
  have hfirst : Walk.Step env 1 (Walk.start market)
      ⟨market, grownCursor, shownRows market [2], false⟩ :=
    .page rfl (by decide : 1 ≤ 1) rfl (hrun marketPage)
  have hlast : Walk.Step env 1 ⟨grown, grownCursor, shownRows market [2], false⟩ grownWalk :=
    .page rfl (by decide : 1 ≤ 5) rfl (hrun grownPage)
  exact ((Relation.ReflTransGen.single hfirst).tail (.ingest market_grows)).tail hlast

theorem history_walk_grown :
    grownWalk.rows.Pairwise PageRow.Before
      ∧ (∀ r ∈ grownWalk.rows, ∃ p ∈ grownWalk.db.pricePoints, p.gpuModelId.val = 1
          ∧ rowOf env.fmt grownWalk.db p = some r)
      ∧ (grownWalk.finished = true → ∀ p ∈ market.pricePoints, p.gpuModelId.val = 1 →
          ∃ r, rowOf env.fmt grownWalk.db p = some r ∧ grownWalk.rows.count r = 1) :=
  history_walk env 1 market grownWalk grownWalk_run

end GpuIndex
