/-
  Paging a price history that stays as it is.

  `priceHistory` is what `ORDER BY observed_at DESC, id DESC` makes of the rows of a GPU, and
  `offsetPage` counts its pages off by position.  A client that pages with one limit asks for
  `pageRequest` after `pageRequest`, each with the cursor of the one before.  The crux is
  `keysetPageSql_after`: seeking below the cursor after `k` rows is dropping `k` rows.  So
  **`keyset_equals_offset`**: the pages are the slices of the history, and the client makes one
  request more than the history has full pages.
-/
import GpuIndex.Services.HistoryWalk

namespace GpuIndex

open Calendar Keyset
open JsonText (FloatFormat)

/-! ## The history by position -/

/-- The rows of a GPU, latest first. -/
def priceHistory (db : Database) (gpu : Integer) : List PricePoint :=
  keysetOrder.sort (db.pricePoints.filter fun p => p.gpuModelId = gpu)

/-- The page at an offset: `ORDER BY ... OFFSET :offset LIMIT :limit`. -/
def offsetPage (fmt : FloatFormat) (db : Database) (gpu : Integer) (offset limit : Nat) :
    List PageRow :=
  (((priceHistory db gpu).filterMap (rowOf fmt db)).drop offset).take limit

section History

variable (fmt : FloatFormat) (plan : Plan) (db : Database) (gpu : Integer)

theorem priceHistory_eq : priceHistory db gpu = keysetSelected .stored db gpu none := by
  have hfilter : (db.pricePoints.filter fun p => p.gpuModelId = gpu)
      = (Plan.stored.prices.apply db.pricePoints).filter fun p =>
        p.gpuModelId = gpu ∧ beforeCursor none p :=
    List.filter_congr fun p _ => by simp [beforeCursor]
  rw [priceHistory, keysetSelected, hfilter]

theorem descending_priceHistory : Descending rowKey (priceHistory db gpu) := by
  rw [priceHistory_eq]
  exact descending_keysetSelected .stored db gpu none

theorem mem_priceHistory {p : PricePoint} : p ∈ priceHistory db gpu ↔ p ∈ gpuRows db gpu.val := by
  rw [priceHistory_eq, mem_keysetSelected, and_iff_left]
  exact fun _ h => nomatch h

/-- Every row of the history is shown. -/
theorem rowOf_of_mem_priceHistory {p : PricePoint} (hp : p ∈ priceHistory db gpu) :
    ∃ r, rowOf fmt db p = some r := by
  obtain ⟨pr, hpr⟩ := db.provider?_isSome ((mem_priceHistory db gpu).mp hp).1
  exact ⟨pageRow fmt p pr, by rw [rowOf, hpr, Option.map_some]⟩

/-- The position after the first `k` rows of the history. -/
def positionAfter (k : Nat) : Option (Instant × BigInteger) :=
  (after rowKey (priceHistory db gpu) k).map ofLex

/-- **Seeking is counting**: the rows before the position after `k` rows are what `k` rows leave. -/
theorem keysetSelected_after {k : Nat} (hk : k ≤ (priceHistory db gpu).length) :
    keysetSelected plan db gpu (positionAfter db gpu k) = (priceHistory db gpu).drop k := by
  refine (descending_priceHistory db gpu).seek_eq_drop hk
    (descending_keysetSelected plan db gpu _) fun p => ?_
  have hposition : (positionAfter db gpu k).map toLex = after rowKey (priceHistory db gpu) k := by
    rw [positionAfter, Option.map_map]
    exact Option.map_id_apply
  rw [mem_keysetSelected, mem_priceHistory, hposition]

/-- A join that finds every partner commutes with counting off. -/
theorem filterMap_drop {α β : Type} {f : α → Option β} {l : List α}
    (h : ∀ a ∈ l, ∃ b, f a = some b) (k : Nat) :
    (l.drop k).filterMap f = (l.filterMap f).drop k := by
  induction l generalizing k with
  | nil => simp
  | cons a l ih =>
    cases k with
    | zero => rfl
    | succ k =>
      obtain ⟨b, hb⟩ := h a List.mem_cons_self
      rw [List.drop_succ_cons, List.filterMap_cons_some hb, List.drop_succ_cons]
      exact ih (fun x hx => h x (List.mem_cons_of_mem _ hx)) k

/-- **One page**: the keyset query below the position after `k` rows is the page at offset `k`. -/
theorem keysetPageSql_after {k : Nat} (hk : k ≤ (priceHistory db gpu).length) (limit : Nat) :
    keysetPageSql fmt plan db gpu (positionAfter db gpu k) limit
      = offsetPage fmt db gpu k limit := by
  have hselected := keysetSelected_after plan db gpu hk
  show ((keysetSelected plan db gpu (positionAfter db gpu k)).filterMap (rowOf fmt db)).take limit
      = _
  rw [hselected, filterMap_drop (fun p => rowOf_of_mem_priceHistory fmt db gpu), offsetPage]

/-- The rows of the history, shown, have the keys of the history. -/
theorem shown_keys : ((priceHistory db gpu).filterMap (rowOf fmt db)).map
    (fun r => (r.observedAt, r.id)) = (priceHistory db gpu).map fun p => (p.observedAt, p.id) := by
  have hall := map_some_take_filterMap (fun p => rowOf_of_mem_priceHistory fmt db gpu)
    (l := priceHistory db gpu) (priceHistory db gpu).length
  rw [List.take_length, List.take_of_length_le (List.length_filterMap_le _ _)] at hall
  exact rows_keys hall

theorem length_shown : ((priceHistory db gpu).filterMap (rowOf fmt db)).length
    = (priceHistory db gpu).length := by
  simpa using congrArg List.length (shown_keys fmt db gpu)

theorem length_offsetPage (offset limit : Nat) : (offsetPage fmt db gpu offset limit).length
    = min limit ((priceHistory db gpu).length - offset) := by
  rw [offsetPage, List.length_take, List.length_drop, length_shown]

/-- The cursor of a page is the position after its last row, while the page is full. -/
theorem nextCursor_offsetPage {k limit : Nat} (hlimit : 1 ≤ limit)
    (hk : k ≤ (priceHistory db gpu).length) :
    nextCursor fmt (offsetPage fmt db gpu k limit) limit
      = cursorOf fmt (if k + limit ≤ (priceHistory db gpu).length
          then positionAfter db gpu (k + limit) else none) := by
  have hfull : (offsetPage fmt db gpu k limit).length = limit
      ↔ k + limit ≤ (priceHistory db gpu).length := by
    rw [length_offsetPage]
    omega
  rw [nextCursor_eq]
  by_cases hmore : k + limit ≤ (priceHistory db gpu).length
  · rw [if_pos (hfull.mpr hmore), if_pos hmore]
    have hlast : (offsetPage fmt db gpu k limit).getLast?
        = ((priceHistory db gpu).filterMap (rowOf fmt db))[k + limit - 1]? := by
      rw [List.getLast?_eq_getElem?, hfull.mpr hmore, offsetPage,
        List.getElem?_take_of_lt (by omega), List.getElem?_drop]
      congr 1
      omega
    rw [hlast, ← List.getElem?_map, shown_keys, positionAfter, after, if_neg (by omega),
      List.getElem?_map, Option.map_map]
    rfl
  · rw [if_neg (mt hfull.mp hmore), if_neg hmore]

end History

/-! ## A client that pages -/

/-- The answer to a client's request number `i`, from machines of its own: the first request has no
    cursor, every other has the cursor of the one before.  There is none when the one before failed
    or came without a cursor. -/
def pageRequest (env : Env) (gpuId : Int) (limit : Nat) (choices : Nat → Nat → Choice)
    (m : Nat → Machine) : Nat → Option (Except Exn (List PageRow × Option String))
  | 0 => some (runSvc env (choices 0) (pricePage env gpuId limit none) (m 0)).1
  | i + 1 =>
    match pageRequest env gpuId limit choices m i with
    | some (.ok (_, some cursor)) =>
      some (runSvc env (choices (i + 1)) (pricePage env gpuId limit (some cursor)) (m (i + 1))).1
    | _ => none

section Request

variable {env : Env} {db : Database} {gpu : Integer} {limit k : Nat}

/-- A request that is answered: the page at its offset, and the cursor after it. -/
theorem answered_page (hlimit : 1 ≤ limit) (hk : k ≤ (priceHistory db gpu).length)
    {choices : Nat → Choice} {m : Machine} (hdb : m.world.db = db) {rows : List PageRow}
    {next : Option String}
    (h : (runSvc env choices (pricePage env gpu.val limit
      (cursorOf env.fmt (positionAfter db gpu k))) m).1 = .ok (rows, next)) :
    rows = offsetPage env.fmt db gpu k limit
      ∧ next = cursorOf env.fmt (if k + limit ≤ (priceHistory db gpu).length
          then positionAfter db gpu (k + limit) else none) := by
  have hwp := runSvc_of_wp choices (fun _ => trivial)
    (wp_pricePage env (fun _ => True) gpu.val limit (positionAfter db gpu k) m)
  obtain ⟨hnext, gpu', plan, hgpu, hrows⟩ := hwp rows next h
  rw [hdb, Integer.val_injective hgpu, keysetPageSql_after env.fmt plan db gpu hk] at hrows
  refine ⟨hrows, ?_⟩
  rw [hnext, hrows, nextCursor_offsetPage env.fmt db gpu hlimit hk]

/-- A server that answers answers every page whose limit it takes. -/
theorem page_isOk (env : Env) (gpu : Integer) (hfits : limit < 9223372036854775808)
    {choices : Nat → Choice} (hanswers : ∀ n, (choices n).Answers)
    (position : Option (Instant × BigInteger)) (m : Machine) :
    ∃ rows next, (runSvc env choices (pricePage env gpu.val limit (cursorOf env.fmt position)) m).1
      = .ok (rows, next) := by
  have heval (plan : Plan) : (Statement.keysetPage gpu.val
      (position.map fun c => (utc c.1, c.2.val)) limit).eval env plan m.world.db
        = .ok (keysetPageSql env.fmt plan m.world.db gpu position limit) := by
    rw [eval_keysetPage_fits (Integer.ofInt?_val gpu) hfits, bindOption_position]
    rfl
  have hquery := @go_query_value env choices (.keysetPage gpu.val
    (position.map fun c => (utc c.1, c.2.val)) limit) m m 0 rfl
  rw [show (choices 0).dbError = none from hanswers 0, heval] at hquery
  rw [pricePage_cursorOf, runSvc, Svc.go_bind]
  rcases hgo : Svc.go env choices (query (.keysetPage gpu.val
    (position.map fun c => (utc c.1, c.2.val)) limit)) (m, 0) with ⟨r, s⟩
  rw [hgo] at hquery
  obtain rfl : r = .ok (keysetPageSql env.fmt (choices 0).plan m.world.db gpu position limit) :=
    hquery
  rw [hgo]
  exact ⟨_, _, rfl⟩

variable {choices : Nat → Nat → Choice} {m : Nat → Machine}

/-- **The walk**: a request that is made asks for the page at its own offset, which is no further
    than the end of the history. -/
theorem pageRequest_eq (hlimit : 1 ≤ limit) (hfixed : ∀ i, (m i).world.db = db) {i : Nat}
    {r : Except Exn (List PageRow × Option String)}
    (h : pageRequest env gpu.val limit choices m i = some r) :
    i * limit ≤ (priceHistory db gpu).length
      ∧ r = (runSvc env (choices i) (pricePage env gpu.val limit
          (cursorOf env.fmt (positionAfter db gpu (i * limit)))) (m i)).1 := by
  induction i generalizing r with
  | zero =>
    rw [Nat.zero_mul]
    exact ⟨Nat.zero_le _, (Option.some.inj h).symm⟩
  | succ i ih =>
    rw [pageRequest] at h
    split at h
    · rename_i rows cursor hprev
      obtain ⟨hi, hanswer⟩ := ih hprev
      -- there is a cursor, so the page before was full and the cursor is the position after it
      obtain ⟨-, hnext⟩ := answered_page hlimit hi (hfixed i) hanswer.symm
      rw [Nat.succ_mul]
      by_cases hmore : i * limit + limit ≤ (priceHistory db gpu).length
      · rw [if_pos hmore] at hnext
        rw [← hnext]
        exact ⟨hmore, (Option.some.inj h).symm⟩
      · rw [if_neg hmore] at hnext
        cases hnext
    · cases h

/-- A request that is answered has the page at its offset, and a cursor exactly if the page is
    full. -/
theorem pageRequest_answered (hlimit : 1 ≤ limit) (hfixed : ∀ i, (m i).world.db = db) {i : Nat}
    {rows : List PageRow} {next : Option String}
    (h : pageRequest env gpu.val limit choices m i = some (.ok (rows, next))) :
    rows = offsetPage env.fmt db gpu (i * limit) limit
      ∧ (next = none ↔ (priceHistory db gpu).length < i * limit + limit) := by
  obtain ⟨hi, hanswer⟩ := pageRequest_eq hlimit hfixed h
  obtain ⟨hrows, hnext⟩ := answered_page hlimit hi (hfixed i) hanswer.symm
  refine ⟨hrows, ?_⟩
  rw [hnext]
  by_cases hmore : i * limit + limit ≤ (priceHistory db gpu).length
  · have hget : (priceHistory db gpu)[i * limit + limit - 1]? = some _ :=
      List.getElem?_eq_getElem (by omega)
    rw [if_pos hmore, positionAfter, after, if_neg (by omega), hget]
    exact ⟨(fun h => nomatch h), fun h => absurd hmore (not_le.mpr h)⟩
  · rw [if_neg hmore]
    exact ⟨fun _ => not_le.mp hmore, fun _ => rfl⟩

/-- From a server that answers, request number `i` is made exactly if `i` full pages come before. -/
theorem pageRequest_made (env : Env) (gpu : Integer) (hlimit : 1 ≤ limit)
    (hfixed : ∀ i, (m i).world.db = db) (hanswers : ∀ i n, (choices i n).Answers)
    (hfits : limit < 9223372036854775808) (i : Nat) :
    if i * limit ≤ (priceHistory db gpu).length then
      ∃ rows next, pageRequest env gpu.val limit choices m i = some (.ok (rows, next))
    else pageRequest env gpu.val limit choices m i = none := by
  split
  · rename_i hi
    induction i with
    | zero =>
      obtain ⟨rows, next, h⟩ := page_isOk env gpu hfits (hanswers 0) none (m 0)
      exact ⟨rows, next, congrArg some h⟩
    | succ i ih =>
      rw [Nat.succ_mul] at hi
      obtain ⟨rows, next, hprev⟩ := ih (by omega)
      obtain ⟨-, hnext⟩ := pageRequest_answered hlimit hfixed hprev
      cases next with
      | none => exact absurd (hnext.mp rfl) (not_lt.mpr hi)
      | some cursor =>
        have hmade : pageRequest env gpu.val limit choices m (i + 1)
            = some (runSvc env (choices (i + 1)) (pricePage env gpu.val limit (some cursor))
                (m (i + 1))).1 := by
          rw [pageRequest, hprev]
        obtain ⟨-, hasked⟩ := pageRequest_eq hlimit hfixed hmade
        obtain ⟨rows', next', h⟩ := page_isOk env gpu hfits (hanswers (i + 1))
          (positionAfter db gpu ((i + 1) * limit)) (m (i + 1))
        exact ⟨rows', next', by rw [hmade, hasked, h]⟩
  · rename_i hi
    cases h : pageRequest env gpu.val limit choices m i with
    | none => rfl
    | some r => exact absurd (pageRequest_eq hlimit hfixed h).1 hi

end Request

/-- **Keyset paging is OFFSET paging** on a history that stays as it is: every page is the slice of
    the history at its number, the cursor is missing exactly on a page that is not full, and from a
    server that answers and takes the limit the client makes `n / limit + 1` requests, the last of
    which is for an empty page when the limit divides `n`. -/
theorem keyset_equals_offset (env : Env) (db : Database) (gpu : Integer) (limit : Nat)
    (hlimit : 1 ≤ limit) (choices : Nat → Nat → Choice) (m : Nat → Machine)
    (hfixed : ∀ i, (m i).world.db = db) :
    (∀ i rows next, pageRequest env gpu.val limit choices m i = some (.ok (rows, next)) →
        rows = offsetPage env.fmt db gpu (i * limit) limit ∧ (next = none ↔ rows.length < limit))
      ∧ ((∀ i n, (choices i n).Answers) → limit < 9223372036854775808 →
        (∀ i < (priceHistory db gpu).length / limit + 1,
            ∃ rows next, pageRequest env gpu.val limit choices m i = some (.ok (rows, next)))
          ∧ ∀ i ≥ (priceHistory db gpu).length / limit + 1,
            pageRequest env gpu.val limit choices m i = none)
      ∧ (limit ∣ (priceHistory db gpu).length →
        offsetPage env.fmt db gpu ((priceHistory db gpu).length / limit * limit) limit = []) := by
  refine ⟨fun i rows next h => ?_, fun hanswers hfits => ?_, fun hdvd => ?_⟩
  · obtain ⟨hi, -⟩ := pageRequest_eq hlimit hfixed h
    obtain ⟨hrows, hnext⟩ := pageRequest_answered hlimit hfixed h
    refine ⟨hrows, ?_⟩
    rw [hnext, hrows, length_offsetPage]
    omega
  · have hmade := pageRequest_made env gpu hlimit hfixed hanswers hfits
    refine ⟨fun i hi => ?_, fun i hi => ?_⟩
    · have hle := (Nat.le_div_iff_mul_le hlimit).mp (Nat.lt_succ_iff.mp hi)
      simpa only [if_pos hle] using hmade i
    · have hlt := (Nat.div_lt_iff_lt_mul hlimit).mp (Nat.lt_of_succ_le hi)
      simpa only [if_neg (not_le.mpr hlt)] using hmade i
  · rw [← List.length_eq_zero_iff, length_offsetPage, Nat.div_mul_cancel hdvd]
    omega

/-- The history of the only price, one row a page. -/
theorem keyset_equals_offset_tiny :
    (∀ i rows next, pageRequest env 1 1 (fun _ _ => .calm) (fun _ => ⟨worldOf tinyDb, {}⟩) i
          = some (.ok (rows, next)) →
        rows = offsetPage env.fmt tinyDb ⟨1, by decide⟩ (i * 1) 1
          ∧ (next = none ↔ rows.length < 1))
      ∧ ((∀ i n, ((fun _ _ => .calm : Nat → Nat → Choice) i n).Answers) → 1 < 9223372036854775808 →
        (∀ i < (priceHistory tinyDb ⟨1, by decide⟩).length / 1 + 1, ∃ rows next,
            pageRequest env 1 1 (fun _ _ => .calm) (fun _ => ⟨worldOf tinyDb, {}⟩) i
              = some (.ok (rows, next)))
          ∧ ∀ i ≥ (priceHistory tinyDb ⟨1, by decide⟩).length / 1 + 1,
            pageRequest env 1 1 (fun _ _ => .calm) (fun _ => ⟨worldOf tinyDb, {}⟩) i = none)
      ∧ (1 ∣ (priceHistory tinyDb ⟨1, by decide⟩).length →
        offsetPage env.fmt tinyDb ⟨1, by decide⟩
          ((priceHistory tinyDb ⟨1, by decide⟩).length / 1 * 1) 1 = []) :=
  keyset_equals_offset env tinyDb ⟨1, by decide⟩ 1 le_rfl (fun _ _ => .calm)
    (fun _ => ⟨worldOf tinyDb, {}⟩) fun _ => rfl

end GpuIndex
