/-
  The pagination comparison of the tuning script.

  `offset_vs_keyset` times two queries that are meant to fetch one page, `OFFSET :depth` and the
  rows below a cursor, and looks the cursor up with a third query, `LIMIT 1 OFFSET :depth`.  That
  query finds the first row of the page, not the row before it, and the cursor's own row is not
  below the cursor.  So the two pages are one row apart, at every depth:
  **`comparison_other_page`**.
-/
import GpuIndex.Services.OffsetPaging

namespace GpuIndex

open Calendar Keyset OrderBy

/-! ## The statements -/

/-- A result row of `SELECT id, observed_at`. -/
structure PositionRow where
  id : BigInteger
  observedAt : Instant
  deriving DecidableEq

def positionRow (p : PricePoint) : PositionRow := ⟨p.id, p.observedAt⟩

/-- `SELECT id, observed_at FROM price_points WHERE gpu_model_id = :g` with `ORDER BY observed_at
    DESC, id DESC`, and `AND (observed_at, id) < (:ts, :id)` when there is a cursor. -/
def positionsSql (plan : Plan) (db : Database) (gpuModelId : Integer)
    (cursor : Option (Instant × BigInteger)) : List PositionRow :=
  (keysetSelected plan db gpuModelId cursor).map positionRow

/-- The statements of the comparison. -/
inductive TuneStatement where
  /-- `{base} LIMIT {limit} OFFSET {depth}` -/
  | offset (gpuId : Int) (limit : Nat) (depth : Int)
  /-- `keyset_sql`, with its `LIMIT 50` -/
  | keyset (gpuId : Int) (ts : Instant) (id : BigInteger)
  deriving DecidableEq

/-- An `OFFSET` in the text of a statement: the server refuses a negative one, and one that is no
    `BIGINT`. -/
def offsetClause (depth : Int) : Except DbError Nat :=
  if 0 ≤ depth ∧ depth < 9223372036854775808 then .ok depth.toNat else .error .dataError

/-- A statement on the database as it is. -/
def TuneStatement.eval (plan : Plan) (db : Database) :
    TuneStatement → Except DbError (List PositionRow)
  | .offset gpuId limit depth => do
    let gpuId ← bindInteger gpuId
    let skipped ← offsetClause depth
    return ((positionsSql plan db gpuId none).drop skipped).take limit
  | .keyset gpuId ts id => do
    let gpuId ← bindInteger gpuId
    return (positionsSql plan db gpuId (some (ts, id))).take 50

/-! ## The calls -/

/-- What the comparison asks of the outside. -/
inductive TuneCall where
  /-- `time.perf_counter()` -/
  | perfCounter
  /-- `session.execute(text(sql), params)` -/
  | execute (stmt : TuneStatement)

/-- The answer to a call; readings of the clock are exact. -/
abbrev TuneCall.Ans : TuneCall → Type
  | .perfCounter => ℚ
  | .execute _ => Except DbError (List PositionRow)

/-- The signature of the comparison. -/
abbrev tune : Sig := ⟨TuneCall, TuneCall.Ans⟩

/-- A program of the tuning script; it may raise. -/
abbrev Tune (α : Type) := ExceptT Exn (Prog tune) α

/-- Everything the outside decides about one call. -/
structure TuneChoice where
  clock : ℚ
  dbError : Option DbError
  plan : Plan

/-- The server carries out what it is asked. -/
def TuneChoice.Answers (c : TuneChoice) : Prop := c.dbError = none

/-- A statement that was answered, with its rows. -/
structure Fetched where
  stmt : TuneStatement
  rows : List PositionRow
  deriving DecidableEq

/-- A statement under its choice. -/
def TuneStatement.exec (db : Database) (c : TuneChoice) (stmt : TuneStatement) :
    Except DbError (List PositionRow) :=
  match c.dbError with
  | some e => .error e
  | none => stmt.eval c.plan db

/-- A call on a table that stays as it is; what was fetched is on record, latest first (ghost). -/
def TuneCall.exec (db : Database) (c : TuneChoice) :
    (call : TuneCall) → List Fetched → call.Ans × List Fetched
  | .perfCounter, log => (c.clock, log)
  | .execute stmt, log =>
    (stmt.exec db c, match stmt.exec db c with
      | .ok rows => ⟨stmt, rows⟩ :: log
      | .error _ => log)

/-- Run a program on a table, the outside deciding by the sequence of choices. -/
def runTune {α : Type} (db : Database) (choices : Nat → TuneChoice) (p : Tune α) :
    Except Exn α × List Fetched :=
  let r := p.run.run (Prog.answer (S := tune) (TuneCall.exec db) choices) ([], 0)
  (r.1, r.2.1)

/-! ## The comparison -/

/-- `time.perf_counter()` -/
def perfCounter : Tune ℚ := ExceptT.lift (Prog.ask (S := tune) .perfCounter)

/-- Execute a statement; a failure is raised. -/
def execute (stmt : TuneStatement) : Tune (List PositionRow) := do
  match ← ExceptT.lift (Prog.ask (S := tune) (.execute stmt)) with
  | .ok rows => return rows
  | .error e => throw (.db e)

/-- `statistics.median` -/
def statisticsMedian (data : List ℚ) : Except Exn ℚ :=
  let sorted := (Order.asc (id : ℚ → ℚ)).sort data
  let n := sorted.length
  if n % 2 = 1 then
    match sorted[n / 2]? with
    | some x => .ok x
    | none => .error .valueError
  else
    match sorted[n / 2 - 1]?, sorted[n / 2]? with
    | some x, some y => .ok ((x + y) / 2)
    | _, _ => .error .valueError

/-- The loop of `timed`: the wall times in milliseconds. -/
def timedRuns (stmt : TuneStatement) : Nat → Tune (List ℚ)
  | 0 => return []
  | runs + 1 => do
    let start ← perfCounter
    let _ ← execute stmt
    let stop ← perfCounter
    let times ← timedRuns stmt runs
    return (stop - start) * 1000 :: times

/-- `timed` -/
def timed (stmt : TuneStatement) (runs : Nat := 5) : Tune ℚ := do
  let times ← timedRuns stmt runs
  ExceptT.mk (pure (statisticsMedian times))

/-- `PAGINATION_DEPTH` -/
def paginationDepth : Int := 50000

/-- `offset_vs_keyset` -/
def offsetVsKeyset (gpuId : Int) (depth : Int := paginationDepth) : Tune (ℚ × Option ℚ) := do
  let offMs ← timed (.offset gpuId 50 depth) 3
  let rows ← execute (.offset gpuId 1 depth)
  match rows.head? with
  | none => return (offMs, none)
  | some row =>
    let keyMs ← timed (.keyset gpuId row.observedAt row.id) 3
    return (offMs, some keyMs)

/-! ## What the statements fetch -/

/-- The page of 50 rows after so many rows of the history. -/
def positionsPage (db : Database) (gpu : Integer) (skipped limit : Nat) : List PositionRow :=
  (((priceHistory db gpu).drop skipped).take limit).map positionRow

section Statements

variable {db : Database} {gpu : Integer} {k limit : Nat} (plan : Plan)

theorem eval_offset (hk : (k : Int) < 9223372036854775808) :
    (TuneStatement.offset gpu.val limit k).eval plan db = .ok (positionsPage db gpu k limit) := by
  have hselected : keysetSelected plan db gpu none = priceHistory db gpu :=
    keysetSelected_after plan db gpu (Nat.zero_le _)
  have hclause : offsetClause k = .ok k := if_pos ⟨by omega, hk⟩
  simp only [TuneStatement.eval, bindInteger, Integer.ofInt?_val, hclause]
  show Except.ok _ = Except.ok _
  rw [positionsSql, hselected, ← List.map_drop, ← List.map_take, positionsPage]

/-- A depth the server refuses fetches nothing. -/
theorem eval_offset_error {depth : Int} (hdepth : ¬ depth < 9223372036854775808) (e) :
    (TuneStatement.offset gpu.val limit depth).eval plan db ≠ .ok e := by
  have hclause : offsetClause depth = .error .dataError := if_neg fun h => hdepth h.2
  simp only [TuneStatement.eval, bindInteger, Integer.ofInt?_val, hclause]
  rintro ⟨⟩

theorem eval_keyset (hk : k ≤ (priceHistory db gpu).length) {ts : Instant} {id : BigInteger}
    (hposition : positionAfter db gpu k = some (ts, id)) :
    (TuneStatement.keyset gpu.val ts id).eval plan db = .ok (positionsPage db gpu k 50) := by
  simp only [TuneStatement.eval, bindInteger, Integer.ofInt?_val]
  show Except.ok _ = Except.ok _
  rw [positionsSql, ← hposition, keysetSelected_after plan db gpu hk, ← List.map_take,
    positionsPage]

/-- The probe finds the first row of the page: its position is the one after it. -/
theorem head?_probe {row : PositionRow} (h : (positionsPage db gpu k 1).head? = some row) :
    k < (priceHistory db gpu).length
      ∧ positionAfter db gpu (k + 1) = some (row.observedAt, row.id) := by
  rw [positionsPage, List.head?_map, List.head?_take, if_neg one_ne_zero, List.head?_drop] at h
  obtain ⟨p, hp, rfl⟩ := Option.map_eq_some_iff.mp h
  refine ⟨(List.getElem?_eq_some_iff.mp hp).1, ?_⟩
  rw [positionAfter, after, if_neg (Nat.succ_ne_zero k), Nat.add_sub_cancel, hp]
  rfl

/-- **Pages one row apart** are not the same. -/
theorem positionsPage_ne_next (hk : k < (priceHistory db gpu).length) :
    positionsPage db gpu k 50 ≠ positionsPage db gpu (k + 1) 50 := by
  intro heq
  refine (descending_priceHistory db gpu).page_ne_next hk (by decide : 1 ≤ 50) ?_
  -- the key of a row can be read off its position
  have hkey : rowKey = (fun r : PositionRow => toLex (r.observedAt, r.id)) ∘ positionRow := rfl
  rw [hkey, ← List.map_map, ← List.map_map]
  exact congrArg _ heq

end Statements

/-! ## Runs -/

section Runs

variable {db : Database} {C : TuneChoice → Prop} {log : List Fetched} {stmt : TuneStatement}
  {P : Fetched → Prop}

/-- A statement answers or fails. -/
theorem wp_execute {Q : Except Exn (List PositionRow) → List Fetched → Prop} :
    Prog.wp (S := tune) C (TuneCall.exec db) (execute stmt).run Q log
      ↔ ∀ c, C c → match stmt.exec db c with
        | .ok rows => Q (.ok rows) (⟨stmt, rows⟩ :: log)
        | .error e => Q (.error (.db e)) log := by
  rw [execute, Prog.wp_run_bind]
  refine forall₂_congr fun c _ => ?_
  simp only [TuneCall.exec]
  rcases stmt.exec db c with e | rows <;> exact Iff.rfl

/-- What is answered is what the statement evaluates to. -/
theorem TuneStatement.exec_ok {c : TuneChoice} {rows : List PositionRow}
    (h : stmt.exec db c = .ok rows) : stmt.eval c.plan db = .ok rows := by
  unfold TuneStatement.exec at h
  split at h
  · cases h
  · exact h

/-- The calls of timing one statement. -/
def TimingCall (stmt : TuneStatement) (call : TuneCall) : Prop :=
  call = .perfCounter ∨ call = .execute stmt

theorem only_timed (runs : Nat) : (timed stmt runs).run.Only (TimingCall stmt) := by
  have hclock : perfCounter.run.Only (TimingCall stmt) := ⟨.inl rfl, fun _ => trivial⟩
  have hexecute : (execute stmt).run.Only (TimingCall stmt) := by
    refine ⟨.inr rfl, fun ans => ?_⟩
    cases ans with
    | error e => exact trivial
    | ok rows => exact trivial
  have hruns : (timedRuns stmt runs).run.Only (TimingCall stmt) := by
    induction runs with
    | zero => exact trivial
    | succ runs ih =>
      exact Prog.only_run_bind hclock fun _ => Prog.only_run_bind hexecute fun _ =>
        Prog.only_run_bind hclock fun _ => Prog.only_run_bind ih fun _ => trivial
  exact Prog.only_run_bind hruns fun _ => trivial

/-- Timing a statement records what the statement evaluates to, and nothing else. -/
theorem wp_timed_keeps (hstmt : ∀ plan rows, stmt.eval plan db = .ok rows → P ⟨stmt, rows⟩)
    (runs : Nat) (hlog : ∀ f ∈ log, P f) :
    Prog.wp (S := tune) C (TuneCall.exec db) (timed stmt runs).run
      (fun _ log' => ∀ f ∈ log', P f) log := by
  refine Prog.wp_of_only (P := fun log => ∀ f ∈ log, P f) ?_ (only_timed runs) hlog
  rintro c call log' - (rfl | rfl) h
  · exact h
  · simp only [TuneCall.exec]
    split
    · rename_i rows hexec
      exact List.forall_mem_cons.mpr ⟨hstmt c.plan rows (TuneStatement.exec_ok hexec), h⟩
    · exact h

/-- Timings that were taken have a median. -/
theorem statisticsMedian_isOk {data : List ℚ} (h : data ≠ []) :
    ∃ ms, statisticsMedian data = .ok ms := by
  have hpos : 0 < ((Order.asc (id : ℚ → ℚ)).sort data).length := by
    rw [List.length_pos_iff]
    exact mt (Order.sort_eq_nil _).mp h
  unfold statisticsMedian
  generalize (Order.asc (id : ℚ → ℚ)).sort data = sorted at hpos
  dsimp only
  split
  · rw [List.getElem?_eq_getElem (by omega)]
    exact ⟨_, rfl⟩
  · rw [List.getElem?_eq_getElem (show sorted.length / 2 - 1 < sorted.length by omega),
      List.getElem?_eq_getElem (show sorted.length / 2 < sorted.length by omega)]
    exact ⟨_, rfl⟩

/-- A server that answers is timed, and the answer is on record. -/
theorem wp_timed_answers {rows : List PositionRow} (hstmt : ∀ plan, stmt.eval plan db = .ok rows)
    (runs : Nat) :
    Prog.wp (S := tune) TuneChoice.Answers (TuneCall.exec db) (timed stmt (runs + 1)).run
      (fun r log' => (∃ ms, r = .ok ms) ∧ ⟨stmt, rows⟩ ∈ log' ∧ log ⊆ log') log := by
  have hexecute (log : List Fetched) : Prog.wp (S := tune) TuneChoice.Answers (TuneCall.exec db)
      (execute stmt).run (fun r log' => r = .ok rows ∧ log' = ⟨stmt, rows⟩ :: log) log := by
    rw [wp_execute]
    intro c hc
    have hexec : stmt.exec db c = .ok rows := by
      rw [TuneStatement.exec, show c.dbError = none from hc]
      exact hstmt c.plan
    rw [hexec]
    exact ⟨rfl, rfl⟩
  have hruns (runs : Nat) (log : List Fetched) :
      Prog.wp (S := tune) TuneChoice.Answers (TuneCall.exec db) (timedRuns stmt runs).run
        (fun r log' => (∃ times : List ℚ, r = .ok times ∧ times.length = runs)
          ∧ (0 < runs → ⟨stmt, rows⟩ ∈ log') ∧ log ⊆ log') log := by
    induction runs generalizing log with
    | zero => exact ⟨⟨[], rfl, rfl⟩, fun h => absurd h (lt_irrefl 0), List.Subset.refl _⟩
    | succ runs ih =>
      intro _ _
      refine Prog.wp_run_seq (hexecute log) ?_ fun e _ h => nomatch h.1
      rintro _ log₁ ⟨-, rfl⟩
      intro _ _
      refine Prog.wp_run_seq (ih (⟨stmt, rows⟩ :: log)) ?_ ?_
      · rintro times log₂ ⟨⟨_, htimes, hlength⟩, -, hsub⟩
        cases htimes
        refine ⟨⟨_, rfl, by rw [List.length_cons, hlength]⟩, fun _ => hsub List.mem_cons_self, ?_⟩
        exact fun f hf => hsub (List.mem_cons_of_mem _ hf)
      · rintro e _ ⟨⟨_, h, -⟩, -⟩
        cases h
  refine Prog.wp_run_seq (hruns (runs + 1) log) ?_ ?_
  · rintro times log' ⟨⟨_, htimes, hlength⟩, hmem, hsub⟩
    cases htimes
    have htaken : times ≠ [] := by
      rintro rfl
      cases hlength
    obtain ⟨ms, hms⟩ := statisticsMedian_isOk htaken
    exact ⟨⟨ms, hms⟩, hmem (Nat.succ_pos runs), hsub⟩
  · rintro e _ ⟨⟨_, h, -⟩, -⟩
    cases h

end Runs

/-! ## The two pages -/

/-- One page both ways: the two queries that are timed have returned the same list. -/
def FetchedSame (gpuId depth : Int) (log : List Fetched) : Prop :=
  ∃ page, ⟨.offset gpuId 50 depth, page⟩ ∈ log ∧ ∃ ts id, ⟨.keyset gpuId ts id, page⟩ ∈ log

/-- What was fetched, of the two queries: the page at the depth, and the page one row further on. -/
structure RowApart (db : Database) (gpu : Integer) (k : Nat) (f : Fetched) : Prop where
  offset : f.stmt = .offset gpu.val 50 k → f.rows = positionsPage db gpu k 50
  keyset : ∀ ts id, f.stmt = .keyset gpu.val ts id → f.rows = positionsPage db gpu (k + 1) 50

section Comparison

variable {db : Database} {gpu : Integer} {k : Nat}

theorem rowApart_offset (plan : Plan) (limit : Nat) (rows : List PositionRow)
    (h : (TuneStatement.offset gpu.val limit k).eval plan db = .ok rows) :
    RowApart db gpu k ⟨.offset gpu.val limit k, rows⟩ where
  offset heq := by
    cases heq
    by_cases hk : (k : Int) < 9223372036854775808
    · rw [eval_offset plan hk] at h
      exact (Except.ok.inj h).symm
    · exact absurd h (eval_offset_error plan hk rows)
  keyset _ _ heq := by cases heq

/-- **Every comparison** records the two pages one row apart, whatever the outside does. -/
theorem wp_offsetVsKeyset_rowApart (C : TuneChoice → Prop) :
    Prog.wp (S := tune) C (TuneCall.exec db) (offsetVsKeyset gpu.val k).run
      (fun _ log => ∀ f ∈ log, RowApart db gpu k f) [] := by
  refine Prog.wp_run_seq (wp_timed_keeps (fun plan => rowApart_offset plan 50) 3
    fun _ h => absurd h List.not_mem_nil) (fun offMs log hlog => ?_) fun _ _ h => h
  rw [Prog.wp_run_bind, wp_execute]
  intro c _
  split
  · rename_i rows hexec
    have heval := TuneStatement.exec_ok hexec
    have hprobe : ∀ f ∈ (⟨.offset gpu.val 1 k, rows⟩ :: log : List Fetched), RowApart db gpu k f :=
      List.forall_mem_cons.mpr ⟨rowApart_offset c.plan 1 rows heval, hlog⟩
    dsimp only
    split
    · exact hprobe
    · rename_i row hrow
      -- the row that the probe found is the first of the page, so the cursor is the position after
      -- it
      have hk : (k : Int) < 9223372036854775808 := by
        by_contra hk
        exact eval_offset_error c.plan hk rows heval
      rw [eval_offset c.plan hk] at heval
      rw [← Except.ok.inj heval] at hrow
      obtain ⟨hdeep, hposition⟩ := head?_probe hrow
      refine Prog.wp_run_seq (wp_timed_keeps (fun plan page h => ?_) 3 hprobe) (fun _ _ h => h)
        fun _ _ h => h
      rw [eval_keyset plan hdeep hposition] at h
      exact ⟨fun heq => (nomatch heq), fun _ _ _ => (Except.ok.inj h).symm⟩
  · exact hlog

/-- A server that answers is asked for both pages. -/
theorem wp_offsetVsKeyset_answers (hfits : (k : Int) < 9223372036854775808)
    (hdeep : k < (priceHistory db gpu).length) :
    Prog.wp (S := tune) TuneChoice.Answers (TuneCall.exec db) (offsetVsKeyset gpu.val k).run
      (fun r log => (∃ offMs keyMs, r = .ok (offMs, some keyMs))
        ∧ ⟨.offset gpu.val 50 k, positionsPage db gpu k 50⟩ ∈ log
        ∧ ∃ ts id, ⟨.keyset gpu.val ts id, positionsPage db gpu (k + 1) 50⟩ ∈ log) [] := by
  refine Prog.wp_run_seq (wp_timed_answers (fun plan => eval_offset plan hfits) 2) ?_ ?_
  · rintro offMs log ⟨-, hoffset, -⟩
    rw [Prog.wp_run_bind, wp_execute]
    intro c hc
    have hexec : (TuneStatement.offset gpu.val 1 k).exec db c = .ok (positionsPage db gpu k 1) := by
      rw [TuneStatement.exec, show c.dbError = none from hc]
      exact eval_offset c.plan hfits
    rw [hexec]
    dsimp only
    split
    · rename_i hnone
      rw [positionsPage, List.head?_map, List.head?_take, if_neg one_ne_zero, List.head?_drop,
        List.getElem?_eq_getElem hdeep] at hnone
      cases hnone
    · rename_i row hrow
      obtain ⟨-, hposition⟩ := head?_probe hrow
      refine Prog.wp_run_seq
        (wp_timed_answers (fun plan => eval_keyset plan hdeep hposition) 2) ?_ ?_
      · rintro keyMs log' ⟨-, hkeyset, hsub⟩
        exact ⟨⟨offMs, keyMs, rfl⟩, hsub (List.mem_cons_of_mem _ hoffset), _, _, hkeyset⟩
      · rintro e _ ⟨⟨_, h⟩, -⟩
        cases h
  · rintro e _ ⟨⟨_, h⟩, -⟩
    cases h

end Comparison

/-- **The comparison never fetches one page both ways**, on any table that has a row at the depth:
    the keyset query returns the page one row further on.  A server that answers is timed on
    both. -/
theorem comparison_other_page (db : Database) (gpu : Integer) (depth : Int) (hdepth : 0 ≤ depth)
    (hdeep : depth < (db.pricePoints.countP fun p => p.gpuModelId = gpu))
    (choices : Nat → TuneChoice) :
    ¬ FetchedSame gpu.val depth (runTune db choices (offsetVsKeyset gpu.val depth)).2
      ∧ ((∀ n, (choices n).Answers) → depth < 9223372036854775808 →
        (∃ offMs keyMs, (runTune db choices (offsetVsKeyset gpu.val depth)).1
            = .ok (offMs, some keyMs))
          ∧ ⟨.offset gpu.val 50 depth, positionsPage db gpu depth.toNat 50⟩
              ∈ (runTune db choices (offsetVsKeyset gpu.val depth)).2
          ∧ ∃ ts id, ⟨.keyset gpu.val ts id, positionsPage db gpu (depth.toNat + 1) 50⟩
              ∈ (runTune db choices (offsetVsKeyset gpu.val depth)).2) := by
  obtain ⟨k, rfl⟩ := Int.eq_ofNat_of_zero_le hdepth
  have hlength : (priceHistory db gpu).length
      = db.pricePoints.countP fun p => p.gpuModelId = gpu := by
    rw [priceHistory, (keysetOrder.perm_sort _).length_eq, List.countP_eq_length_filter]
  have hk : k < (priceHistory db gpu).length := by omega
  rw [Int.toNat_natCast]
  constructor
  · rintro ⟨page, hoffset, ts, id, hkeyset⟩
    have hapart : ∀ f ∈ (runTune db choices (offsetVsKeyset gpu.val k)).2, RowApart db gpu k f :=
      Prog.run_of_wp (fun _ => trivial) 0 (wp_offsetVsKeyset_rowApart fun _ => True)
    have hpage := (hapart _ hoffset).offset rfl
    have hnext := (hapart _ hkeyset).keyset ts id rfl
    exact positionsPage_ne_next hk (hpage.symm.trans hnext)
  · intro hanswers hfits
    exact Prog.run_of_wp hanswers 0 (wp_offsetVsKeyset_answers hfits hk)

/-- Nothing fails, and the clock stands still. -/
def TuneChoice.calm : TuneChoice := ⟨0, none, .stored⟩

/-- The comparison at the only price of a GPU. -/
def comparisonOfTiny : List Fetched :=
  (runTune tinyDb (fun _ => .calm) (offsetVsKeyset 1 0)).2

theorem comparison_other_page_tiny :
    ¬ FetchedSame 1 0 comparisonOfTiny
      ∧ (∃ offMs keyMs, (runTune tinyDb (fun _ => .calm) (offsetVsKeyset 1 0)).1
          = .ok (offMs, some keyMs))
      ∧ ⟨.offset 1 50 0, positionsPage tinyDb ⟨1, by decide⟩ 0 50⟩ ∈ comparisonOfTiny
      ∧ ∃ ts id, ⟨.keyset 1 ts id, positionsPage tinyDb ⟨1, by decide⟩ 1 50⟩
          ∈ comparisonOfTiny := by
  obtain ⟨hapart, hanswered⟩ :=
    comparison_other_page tinyDb ⟨1, by decide⟩ 0 le_rfl (by decide) fun _ => .calm
  exact ⟨hapart, hanswered (fun _ => rfl) (by decide)⟩

/-- The page has the price, the keyset query returns nothing. -/
theorem keyset_misses_row :
    comparisonOfTiny.map (fun f => (f.stmt, f.rows.length))
        = List.replicate 3 (.keyset 1 newYear ⟨1, by decide⟩, 0)
          ++ (.offset 1 1 0, 1) :: List.replicate 3 (.offset 1 50 0, 1)
      ∧ ¬ FetchedSame 1 0 comparisonOfTiny := by
  have hlengths : comparisonOfTiny.map (fun f => (f.stmt, f.rows.length))
      = List.replicate 3 (.keyset 1 newYear ⟨1, by decide⟩, 0)
        ++ (.offset 1 1 0, 1) :: List.replicate 3 (.offset 1 50 0, 1) := by
    with_unfolding_all rfl
  refine ⟨hlengths, ?_⟩
  rintro ⟨page, hoffset, ts, id, hkeyset⟩
  have hone := List.mem_map_of_mem (f := fun f : Fetched => (f.stmt, f.rows.length)) hoffset
  have hnone := List.mem_map_of_mem (f := fun f : Fetched => (f.stmt, f.rows.length)) hkeyset
  rw [hlengths] at hone hnone
  have hpage : page.length = 1 := by simpa using hone
  have hempty : (ts = newYear ∧ id = ⟨1, by decide⟩) ∧ page = [] := by simpa using hnone
  rw [hempty.2] at hpage
  cases hpage

end GpuIndex
