/-
  One batch of the ingest route, on a server that answers.

  `ingest_prices` reports an unknown name by item, and sends all other items in one statement, which
  is carried out as a whole or not at all (`Database.storeRows`).  `wp_ingest_answers` is the
  handler's specification in terms of that statement; when the statement succeeds is then a question
  about the items (`storeRows_isOk`).
-/
import GpuIndex.Api.StoredPrices

namespace GpuIndex

open Calendar

/-! ## The statement of a batch -/

/-- Bind the rows and insert them. -/
def Database.storeRows (env : Env) (db : Database) (rows : List PriceParams) :
    Except DbError Database := do
  let values ← bindRows env rows
  db.insertPrices values

/-- How a batch ends: its rows are stored, or their statement fails and nothing has changed. -/
inductive BatchEnd {α : Type} (env : Env) (db : Database) (payload : List PricePointIn) :
    Except Exn α → Database → Prop where
  | stored {rows : List PriceParams} {db' : Database} (a : α)
      (resolved : List.Forall₂ (Resolves db) (payload.filter (Known db)) rows)
      (stored : db.storeRows env rows = .ok db') : BatchEnd env db payload (.ok a) db'
  | failed {rows : List PriceParams} {e : DbError}
      (resolved : List.Forall₂ (Resolves db) (payload.filter (Known db)) rows)
      (failed : db.storeRows env rows = .error e) : BatchEnd env db payload (.error (.db e)) db

theorem BatchEnd.ok {α β : Type} {env : Env} {db db' : Database}
    {payload : List PricePointIn} {a : α} (h : BatchEnd env db payload (.ok a) db')
    (b : β) : BatchEnd env db payload (.ok b) db' := by
  cases h with
  | stored _ hrows hstored => exact .stored b hrows hstored

theorem BatchEnd.error {α β : Type} {env : Env} {db db' : Database} {payload : List PricePointIn}
    {e : Exn} (h : BatchEnd env db payload (.error e : Except Exn α) db') :
    BatchEnd env db payload (.error e : Except Exn β) db' := by
  cases h with
  | failed hrows hfailed => exact .failed hrows hfailed

section Answers

variable {env : Env} {α : Type} {Q : Except Exn α → Machine → Prop} {m : Machine}

theorem wp_resolveLookup_answers :
    Svc.wp env Choice.Answers resolveLookup (fun r m' => ∃ c, r = .ok c ∧ c.Of m.world.db
      ∧ m'.world.db = m.world.db ∧ m'.session.pending = m.session.pending) m := by
  refine Svc.wp_query_answers (fun plan gpus m' hgpus heffect => ?_) (fun _ _ h => nomatch h)
    (fun _ _ _ _ h => nomatch h)
  cases hgpus
  cases heffect
  refine Svc.wp_query_answers (fun plan' providers m' hproviders heffect => ?_)
    (fun _ _ h => nomatch h) (fun _ _ _ _ h => nomatch h)
  cases hproviders
  cases heffect
  exact ⟨_, rfl, ⟨plan.gpuModels.perm _, List.Perm.refl _⟩, rfl, rfl⟩

/-- The statement answers as storing the rows at once would. -/
theorem eval_insertPrices (env : Env) (plan : Plan) (db : Database) (rows : List PriceParams) :
    (Statement.insertPrices rows).eval env plan db = (db.storeRows env rows).map fun _ => () := by
  show (bindRows env rows >>= fun values => db.insertPrices values >>= fun _ => _)
    = (bindRows env rows >>= fun values => db.insertPrices values).map _
  cases bindRows env rows with
  | error e => rfl
  | ok values =>
    show (db.insertPrices values >>= fun _ => _) = (db.insertPrices values).map _
    cases db.insertPrices values <;> rfl

/-- Rows that can be stored are bound, and then inserted. -/
theorem Database.storeRows_eq_ok {db db' : Database} {rows : List PriceParams}
    (h : db.storeRows env rows = .ok db') :
    ∃ values, bindRows env rows = .ok values ∧ db.insertPrices values = .ok db' := by
  unfold Database.storeRows at h
  exact bind_ok h

/-- The commit of one statement's rows stores them. -/
theorem commit_inserted {values : List PriceValues} {db : Database} {op : Op}
    {ans : op.Ans} (hpending : m.session.pending = [])
    (hdb : m.world.db.insertPrices values = .ok db) :
    Statement.commit.effect env ((m.insert values).record op ans)
      = .ok (((m.insert values).record op ans).commit db) := by
  rw [Statement.effect]
  simp only [Machine.record, Machine.insert, hpending, List.nil_append, hdb]
  rfl

/-- Inserting and committing rows stores them or fails with nothing changed. -/
theorem wp_insertCommit_answers {rows : List PriceParams} {p : Svc α}
    (hpending : m.session.pending = [])
    (hok : ∀ m', m.world.db.storeRows env rows = .ok m'.world.db →
      Svc.wp env Choice.Answers p Q m')
    (herror : ∀ e m', m.world.db.storeRows env rows = .error e → m'.world.db = m.world.db →
      Q (.error (.db e)) m') :
    Svc.wp env Choice.Answers (do query (.insertPrices rows); query .commit; p) Q m := by
  have heval (plan : Plan) := eval_insertPrices env plan m.world.db rows
  cases hstore : m.world.db.storeRows env rows with
  | error e =>
    rw [hstore] at heval
    refine Svc.wp_query_answers (fun plan _ _ h _ => ?_) (fun plan e' h => ?_)
      (fun plan _ _ h _ => ?_)
    · cases (heval plan).symm.trans h
    · cases (heval plan).symm.trans h
      exact herror e _ hstore rfl
    · cases (heval plan).symm.trans h
  | ok db =>
    rw [hstore] at heval
    obtain ⟨values, hvalues, hdb⟩ := Database.storeRows_eq_ok hstore
    -- the rows that the statement is sent with take effect when the transaction commits
    have heffect : (Statement.insertPrices rows).effect env m = .ok (m.insert values) := by
      rw [Statement.effect, hvalues]
      rfl
    refine Svc.wp_query_answers (fun plan _ m₁ _ h => ?_) (fun plan e' h => ?_)
      (fun plan _ e' _ h => ?_)
    · cases heffect.symm.trans h
      have hcommit :=
        @commit_inserted env m values db (.db (.insertPrices rows)) (.ok ()) hpending hdb
      refine Svc.wp_query_answers (fun plan _ m₂ _ h => ?_) (fun _ _ h => by cases h)
        (fun _ _ e' _ h => ?_)
      · obtain rfl := Except.ok.inj (hcommit.symm.trans h)
        exact hok _ hstore
      · cases hcommit.symm.trans h
    · cases (heval plan).symm.trans h
    · cases heffect.symm.trans h

/-- **One call** on a server that answers. -/
theorem wp_ingestPrices_answers (payload : List PricePointIn) (hpending : m.session.pending = []) :
    Svc.wp env Choice.Answers (ingestPrices payload)
      (fun r m' => BatchEnd env m.world.db payload r m'.world.db) m := by
  rw [ingestPrices]
  split
  · rename_i hnil
    subst hnil
    exact .stored _ .nil rfl
  · refine Svc.wp_seq wp_resolveLookup_answers (fun c m₁ h => ?_)
      (by rintro _ _ ⟨_, ⟨⟩, _⟩)
    obtain ⟨_, ⟨⟩, hof, hdb, hpending₁⟩ := h
    obtain ⟨hrows, -⟩ := resolveItems_eq hof payload
    generalize resolveItems c payload = resolved at hrows
    obtain ⟨rows, errors⟩ := resolved
    dsimp only at hrows ⊢
    split
    · rename_i hnil
      subst hnil
      rw [Svc.wp_pure, hdb]
      exact .stored _ hrows rfl
    · refine wp_insertCommit_answers (hpending₁.trans hpending) (fun m₂ h => ?_)
        (fun e m₂ h hm₂ => ?_)
      · rw [hdb] at h
        exact .stored _ hrows h
      · rw [hdb] at h hm₂
        rw [hm₂]
        exact .failed hrows h

/-- **The handler** on a server that answers: the invalidations after the call never raise, and
    leave the tables alone. -/
theorem wp_ingest_answers {payload : List PricePointIn} (hlimit : payload.length ≤ 5000)
    (hpending : m.session.pending = []) :
    Svc.wp env Choice.Answers (ingest payload)
      (fun r m' => BatchEnd env m.world.db payload r m'.world.db) m := by
  unfold ingest
  rw [if_neg (not_lt.mpr hlimit)]
  refine Svc.wp_seq (wp_ingestPrices_answers payload hpending) (fun result m₁ h₁ => ?_)
    fun e m₁ h₁ => ?_
  · refine Svc.wp_seq (wp_invalidatePrefix env _ _) (fun n m₂ h₂ => ?_)
      (fun e m₂ ⟨h, _⟩ => nomatch h)
    refine Svc.wp_seq (wp_invalidatePrefix env _ _) (fun n' m₃ h₃ => ?_)
      (fun e m₃ ⟨h, _⟩ => nomatch h)
    rw [Svc.wp_pure, (h₂.2.1.trans h₃.2.1).db]
    exact h₁.ok _
  · exact h₁.error

end Answers

/-- A batch posted in a world. -/
theorem run_ingest_answers (env : Env) {choices : Nat → Choice}
    (hanswers : ∀ n, (choices n).Answers) (w : World) {payload : List PricePointIn}
    (hlimit : payload.length ≤ 5000) :
    BatchEnd env w.db payload (runSvc env choices (ingest payload) ⟨w, {}⟩).1
      (runSvc env choices (ingest payload) ⟨w, {}⟩).2.world.db :=
  runSvc_of_wp choices hanswers (@wp_ingest_answers env ⟨w, {}⟩ payload hlimit rfl)

/-! ## The size of the statement -/

theorem mapM_error {α β ε : Type} {f : α → Except ε β} {as : List α} {e : ε}
    (h : as.mapM f = .error e) : ∃ a ∈ as, f a = .error e := by
  induction as with
  | nil => cases h
  | cons a as ih =>
    rw [List.mapM_cons] at h
    rcases bind_eq_error h with ha | ⟨b, -, h⟩
    · exact ⟨a, List.mem_cons_self, ha⟩
    · rcases bind_eq_error h with has | ⟨bs, -, h⟩
      · obtain ⟨a', ha', hf⟩ := ih has
        exact ⟨a', List.mem_cons_of_mem _ ha', hf⟩
      · cases h

theorem bindVarchar_ne_tooManyArguments (n : Nat) (s : String) :
    bindVarchar n s ≠ .error .tooManyArguments := by
  intro h
  unfold bindVarchar at h
  split at h <;> cases h

theorem bindDatetime_ne_tooManyArguments (env : Env) (d : Datetime) :
    bindDatetime env d ≠ .error .tooManyArguments := by
  intro h
  unfold bindDatetime at h
  split at h <;> cases h

/-- No row is refused for the size of the statement. -/
theorem PriceParams.bind_ne_tooManyArguments (env : Env) (p : PriceParams) :
    p.bind env ≠ .error .tooManyArguments := by
  intro h
  rw [PriceParams.bind] at h
  rcases bind_eq_error h with hregion | ⟨region, -, h⟩
  · exact bindVarchar_ne_tooManyArguments _ _ hregion
  rcases bind_eq_error h with hinstance | ⟨instanceType, -, h⟩
  · exact bindVarchar_ne_tooManyArguments _ _ hinstance
  rcases bind_eq_error h with havailability | ⟨availability, -, h⟩
  · exact bindVarchar_ne_tooManyArguments _ _ havailability
  rcases bind_eq_error h with hobserved | ⟨observedAt, -, h⟩
  · exact bindDatetime_ne_tooManyArguments _ _ hobserved
  split at h <;> cases h

theorem Database.insertPrice_ne_tooManyArguments (db : Database) (v : PriceValues) :
    db.insertPrice v ≠ .error .tooManyArguments := by
  intro h
  unfold Database.insertPrice at h
  split at h
  · cases h
  · split at h
    · cases h
    · split at h
      · cases h
      · split at h <;> cases h

theorem Database.insertPrices_ne_tooManyArguments (db : Database) (rows : List PriceValues) :
    db.insertPrices rows ≠ .error .tooManyArguments := by
  induction rows generalizing db with
  | nil => exact fun h => nomatch h
  | cons v rows ih =>
    rw [Database.insertPrices, List.foldlM_cons]
    cases hone : db.insertPrice v with
    | error e =>
      rintro ⟨⟩
      exact db.insertPrice_ne_tooManyArguments v hone
    | ok mid => exact ih mid

/-- The statement is refused for its size exactly when its rows need more parameters than the driver
    can count. -/
theorem Database.storeRows_tooManyArguments {env : Env} {db : Database} {rows : List PriceParams} :
    db.storeRows env rows = .error .tooManyArguments
      ↔ maxBindParameters < rows.length * parametersPerRow := by
  rw [Database.storeRows, bindRows]
  split
  · rename_i hsize
    exact ⟨fun _ => hsize, fun _ => rfl⟩
  · rename_i hsize
    refine ⟨fun h => ?_, fun h => absurd h hsize⟩
    cases hvalues : rows.mapM (PriceParams.bind env) with
    | error e =>
      rw [hvalues] at h
      cases h
      obtain ⟨p, -, hp⟩ := mapM_error hvalues
      exact absurd hp (p.bind_ne_tooManyArguments env)
    | ok values =>
      rw [hvalues] at h
      exact absurd h (db.insertPrices_ne_tooManyArguments values)

/-- The parameters of a batch, counted by its known items. -/
theorem parameters_le_iff {db : Database} {c : Catalogue} (hcatalogue : c.Of db)
    (payload : List PricePointIn) :
    (resolveItems c payload).1.length * parametersPerRow ≤ maxBindParameters
      ↔ (payload.filter (Known db)).length ≤ 4681 := by
  have hrows := (resolveItems_eq hcatalogue payload).1.length_eq
  rw [← hrows]
  unfold parametersPerRow maxBindParameters
  omega

/-- The handler fails for the size of the statement exactly on more than 4681 known items. -/
theorem ingest_tooManyArguments_iff (env : Env) {choices : Nat → Choice}
    (hanswers : ∀ n, (choices n).Answers) (w : World) {payload : List PricePointIn}
    (hlimit : payload.length ≤ 5000) :
    (runSvc env choices (ingest payload) ⟨w, {}⟩).1 = .error (.db .tooManyArguments)
      ↔ 4681 < (payload.filter (Known w.db)).length := by
  have hsize (rows : List PriceParams)
      (hresolved : List.Forall₂ (Resolves w.db) (payload.filter (Known w.db)) rows) :
      w.db.storeRows env rows = .error .tooManyArguments
        ↔ 4681 < (payload.filter (Known w.db)).length := by
    rw [Database.storeRows_tooManyArguments, ← hresolved.length_eq]
    unfold parametersPerRow maxBindParameters
    omega
  have hend := run_ingest_answers env hanswers w hlimit
  generalize (runSvc env choices (ingest payload) ⟨w, {}⟩).2.world.db = db' at hend
  generalize (runSvc env choices (ingest payload) ⟨w, {}⟩).1 = r at hend ⊢
  cases hend with
  | stored a hresolved hstored =>
    rw [← hsize _ hresolved, hstored]
    exact ⟨(fun h => nomatch h), (fun h => nomatch h)⟩
  | failed hresolved hfailed =>
    rw [← hsize _ hresolved, hfailed]
    simp only [Except.error.injEq, Exn.db.injEq]

/-- **When a batch fits**: the rows of a batch that the route admits need no more parameters than
    the driver can count exactly if at most 4681 items have names in the catalogue, and exactly then
    the handler does not fail for the size of the statement. -/
theorem insert_fits_iff (env : Env) (choices : Nat → Choice)
    (hanswers : ∀ n, (choices n).Answers) (w : World) (c : Catalogue) (hcatalogue : c.Of w.db)
    (payload : List PricePointIn) (hlimit : payload.length ≤ 5000) :
    ((resolveItems c payload).1.length * parametersPerRow ≤ maxBindParameters
        ↔ (payload.filter (Known w.db)).length ≤ 4681)
      ∧ ((runSvc env choices (ingest payload) ⟨w, {}⟩).1 ≠ .error (.db .tooManyArguments)
        ↔ (payload.filter (Known w.db)).length ≤ 4681) :=
  ⟨parameters_le_iff hcatalogue payload,
    (ingest_tooManyArguments_iff env hanswers w hlimit).not.trans not_lt⟩

/-- The catalogue of the smallest table. -/
def oneOfEach : Catalogue := ⟨[h100 ⟨1, one_range⟩], [aws]⟩

theorem oneOfEach_of :
    oneOfEach.Of (catalogue ⟨1, by decide⟩) := ⟨List.Perm.refl _, List.Perm.refl _⟩

theorem insert_fits_iff_three :
    ((resolveItems oneOfEach tinyCall.payload).1.length * parametersPerRow ≤ maxBindParameters
        ↔ (tinyCall.payload.filter (Known (catalogue ⟨1, by decide⟩))).length ≤ 4681)
      ∧ ((runSvc env (fun _ => .calm) (ingest tinyCall.payload)
            ⟨worldOf (catalogue ⟨1, by decide⟩), {}⟩).1 ≠ .error (.db .tooManyArguments)
        ↔ (tinyCall.payload.filter (Known (catalogue ⟨1, by decide⟩))).length ≤ 4681) :=
  insert_fits_iff env _ (fun _ => Choice.answers_calm) (worldOf (catalogue ⟨1, by decide⟩)) _
    oneOfEach_of _ (by decide)

/-- A batch within the limit of the route, of one observation again and again. -/
def largeBatch : List PricePointIn := List.replicate 4682 oneItem

theorem known_largeBatch :
    (largeBatch.filter (Known (catalogue ⟨1, by decide⟩))).length = 4682 := by
  rw [largeBatch, List.filter_replicate_of_pos (by decide), List.length_replicate]

theorem insert_too_large :
    largeBatch.length ≤ 5000
      ∧ ¬ (resolveItems oneOfEach largeBatch).1.length * parametersPerRow ≤ maxBindParameters
      ∧ (runSvc env (fun _ => .calm) (ingest largeBatch)
          ⟨worldOf (catalogue ⟨1, by decide⟩), {}⟩).1 = .error (.db .tooManyArguments) := by
  have hlimit : largeBatch.length ≤ 5000 := by
    rw [largeBatch, List.length_replicate]
    omega
  refine ⟨hlimit, ?_, ?_⟩
  · rw [parameters_le_iff oneOfEach_of, known_largeBatch]
    omega
  · refine (ingest_tooManyArguments_iff env (fun _ => Choice.answers_calm)
      (worldOf (catalogue ⟨1, by decide⟩)) hlimit).mpr ?_
    show 4681 < (largeBatch.filter (Known (catalogue ⟨1, by decide⟩))).length
    rw [known_largeBatch]
    omega

end GpuIndex
