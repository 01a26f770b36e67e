/-
  Ingests at once, one after the other.

  A session's rows wait until its commit, and the commit offers all of them to the table as it is
  then.  So however requests interleave and whatever fails, the price table is what the committed
  payloads make of it, one after the other in the order of their commits (`ingests_serialise`): no
  payload counts twice, a request that fails leaves no row, and one that is answered has left its
  rows.
-/
import GpuIndex.Api.ConcurrentRequests
import GpuIndex.Api.HandlerCalls
import GpuIndex.Core.Comply

namespace GpuIndex

open Calendar Trace

/-! ## Commits -/

/-- The call is a commit that was answered. -/
def Event.isCommit : Event → Bool
  | ⟨.db .commit, .ok _⟩ => true
  | _ => false

theorem Event.op_of_isCommit {e : Event} (h : e.isCommit = true) : e.op = .db .commit := by
  unfold Event.isCommit at h
  split at h
  · rfl
  · cases h

/-- A commit that was answered is on record. -/
def Session.committed (l : Session) : Bool := l.log.any Event.isCommit

/-- The session has committed. -/
def Session.Committed (l : Session) : Prop := l.committed = true

instance (l : Session) : Decidable l.Committed := inferInstanceAs (Decidable (_ = _))

/-- Neither the tables nor what the session has committed change. -/
structure Machine.Stays (m m' : Machine) : Prop where
  db : m'.world.db = m.world.db
  committed : m'.session.Committed ↔ m.session.Committed

/-- A call that is no commit leaves them alone. -/
theorem stays_of_ne_commit {env : Env} {c : Choice} {op : Op} (hop : op ≠ .db .commit)
    (m : Machine) : m.Stays (exec env c op m).2 := by
  constructor
  · rcases noStatement_or_db op with hstmt | ⟨stmt, rfl⟩
    · exact (exec_sameTables hstmt m).db
    · simp only [exec, perform]
      rcases stmt.exec_cases env c m with h | h | ⟨_, _, -, -, h⟩ | ⟨_, rfl, -, -⟩
      · rw [h]
        rfl
      · rw [h]
        rfl
      · rw [h]
        rfl
      · exact absurd rfl hop
  · have hrun : m.Logs (fun called => op = called) (exec env c op m).2 := exec_logs rfl m
    obtain ⟨events, hlog, hall⟩ := hrun
    have hnone : events.any Event.isCommit = false := by
      rw [List.any_eq_false]
      exact fun e he hcommit => hop ((hall e he).trans (Event.op_of_isCommit hcommit))
    rw [Session.Committed, Session.committed, hlog, List.any_append, hnone, Bool.false_or]
    exact Iff.rfl

/-- The first commit of a session: it offers the payload to the table. -/
structure Machine.Commits (env : Env) (payload : List PricePointIn) (m m' : Machine) : Prop where
  first : ¬ m.session.Committed
  committed : m'.session.Committed
  offered : Offered env m.world.db payload m'.world.db

/-- What every call of a request with the payload promises. -/
def CommitsOnce (env : Env) (payload : List PricePointIn) (m m' : Machine) : Prop :=
  m.Stays m' ∨ m.Commits env payload m'

/-- The others let the table grow. -/
def Grown (w w' : World) : Prop := w.db.Grows w'.db

theorem Grown.refl (w : World) : Grown w w := Database.Grows.refl w.db

/-- Every call of the program keeps the promise, and the program ends as `Q` says. -/
abbrev Svc.serial {α : Type} (env : Env) (payload : List PricePointIn) (p : Svc α)
    (Q : Except Exn α → Machine → Prop) (m : Machine) : Prop :=
  Svc.complies env (fun _ _ _ => True) Grown (CommitsOnce env payload) p Q m

section Ingest

variable {env : Env} {payload : List PricePointIn} {m : Machine} {db : Database}

/-- A session before its commit: nothing is committed, nothing waits. -/
structure Session.Fresh (l : Session) : Prop where
  pending : l.pending = []
  committed : ¬ l.Committed

/-- The call neither inserts nor commits. -/
def WritesNothing (op : Op) : Prop := op ≠ .db .commit ∧ ∀ rows, op ≠ .db (.insertPrices rows)

theorem fresh_exec {c : Choice} {op : Op} (hop : WritesNothing op) (h : m.session.Fresh) :
    (exec env c op m).2.session.Fresh := by
  refine ⟨?_, fun hc => h.committed ((stays_of_ne_commit hop.1 m).committed.mp hc)⟩
  rcases noStatement_or_db op with hstmt | ⟨stmt, rfl⟩
  · exact (exec_sameTables hstmt m).pending.trans h.pending
  · have hquery : QueryCall (.db stmt) :=
      ⟨stmt, rfl, fun heq => hop.1 (heq ▸ rfl), fun rows heq => hop.2 rows (heq ▸ rfl)⟩
    exact (exec_query_sameTables hquery m).pending.trans h.pending

theorem exec_db {c : Choice} {stmt : Statement} {r : Except DbError stmt.Result} {m' : Machine}
    (h : stmt.exec env c m = (r, m')) : exec env c (.db stmt) m = (r, m'.record (.db stmt) r) := by
  simp only [exec, perform, h]

/-- A read of the catalogue leaves the session fresh, and answers with the table in some order. -/
theorem serial_read {α : Type} {stmt : Statement} {f : stmt.Result → Svc α}
    {Q : Except Exn α → Machine → Prop} (hop : WritesNothing (.db stmt)) (hfresh : m.session.Fresh)
    (hdb : db.Grows m.world.db)
    (hok : ∀ plan r m', db.Grows m'.world.db → stmt.eval env plan m'.world.db = .ok r →
      m'.session.Fresh → Svc.serial env payload (f r) Q m')
    (herror : ∀ e m', m'.session.Fresh → Q (.error e) m')
    (heffect : ∀ m m' : Machine, stmt.effect env m = .ok m' → m'.world = m.world) :
    Svc.serial env payload (query stmt >>= f) Q m := by
  refine Svc.complies_query fun w hR c _ => ⟨.inl (stays_of_ne_commit hop.1 _), ?_⟩
  have hfresh' : (exec env c (.db stmt) (m.inWorld w)).2.session.Fresh := fresh_exec hop hfresh
  split
  · rename_i r m' hexec
    obtain ⟨-, heval, hm'⟩ := Statement.exec_ok hexec
    have hworld : m'.world = w := heffect _ _ hm'
    rw [exec_db hexec] at hfresh'
    refine hok c.plan r _ ?_ ?_ hfresh'
    · rw [Machine.record_world, hworld]
      exact hdb.trans hR
    · rw [Machine.record_world, hworld]
      exact heval
  · rename_i e m' hexec
    rw [exec_db hexec] at hfresh'
    exact fun w' _ => herror _ _ hfresh'

/-- The catalogue is read as it is. -/
theorem serial_resolveLookup (hfresh : m.session.Fresh) (hdb : db.Grows m.world.db) :
    Svc.serial env payload resolveLookup (fun r m' => m'.session.Fresh
      ∧ ∀ c, r = .ok c → db.Grows m'.world.db ∧ c.Of db) m := by
  unfold resolveLookup
  refine serial_read ⟨nofun, nofun⟩ hfresh hdb (fun plan gpus m₁ hdb₁ hgpus hfresh₁ => ?_)
    (fun e m₁ h => ⟨h, nofun⟩) fun _ _ h => by cases h; rfl
  refine serial_read ⟨nofun, nofun⟩ hfresh₁ hdb₁
    (fun plan' providers m₂ hdb₂ hproviders hfresh₂ => ?_)
    (fun e m₂ h => ⟨h, nofun⟩) fun _ _ h => by cases h; rfl
  cases hgpus
  cases hproviders
  refine fun w hR => ⟨hfresh₂, ?_⟩
  rintro c ⟨⟩
  refine ⟨hdb₂.trans hR, ?_, ?_⟩
  · show (plan.gpuModels.apply m₁.world.db.gpuModels).Perm db.gpuModels
    rw [hdb₁.gpuModels]
    exact plan.gpuModels.perm _
  · show m₂.world.db.providers.Perm db.providers
    rw [hdb₂.providers]

/-- What the catalogue resolves to stays so while the table grows. -/
theorem Database.Grows.resolves {db' : Database} (h : db.Grows db') {item : PricePointIn}
    {row : PriceParams} (hrow : Resolves db item row) : Resolves db' item row := by
  rw [Resolves, h.gpuModels, h.providers]
  exact hrow

/-- A commit that is answered offers the rows that wait to the table as it is. -/
theorem commits_exec {rows : List PriceParams} {values : List PriceValues} {c : Choice}
    {m' : Machine} (hexec : Statement.commit.exec env c m = (.ok (), m'))
    (hrows : List.Forall₂ (Resolves db) (payload.filter (Known db)) rows)
    (hvalues : bindRows env rows = .ok values) (hdb : db.Grows m.world.db)
    (hpending : m.session.pending = values) (hfirst : ¬ m.session.Committed) :
    m.Commits env payload (m'.record (.db .commit) (.ok ())) := by
  obtain ⟨-, -, heffect⟩ := Statement.exec_ok hexec
  obtain ⟨db', hdb', heffect⟩ := bind_ok heffect
  cases heffect
  refine ⟨hfirst, rfl, ?_⟩
  rw [hpending] at hdb'
  have hresolved : List.Forall₂ (Resolves m.world.db) (payload.filter (Known m.world.db)) rows := by
    simp only [hdb.known_iff]
    exact hrows.imp fun _ _ => hdb.resolves
  exact .of_rows hresolved hvalues hdb'

/-- A commit that fails leaves everything as it is. -/
theorem stays_commit_error {c : Choice} {e : DbError} {m' : Machine}
    (hexec : Statement.commit.exec env c m = (.error e, m')) :
    m.Stays (m'.record (.db .commit) (.error e)) := by
  rw [Statement.exec_error hexec]
  exact ⟨rfl, Iff.rfl⟩

/-- Inserting and committing: the request commits exactly if it goes on. -/
theorem serial_insertCommit {α : Type} {rows : List PriceParams} (a : α)
    (hrows : List.Forall₂ (Resolves db) (payload.filter (Known db)) rows)
    (hfresh : m.session.Fresh) (hdb : db.Grows m.world.db) :
    Svc.serial env payload (do query (.insertPrices rows); query .commit; return a)
      (fun r m' => r = .ok a ∧ m'.session.Committed ∨ (∃ e, r = .error e) ∧ ¬ m'.session.Committed)
      m := by
  have hne : Op.db (.insertPrices rows) ≠ .db .commit := nofun
  refine Svc.complies_query fun w hR c _ => ⟨.inl (stays_of_ne_commit hne _), ?_⟩
  have hstays : (m.inWorld w).Stays (exec env c _ (m.inWorld w)).2 := stays_of_ne_commit hne _
  split
  · rename_i m₁ hexec
    rw [exec_db hexec] at hstays
    have hcommitted := fun h => hfresh.committed (hstays.committed.mp h)
    obtain ⟨-, -, heffect⟩ := Statement.exec_ok hexec
    obtain ⟨values, hvalues, heffect⟩ := bind_ok heffect
    cases heffect
    -- the rows wait in the session until it commits
    have hpending : m.session.pending ++ values = values := by rw [hfresh.pending, List.nil_append]
    refine Svc.complies_query fun w₁ hR₁ c₁ _ => ?_
    have hw₁ : db.Grows w₁.db := (hdb.trans hR).trans hR₁
    rcases hcommit : Statement.commit.exec env c₁
      ((((m.inWorld w).insert values).record (.db (.insertPrices rows)) (.ok ())).inWorld w₁)
      with ⟨e | r, m₂⟩
    · have hstays₂ := stays_commit_error hcommit
      refine ⟨.inl (by rw [exec_db hcommit]; exact hstays₂),
        fun w₂ _ => .inr ⟨⟨_, rfl⟩, fun h => ?_⟩⟩
      exact hcommitted (hstays₂.committed.mp h)
    · have hcommits := commits_exec hcommit hrows hvalues hw₁ hpending hcommitted
      exact ⟨.inr (by rw [exec_db hcommit]; exact hcommits),
        fun w₂ _ => .inl ⟨rfl, hcommits.committed⟩⟩
  · rename_i e m₁ hexec
    rw [exec_db hexec] at hstays
    exact fun w₁ _ => .inr ⟨⟨_, rfl⟩, fun h => hfresh.committed (hstays.committed.mp h)⟩

/-- What a batch that returns reports, and whether it has committed. -/
structure BatchReport (db : Database) (payload : List PricePointIn)
    (result : Nat × Nat × List String) (committed : Prop) : Prop where
  accepted : result.1 = (payload.filter (Known db)).length
  rejected : result.2.1 = result.2.2.length
  errors : result.2.2 = (payload.filter fun i => ¬ Known db i).map (unknownName db)
  committed : committed ↔ payload.filter (Known db) ≠ []

/-- **A batch amid others**: it commits once and reports, or it raises and has not committed. -/
theorem serial_ingestPrices (hfresh : m.session.Fresh) (hdb : db.Grows m.world.db) :
    Svc.serial env payload (ingestPrices payload) (fun r m' => match r with
      | .ok result => BatchReport db payload result m'.session.Committed
      | .error _ => ¬ m'.session.Committed) m := by
  unfold ingestPrices
  split
  · rename_i hnil
    subst hnil
    exact fun w _ => ⟨rfl, rfl, rfl, fun h => absurd h hfresh.committed, fun h => absurd rfl h⟩
  · refine Svc.complies_seq (serial_resolveLookup hfresh hdb) (fun c m₁ h => ?_)
      fun e m₁ h => h.1.committed
    obtain ⟨hfresh₁, h⟩ := h m₁.world (.refl _)
    obtain ⟨hdb₁, hof⟩ := h c rfl
    obtain ⟨hrows, herrors⟩ := resolveItems_eq hof payload
    dsimp only
    generalize resolveItems c payload = resolved at hrows herrors
    obtain ⟨rows, errors⟩ := resolved
    dsimp only at hrows herrors ⊢
    subst herrors
    split
    · rename_i hnil
      subst hnil
      have hno := List.forall₂_nil_right_iff.mp hrows
      refine fun w _ => ⟨by rw [hno]; rfl, rfl, rfl, ?_⟩
      exact ⟨fun h => absurd h hfresh₁.committed, fun h => absurd hno h⟩
    · rename_i hsome
      have hknown : payload.filter (Known db) ≠ [] := by
        intro hno
        rw [hno] at hrows
        exact hsome (List.forall₂_nil_left_iff.mp hrows)
      refine Svc.complies_mono (serial_insertCommit _ hrows hfresh₁ hdb₁) fun r m' h => ?_
      rcases h with ⟨rfl, hcommitted⟩ | ⟨⟨e, rfl⟩, hno⟩
      · exact ⟨hrows.length_eq.symm, rfl, rfl, fun _ => hknown, fun _ => hcommitted⟩
      · exact hno

/-! ## Requests -/

/-- The errors of the items that are not known. -/
def unknownNames (db : Database) (payload : List PricePointIn) : List String :=
  (payload.filter fun i => ¬ Known db i).map (unknownName db)

/-- How an ingest request can end: its answer counts the items of its payload and it has committed
    what is known of them, or it has raised and has not committed. -/
def IngestEnd (db : Database) (payload : List PricePointIn) (r : Except Exn Response)
    (committed : Prop) : Prop :=
  match r with
  | .ok response => (∃ invalidated, response = ⟨202, .ingest ⟨(payload.filter (Known db)).length,
      (unknownNames db payload).length, invalidated, (unknownNames db payload).take 20⟩, []⟩)
        ∧ (committed ↔ payload.filter (Known db) ≠ [])
  | .error _ => ¬ committed

/-- How the ingest service can end, in the same terms. -/
def BatchEnded (db : Database) (payload : List PricePointIn) (committed : Prop) :
    Except Exn IngestResult → Prop
  | .ok result => (∃ invalidated, result = ⟨(payload.filter (Known db)).length,
      (unknownNames db payload).length, invalidated, (unknownNames db payload).take 20⟩)
        ∧ (committed ↔ payload.filter (Known db) ≠ [])
  | .error _ => ¬ committed

/-- An invalidation returns, and commits nothing. -/
theorem serial_invalidatePrefix (keyPrefix : String) {C : Prop} (hC : m.session.Committed ↔ C) :
    Svc.serial env payload (invalidatePrefix keyPrefix)
      (fun r m' => (∃ n, r = .ok n) ∧ (m'.session.Committed ↔ C)) m := by
  have hne (op : Op) (h : InvalidationCall op) : op ≠ .db .commit := fun heq =>
    noStatement_of_invalidationCall op h .commit heq
  have hkeeps {op : Op} (h : InvalidationCall op) (c : Choice) (m : Machine)
      (hm : m.session.Committed ↔ C) : CommitsOnce env payload m (exec env c op m).2
        ∧ ((exec env c op m).2.session.Committed ↔ C) := by
    have hstays : m.Stays (exec env c op m).2 := stays_of_ne_commit (hne op h) m
    exact ⟨.inl hstays, hstays.committed.trans hm⟩
  have hscan : Prog.Only (S := svc) InvalidationCall (scanDelete keyPrefix) :=
    only_scanThen (only_scanRest keyPrefix) 0 0
  refine Svc.complies_seq (Svc.complies_lift (P := fun m => m.session.Committed ↔ C)
    (fun _ _ h _ => h) (fun c _ m _ hop h => hkeeps hop c m h) hscan hC)
    (fun r m' h => ?_) fun e m' h => ?_
  · obtain ⟨-, hm'⟩ := h m'.world (.refl _)
    rcases r with ⟨e | _, removed⟩
    · refine Svc.complies_call.mpr fun w _ c _ => ?_
      obtain ⟨hG, hC'⟩ := hkeeps (.inr (.inr ⟨.errors, rfl⟩)) c (m'.inWorld w) hm'
      exact ⟨hG, fun w' _ => ⟨⟨removed, rfl⟩, hC'⟩⟩
    · exact fun w _ => ⟨⟨removed, rfl⟩, hm'⟩
  · obtain ⟨⟨_, h⟩, -⟩ := h
    cases h

/-- The handler of an ingest. -/
theorem serial_ingest (hfresh : m.session.Fresh) (hdb : db.Grows m.world.db) :
    Svc.serial env payload (handle env (.ingest payload))
      (fun r m' => IngestEnd db payload r m'.session.Committed) m := by
  have hbatch : Svc.serial env payload (ingest payload)
      (fun r m' => BatchEnded db payload m'.session.Committed r) m := by
    unfold ingest
    by_cases hlimit : 5000 < payload.length
    · rw [if_pos hlimit]
      exact fun w _ => hfresh.committed
    · rw [if_neg hlimit]
      refine Svc.complies_seq (serial_ingestPrices hfresh hdb)
        (fun result m₁ h => ?_) fun e m₁ h => h
      obtain ⟨accepted, rejected, errors⟩ := result
      have hreport := h m₁.world (.refl _)
      obtain rfl : errors = unknownNames db payload := hreport.errors
      obtain rfl : accepted = (payload.filter (Known db)).length := hreport.accepted
      obtain rfl : rejected = (unknownNames db payload).length := hreport.rejected
      refine Svc.complies_seq (serial_invalidatePrefix "prices:" hreport.committed)
        (fun n m₂ h₂ => ?_) fun e m₂ h₂ => ?_
      · refine Svc.complies_seq (serial_invalidatePrefix "index:" (h₂ m₂.world (.refl _)).2)
          (fun n' m₃ h₃ => ?_) fun e m₃ h₃ => ?_
        · exact fun w hR => ⟨⟨_, rfl⟩, (h₃ w hR).2⟩
        · obtain ⟨⟨_, h⟩, -⟩ := h₃
          cases h
      · obtain ⟨⟨_, h⟩, -⟩ := h₂
        cases h
  refine Svc.complies_seq hbatch (fun result m₁ h => fun w _ => ?_) fun e m₁ h => h
  obtain ⟨⟨invalidated, rfl⟩, hcommitted⟩ := h m₁.world (.refl _)
  exact ⟨⟨invalidated, rfl⟩, hcommitted⟩

end Ingest

/-- No route but ingest commits. -/
theorem only_handle_ne_commit (env : Env) {route : Route} (h : ∀ payload, route ≠ .ingest payload) :
    (handle env route).Only fun op => op ≠ .db .commit := by
  refine only_handle_of env (fun op h => ?_) (fun _ op h => ?_) fun payload heq =>
    absurd heq (h payload)
  · obtain ⟨stmt, rfl, hcommit, -⟩ := h
    exact fun heq => hcommit (Op.db.inj heq)
  · rcases h with rfl | ⟨_, rfl⟩ | ⟨_, rfl⟩ | ⟨_, _, _, rfl⟩ <;> exact nofun

/-- What every call of a request promises: it leaves the tables alone, or it is the one commit of an
    ingest. -/
def Request.Promise (env : Env) (req : Request) (m m' : Machine) : Prop :=
  m.Stays m' ∨ ∃ payload, req.route = .ingest payload ∧ m.Commits env payload m'

/-- **A request amid others** commits at most once, and ends accordingly. -/
theorem complies_serveRequest (env : Env) (req : Request) {w : World} {db : Database}
    (hdb : db.Grows w.db) :
    Svc.complies env (fun _ _ _ => True) Grown (req.Promise env) (serveRequest env req)
      (fun r m' => ∀ payload, req.route = .ingest payload →
        IngestEnd db payload r m'.session.Committed) ⟨w, {}⟩ := by
  have hquiet (op : Op) (h : LimiterCall op) : WritesNothing op := by
    rcases h with rfl | ⟨_, _, -, rfl⟩ <;> exact ⟨nofun, fun _ => nofun⟩
  by_cases hroute : ∃ payload, req.route = .ingest payload
  · obtain ⟨payload, hroute⟩ := hroute
    have hserve : Svc.serial env payload (serveRequest env req)
        (fun r m' => IngestEnd db payload r m'.session.Committed) ⟨w, {}⟩ := by
      have hauth : (requireApiKey env.settings req.apiKey).Only WritesNothing :=
        only_requireApiKey _ _ _
      have hcatalogue {α : Type} {p : Svc α} {m : Machine} (hp : p.Only WritesNothing)
          (hm : m.session.Fresh ∧ db.Grows m.world.db) :
          Svc.serial env payload p (fun _ m' => m'.session.Fresh ∧ db.Grows m'.world.db) m :=
        Svc.complies_of_only (P := fun m => m.session.Fresh ∧ db.Grows m.world.db)
          (fun _ _ h hR => ⟨h.1, h.2.trans hR⟩)
          (fun c op m _ hop h => by
            have hstays : m.Stays (exec env c op m).2 := stays_of_ne_commit hop.1 m
            exact ⟨.inl hstays, fresh_exec hop h.1, by rw [hstays.db]; exact h.2⟩) hp hm
      have hfresh : Session.Fresh {} := ⟨rfl, nofun⟩
      refine Svc.complies_seq (hcatalogue hauth ⟨hfresh, hdb⟩) (fun principal m₁ h₁ => ?_)
        fun e m₁ h₁ => h₁.1.committed
      refine Svc.complies_seq (hcatalogue ((only_rateLimit env principal).mono hquiet)
        (h₁ m₁.world (.refl _))) (fun _ m₂ h₂ => ?_) fun e m₂ h₂ => h₂.1.committed
      obtain ⟨hfresh₂, hdb₂⟩ := h₂ m₂.world (.refl _)
      rw [hroute]
      exact serial_ingest hfresh₂ hdb₂
    refine Svc.complies_mono (Svc.complies_weaken hserve ?_) fun r m' h payload' heq => ?_
    · exact fun m m' h => h.imp id fun h => ⟨payload, hroute, h⟩
    · cases hroute.symm.trans heq
      exact h
  -- a request that is no ingest never commits
  · have honly : (serveRequest env req).Only fun op => op ≠ .db .commit :=
      Svc.only_bind (only_requireApiKey _ _ _) fun principal =>
        Svc.only_bind ((only_rateLimit env principal).mono fun op h => (hquiet op h).1) fun _ =>
          only_handle_ne_commit env fun payload heq => hroute ⟨payload, heq⟩
    refine Svc.complies_mono (Svc.complies_of_only (P := fun _ => True) (fun _ _ _ _ => trivial)
      (fun c op m _ hop _ => ⟨.inl (stays_of_ne_commit hop m), trivial⟩) honly trivial) ?_
    exact fun _ _ _ payload heq => absurd ⟨payload, heq⟩ hroute

/-! ## Runs -/

variable {ι : Type} [DecidableEq ι]

/-- The payloads of the requests are offered to the table one after the other. -/
inductive Applied (t : Traffic ι) : Database → List ι → Database → Prop where
  | nil (db : Database) : Applied t db [] db
  | cons {i : ι} {payload : List PricePointIn} {order : List ι} {db mid db' : Database}
      (route : (t.request i).route = .ingest payload) (offered : Offered (t.env i) db payload mid)
      (rest : Applied t mid order db') : Applied t db (i :: order) db'

namespace Traffic

/-- Calls may fail, and the outside may do anything but write to the tables. -/
def OnlyRequestsWrite (s : Threads ι) : Move ι → Prop
  | .call _ _ => True
  | .outside w => w.db = s.shared.db

variable (t : Traffic ι)

/-- The request that commits with this move. -/
def committing (s : Threads ι) (m : Move ι) : Option ι :=
  match m with
  | .call i _ => if ((t.step s m).own i).committed && !(s.own i).committed then some i else none
  | .outside _ => none

/-- The requests that commit, in the order of their commits. -/
def commits (w : World) (trace : List (Move ι)) : List ι :=
  observed t.step t.committing (t.start w) trace

end Traffic

variable {t : Traffic ι} {s : Traffic.Threads ι}

/-- What the requests promise of one another. -/
abbrev Traffic.promise (t : Traffic ι) (i : ι) (x y : World × Session) : Prop :=
  (t.request i).Promise (t.env i) ⟨x.1, x.2⟩ ⟨y.1, y.2⟩

/-- A move without a commit. -/
structure Traffic.Idle (s s' : Traffic.Threads ι) : Prop where
  db : s'.shared.db = s.shared.db
  committed : ∀ j, (s'.own j).Committed ↔ (s.own j).Committed

/-- The commit of a request. -/
structure Traffic.CommitOf (t : Traffic ι) (i : ι) (s s' : Traffic.Threads ι) : Prop where
  first : ¬ (s.own i).Committed
  committed : ∀ j, (s'.own j).Committed ↔ (s.own j).Committed ∨ j = i
  applied : ∃ payload, (t.request i).route = .ingest payload
    ∧ Offered (t.env i) s.shared.db payload s'.shared.db

/-- **One move** commits nothing, or it is the first commit of its request. -/
theorem Traffic.committing_cases {m : Traffic.Move ι} (hm : Traffic.OnlyRequestsWrite s m)
    (hkept : Pool.Kept (fun i => handler (t.env i)) t.promise s m) :
    t.committing s m = none ∧ Traffic.Idle s (t.step s m)
      ∨ ∃ i, t.committing s m = some i ∧ t.CommitOf i s (t.step s m) := by
  cases m with
  | outside w => exact .inl ⟨rfl, hm, fun _ => Iff.rfl⟩
  | call i c =>
    cases hprog : s.prog i with
    | pure r =>
      have hstep : t.step s (.call i c) = s := by simp only [Traffic.step, Pool.State.step, hprog]
      refine .inl ⟨?_, ?_⟩
      · simp only [Traffic.committing, hstep, Bool.and_not_self, Bool.false_eq_true, if_false]
      · rw [hstep]
        exact ⟨rfl, fun _ => Iff.rfl⟩
    | call op k =>
      have hstep : t.step s (.call i c)
          = s.answer (fun i => handler (t.env i)) i c op k := by
        simp only [Traffic.step, Pool.State.step, hprog]
      have hother (j : ι) (hij : j ≠ i) : (t.step s (.call i c)).own j = s.own j := by
        rw [hstep]
        exact Function.update_of_ne hij _ _
      have hself : (t.step s (.call i c)).own i
          = (handler (t.env i) c op (s.shared, s.own i)).2.2 := by
        rw [hstep]
        exact Function.update_self ..
      have hshared : (t.step s (.call i c)).shared
          = (handler (t.env i) c op (s.shared, s.own i)).2.1 := by
        rw [hstep]
        rfl
      rcases hkept op k hprog with hstays | ⟨payload, hroute, hcommits⟩
      · have hsame : ((t.step s (.call i c)).own i).committed = (s.own i).committed := by
          rw [hself]
          exact Bool.eq_iff_iff.mpr hstays.committed
        refine .inl ⟨?_, ?_, fun j => ?_⟩
        · simp only [Traffic.committing, hsame, Bool.and_not_self, Bool.false_eq_true, if_false]
        · rw [hshared]
          exact hstays.db
        · by_cases hij : j = i
          · subst hij
            exact Bool.eq_iff_iff.mp hsame
          · rw [hother j hij]
      · have hfirst : (s.own i).committed = false := Bool.eq_false_iff.mpr hcommits.first
        have hafter : ((t.step s (.call i c)).own i).committed = true := by
          rw [hself]
          exact hcommits.committed
        refine .inr ⟨i, ?_, hcommits.first, fun j => ?_, payload, hroute, ?_⟩
        · simp only [Traffic.committing, hafter, hfirst, Bool.not_false, Bool.and_self, if_true]
        · by_cases hij : j = i
          · subst hij
            exact ⟨fun _ => .inr rfl, fun _ => hafter⟩
          · rw [hother j hij]
            exact ⟨.inl, fun h => h.resolve_right hij⟩
        · rw [hshared]
          exact hcommits.offered

/-- The tables are what the commits have made of them, and each request has committed once at
    most. -/
structure SerialisedBy (t : Traffic ι) (s s' : Traffic.Threads ι) (order : List ι) : Prop where
  applied : Applied t s.shared.db order s'.shared.db
  nodup : order.Nodup
  first : ∀ i ∈ order, ¬ (s.own i).Committed
  committed : ∀ i, (s'.own i).Committed ↔ (s.own i).Committed ∨ i ∈ order

/-- **Runs** of requests that keep their promises. -/
theorem serial_run {trace : List (Traffic.Move ι)}
    (hrun : Guarded t.step (fun s m => Traffic.OnlyRequestsWrite s m
      ∧ Pool.Kept (fun i => handler (t.env i)) t.promise s m) s trace) :
    SerialisedBy t s (run t.step s trace) (observed t.step t.committing s trace) := by
  induction trace generalizing s with
  | nil =>
    exact ⟨.nil _, List.nodup_nil, fun _ h => absurd h List.not_mem_nil,
      fun i => (or_iff_left List.not_mem_nil).symm⟩
  | cons m trace ih =>
    obtain ⟨⟨hm, hkept⟩, hrest⟩ := hrun
    have hrest := ih hrest
    rw [observed, run_cons]
    rcases Traffic.committing_cases hm hkept with ⟨hnone, hidle⟩ | ⟨i, hsome, hcommit⟩
    · rw [hnone]
      refine ⟨?_, hrest.nodup, fun j hj h => hrest.first j hj ((hidle.committed j).mpr h),
        fun j => (hrest.committed j).trans (or_congr_left (hidle.committed j))⟩
      have happlied := hrest.applied
      rw [hidle.db] at happlied
      exact happlied
    -- whoever commits now has not committed before and will not again
    · rw [hsome]
      obtain ⟨payload, hroute, hoffered⟩ := hcommit.applied
      refine ⟨.cons hroute hoffered hrest.applied, List.nodup_cons.mpr ⟨fun hi => ?_, hrest.nodup⟩,
        fun j hj => ?_, fun j => ?_⟩
      · exact hrest.first i hi ((hcommit.committed i).mpr (.inr rfl))
      · rcases List.mem_cons.mp hj with rfl | hj
        · exact hcommit.first
        · exact fun h => hrest.first j hj ((hcommit.committed j).mpr (.inl h))
      · rw [hrest.committed j, hcommit.committed j, or_assoc]
        exact or_congr_right List.mem_cons.symm

omit [DecidableEq ι] in
theorem compatible_promise (t : Traffic ι) :
    Pool.Compatible (ι := ι) (fun _ => Grown) t.promise where
  refl _ := .refl
  trans _ _ _ _ := Database.Grows.trans
  promise i j _ x y h := by
    rcases h with hstays | ⟨payload, -, hcommits⟩
    · show x.1.db.Grows y.1.db
      rw [hstays.db]
      exact .refl _
    · exact hcommits.offered.grows

/-- A run of requests is allowed, and every request complies from its start. -/
theorem Traffic.serial (t : Traffic ι) {w : World} {trace : List (Traffic.Move ι)}
    (hrun : Guarded t.step Traffic.OnlyRequestsWrite (t.start w) trace) :
    SerialisedBy t (t.start w) (t.after w trace) (t.commits w trace)
      ∧ ∀ i payload r, (t.request i).route = .ingest payload → (t.after w trace).prog i = .pure r →
        IngestEnd w.db payload r ((t.after w trace).own i).Committed := by
  have hcomply : Pool.AllComply (fun _ _ _ _ _ => True) (fun i => handler (t.env i))
      (fun _ => Grown) t.promise (fun i r _ l => ∀ payload, (t.request i).route = .ingest payload →
        IngestEnd w.db payload r l.Committed) (t.start w) :=
    fun i => complies_serveRequest (t.env i) (t.request i) (.refl w.db)
  have hallowed : Guarded t.step (Pool.Allowed (fun _ _ _ _ _ => True) fun _ => Grown) (t.start w)
      trace := by
    refine guarded_iff.mpr fun before m later hsplit => ?_
    have hm := guarded_iff.mp hrun before m later hsplit
    cases m with
    | call i c => exact fun _ _ _ => trivial
    | outside v =>
      intro _
      show Database.Grows _ v.db
      rw [hm]
      exact .refl _
  refine ⟨serial_run (hrun.and (Pool.kept_run (compatible_promise t) hcomply hallowed)), ?_⟩
  exact fun i payload r hroute hr =>
    Pool.ended_run (compatible_promise t) hcomply hallowed hr payload hroute

theorem Traffic.committed_iff {w : World} {trace : List (Traffic.Move ι)}
    (hrun : Guarded t.step Traffic.OnlyRequestsWrite (t.start w) trace) (i : ι) :
    ((t.after w trace).own i).Committed ↔ i ∈ t.commits w trace :=
  ((t.serial hrun).1.committed i).trans (or_iff_right nofun)

/-- A request that has ended commits before one that has not begun. -/
theorem Traffic.commits_inOrder {w : World} {before later : List (Traffic.Move ι)}
    (hrun : Guarded t.step Traffic.OnlyRequestsWrite (t.start w) (before ++ later)) {i j : ι}
    {r : Except Exn Response} (hended : (t.after w before).prog i = .pure r)
    (hbegins : ∀ m ∈ before, ∀ c, m ≠ .call j c) (hi : i ∈ t.commits w (before ++ later))
    (hj : j ∈ t.commits w (before ++ later)) :
    List.Sublist [i, j] (t.commits w (before ++ later)) := by
  have hbefore := (guarded_append.mp hrun).1
  -- the session of `i` stays as it is, that of `j` is still empty
  have hidone : i ∈ t.commits w before := by
    rw [← Traffic.committed_iff hbefore]
    rw [← Traffic.committed_iff hrun, Traffic.after_append] at hi
    exact (Pool.run_ended hended).1 ▸ hi
  have hjnot : j ∉ t.commits w before := by
    rw [← Traffic.committed_iff hbefore]
    have hown := (Pool.run_other (s := t.start w) (h := fun i => handler (t.env i)) hbegins).1
    show ¬ Session.Committed ((run t.step (t.start w) before).own j)
    have hempty : (run t.step (t.start w) before).own j = {} := hown
    rw [hempty]
    exact nofun
  have happend : t.commits w (before ++ later) = t.commits w before
      ++ observed t.step t.committing (t.after w before) later := observed_append ..
  rw [happend] at hj ⊢
  exact (List.singleton_sublist.mpr hidone).append
    (List.singleton_sublist.mpr ((List.mem_append.mp hj).resolve_left hjnot))

/-- **Ingests are serialisable**: in every run of requests, whatever fails, the price table is what
    the committed payloads make of it, offered one after the other in the order of their commits,
    each once.  A request that is answered has counted its items and committed the known ones; one
    that fails has committed none; one that ends before another begins comes before it. -/
theorem ingests_serialise (t : Traffic ι) (w : World) (trace : List (Traffic.Move ι))
    (hrun : Guarded t.step Traffic.OnlyRequestsWrite (t.start w) trace) :
    Applied t w.db (t.commits w trace) (t.after w trace).shared.db
      ∧ (t.commits w trace).Nodup
      ∧ (∀ i payload r, (t.request i).route = .ingest payload → (t.after w trace).prog i = .pure r →
          IngestEnd w.db payload r (i ∈ t.commits w trace))
      ∧ ∀ before later i j r, trace = before ++ later → (t.after w before).prog i = .pure r →
          (∀ m ∈ before, ∀ c, m ≠ .call j c) → i ∈ t.commits w trace → j ∈ t.commits w trace →
          List.Sublist [i, j] (t.commits w trace) := by
  obtain ⟨hserial, hends⟩ := t.serial hrun
  refine ⟨hserial.applied, hserial.nodup, fun i payload r hroute hr => ?_, ?_⟩
  · have hend := hends i payload r hroute hr
    rwa [propext (Traffic.committed_iff hrun i)] at hend
  · rintro before later i j r rfl hended hbegins hi hj
    exact Traffic.commits_inOrder hrun hended hbegins hi hj

theorem three_range : (0 : ℚ) < 3 ∧ (3 : ℚ) ≤ 1000 := by norm_num

/-- An observation that is posted twice, at two prices. -/
def dearerItem : PricePointIn := itemOf "H100 SXM" 3 h100_length three_range

/-- Two ingests of the observation. -/
def twoIngests : Traffic Nat where
  env _ := env
  request i := ⟨some "local-dev-key", .ingest [if i = 1 then oneItem else dearerItem]⟩

/-- The first ingest inserts its row, the second inserts and commits, then the first commits. -/
def crossingCommits : List (Traffic.Move Nat) :=
    calls [1, 1, 1, 1, 1, 2, 2, 2, 2, 2, 2, 1, 1, 1, 2, 2]

example : twoIngests.commits (worldOf (catalogue ⟨1, by decide⟩)) crossingCommits = [2, 1] := by
  with_unfolding_all rfl

theorem onlyRequestsWrite_crossing : Guarded twoIngests.step Traffic.OnlyRequestsWrite
    (twoIngests.start (worldOf (catalogue ⟨1, one_range⟩))) crossingCommits := by
  refine guarded_iff.mpr fun before m after h => ?_
  have hmem : m ∈ crossingCommits := h ▸ List.mem_append_right _ List.mem_cons_self
  obtain ⟨i, -, rfl⟩ := List.mem_map.mp hmem
  trivial

theorem ingests_serialise_crossing :
    Applied twoIngests (catalogue ⟨1, one_range⟩)
        (twoIngests.commits (worldOf (catalogue ⟨1, one_range⟩)) crossingCommits)
        (twoIngests.after (worldOf (catalogue ⟨1, one_range⟩)) crossingCommits).shared.db
      ∧ (twoIngests.commits (worldOf (catalogue ⟨1, one_range⟩)) crossingCommits).Nodup
      ∧ (∀ i payload r, (twoIngests.request i).route = .ingest payload →
          (twoIngests.after (worldOf (catalogue ⟨1, one_range⟩)) crossingCommits).prog i = .pure r →
          IngestEnd (catalogue ⟨1, one_range⟩) payload r
            (i ∈ twoIngests.commits (worldOf (catalogue ⟨1, one_range⟩)) crossingCommits))
      ∧ ∀ before later i j r, crossingCommits = before ++ later →
          (twoIngests.after (worldOf (catalogue ⟨1, one_range⟩)) before).prog i = .pure r →
          (∀ m ∈ before, ∀ c, m ≠ .call j c) →
          i ∈ twoIngests.commits (worldOf (catalogue ⟨1, one_range⟩)) crossingCommits →
          j ∈ twoIngests.commits (worldOf (catalogue ⟨1, one_range⟩)) crossingCommits →
          List.Sublist [i, j] (twoIngests.commits
            (worldOf (catalogue ⟨1, one_range⟩)) crossingCommits) :=
  ingests_serialise twoIngests (worldOf (catalogue ⟨1, one_range⟩)) crossingCommits
    onlyRequestsWrite_crossing

end GpuIndex
