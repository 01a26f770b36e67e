/-
  A feed that is posted in batches.

  SPECIFICATION.  `Stores` says what a list of items does to the tables, with no batch in it: the
  known items are bound and inserted one after the other.

  The crux is `stores_append`: a list is stored exactly if its first part is and then the rest,
  since neither the names nor the bound values of an item depend on the rows that went in before it.
   A post stores its payload or changes nothing (`stored_iff_of_end`), so **`chunks_do_not_show`**:
  however a feed is cut into batches that fit, the same tables come out, ids and all, or none of the
  ways is answered.  A batch that comes again finds every key taken, so **`replay_adds_nothing`**
  but used-up ids.
-/
import GpuIndex.Api.StoredBatches

namespace GpuIndex

open Calendar

/-! ## Storing a list of items -/

section Stores

variable {env : Env} {db mid db' : Database} {item : PricePointIn} {items more : List PricePointIn}

/-- The values the statement binds for a known item. -/
def Binds (env : Env) (db : Database) (item : PricePointIn) (v : PriceValues) : Prop :=
  ∃ row, Resolves db item row ∧ row.bind env = .ok v

/-- The known items, bound and inserted in order. -/
def Stores (env : Env) (db : Database) (items : List PricePointIn) (db' : Database) : Prop :=
  ∃ values, List.Forall₂ (Binds env db) (items.filter (Known db)) values
    ∧ db.insertPrices values = .ok db'

/-- Names are unique, so an item has one row. -/
theorem Resolves.unique {row row' : PriceParams} (h : Resolves db item row)
    (h' : Resolves db item row') : row = row' := by
  obtain ⟨g, hg, hgname, p, hp, hpname, rfl⟩ := h
  obtain ⟨g', hg', hgname', p', hp', hpname', rfl⟩ := h'
  have hgg : g = g' := List.inj_on_of_nodup_map db.constraints.gpu_models_model_name_key hg hg'
    (Varchar.val_injective (hgname.trans hgname'.symm))
  have hpp : p = p' := List.inj_on_of_nodup_map db.constraints.providers_name_key hp hp'
    (Varchar.val_injective (hpname.trans hpname'.symm))
  rw [hgg, hpp]

theorem binds_unique : Relator.RightUnique (Binds env db) := by
  rintro item v v' ⟨row, hrow, hv⟩ ⟨row', hrow', hv'⟩
  obtain rfl := hrow.unique hrow'
  exact Except.ok.inj (hv.symm.trans hv')

theorem Binds.observes {v : PriceValues} (h : Binds env db item v) : Observes env db item v := by
  obtain ⟨row, hrow, hv⟩ := h
  exact observes_of_bind hrow hv

/-- The names mean the same in a table that has grown. -/
theorem Database.Grows.binds_eq (h : db.Grows db') : Binds env db' = Binds env db := by
  funext item v
  simp only [Binds, Resolves, h.gpuModels, h.providers]

/-- What is related to a list in two parts comes in two parts. -/
theorem forall₂_append_left {α β : Type} {R : α → β → Prop} {as as' : List α} {bs : List β} :
    List.Forall₂ R (as ++ as') bs
      ↔ ∃ front back, bs = front ++ back ∧ List.Forall₂ R as front ∧ List.Forall₂ R as' back := by
  constructor
  · intro h
    have hflip := h.flip
    exact ⟨bs.take as.length, bs.drop as.length, (List.take_append_drop _ bs).symm,
      (List.forall₂_take_append bs as as' hflip).flip,
      (List.forall₂_drop_append bs as as' hflip).flip⟩
  · rintro ⟨front, back, rfl, hfront, hback⟩
    exact List.rel_append hfront hback

theorem Database.insertPrices_append (db : Database) (values more : List PriceValues) :
    db.insertPrices (values ++ more) = db.insertPrices values >>= fun mid =>
    mid.insertPrices more :=
  List.foldlM_append

theorem Stores.grows (h : Stores env db items db') : db.Grows db' := by
  obtain ⟨values, -, hdb⟩ := h
  exact (Database.insertPrices_ok hdb).1

/-- Storing is a function of the items. -/
theorem Stores.unique {db'' : Database} (h : Stores env db items db')
    (h' : Stores env db items db'') : db' = db'' := by
  obtain ⟨values, hvalues, hdb⟩ := h
  obtain ⟨values', hvalues', hdb'⟩ := h'
  obtain rfl := binds_unique.forall₂ hvalues hvalues'
  exact Except.ok.inj (hdb.symm.trans hdb')

@[simp] theorem stores_nil : Stores env db [] db' ↔ db' = db := by
  constructor
  · rintro ⟨values, hvalues, hdb⟩
    obtain rfl := List.forall₂_nil_left_iff.mp hvalues
    exact (Except.ok.inj hdb).symm
  · rintro rfl
    exact ⟨[], .nil, rfl⟩

/-- **The crux**: a list is stored part by part. -/
theorem stores_append :
    Stores env db (items ++ more) db' ↔ ∃ mid, Stores env db items mid
    ∧ Stores env mid more db' := by
  constructor
  · rintro ⟨values, hvalues, hdb⟩
    rw [List.filter_append] at hvalues
    obtain ⟨front, back, rfl, hfront, hback⟩ := forall₂_append_left.mp hvalues
    rw [Database.insertPrices_append] at hdb
    obtain ⟨mid, hmid, hrest⟩ := bind_ok hdb
    have hgrows : db.Grows mid := (Database.insertPrices_ok hmid).1
    refine ⟨mid, ⟨front, hfront, hmid⟩, back, ?_, hrest⟩
    rw [hgrows.binds_eq]
    simpa only [hgrows.known_iff] using hback
  · rintro ⟨mid, hfirst, hsecond⟩
    have hgrows := hfirst.grows
    obtain ⟨front, hfront, hmid⟩ := hfirst
    obtain ⟨back, hback, hrest⟩ := hsecond
    rw [hgrows.binds_eq] at hback
    simp only [hgrows.known_iff] at hback
    refine ⟨front ++ back, ?_, ?_⟩
    · rw [List.filter_append]
      exact List.rel_append hfront hback
    · rw [Database.insertPrices_append, hmid]
      exact hrest

end Stores

/-! ## One post -/

section Post

variable {env : Env} {db db' : Database} {items payload : List PricePointIn}

/-- Rows that were bound are what their items bind. -/
theorem forall₂_binds {rows : List PriceParams} {values : List PriceValues}
    (hrows : List.Forall₂ (Resolves db) items rows)
    (hvalues : rows.mapM (PriceParams.bind env) = .ok values) :
    List.Forall₂ (Binds env db) items values := by
  have hbound := mapM_ok hvalues
  clear hvalues
  induction hrows generalizing values with
  | nil =>
    cases hbound
    exact .nil
  | cons hrow _ ih =>
    cases hbound with
    | cons hv hrest => exact .cons ⟨_, hrow, hv⟩ (ih hrest)

/-- Rows of items that are bound are bound to the same values. -/
theorem mapM_bind_of_binds {rows : List PriceParams} {values : List PriceValues}
    (hrows : List.Forall₂ (Resolves db) items rows)
    (hvalues : List.Forall₂ (Binds env db) items values) :
    rows.mapM (PriceParams.bind env) = .ok values := by
  induction hrows generalizing values with
  | nil =>
    cases hvalues
    rfl
  | cons hrow _ ih =>
    cases hvalues with
    | cons hv hrest =>
      obtain ⟨row', hrow', hv⟩ := hv
      obtain rfl := hrow.unique hrow'
      rw [List.mapM_cons, hv, ih hrest]
      rfl

/-- Within the size of a statement the rows of a payload are stored as its items are. -/
theorem storeRows_eq_ok_iff {rows : List PriceParams}
    (hrows : List.Forall₂ (Resolves db) (payload.filter (Known db)) rows) :
    db.storeRows env rows = .ok db'
      ↔ Stores env db payload db' ∧ (payload.filter (Known db)).length ≤ 4681 := by
  have hsize : maxBindParameters < rows.length * parametersPerRow
      ↔ ¬ (payload.filter (Known db)).length ≤ 4681 := by
    rw [hrows.length_eq]
    unfold maxBindParameters parametersPerRow
    omega
  rw [Database.storeRows, bindRows]
  split
  · rename_i hbig
    exact ⟨fun h => (by cases h), fun h => absurd h.2 (hsize.mp hbig)⟩
  · rename_i hsmall
    have hfits : (payload.filter (Known db)).length ≤ 4681 := not_not.mp (hsize.not.mp hsmall)
    constructor
    · intro h
      obtain ⟨values, hvalues, hdb⟩ := bind_ok h
      exact ⟨⟨values, forall₂_binds hrows hvalues, hdb⟩, hfits⟩
    · rintro ⟨⟨values, hvalues, hdb⟩, -⟩
      rw [mapM_bind_of_binds hrows hvalues]
      exact hdb

/-- A post that is answered has stored its payload; one that fails could not have. -/
theorem BatchEnd.stored_iff {α : Type} {r : Except Exn α} {db₁ : Database}
    (h : BatchEnd env db payload r db₁) :
    ((∃ a, r = .ok a) ∧ db₁ = db')
      ↔ Stores env db payload db' ∧ (payload.filter (Known db)).length ≤ 4681 := by
  cases h with
  | stored a hrows hstored =>
    have hstores := (storeRows_eq_ok_iff hrows).mp hstored
    constructor
    · rintro ⟨-, rfl⟩
      exact hstores
    · exact fun h => ⟨⟨a, rfl⟩, hstores.1.unique h.1⟩
  | failed hrows hfailed =>
    constructor
    · rintro ⟨⟨_, ⟨⟩⟩, _⟩
    · intro h
      cases ((storeRows_eq_ok_iff hrows).mpr h).symm.trans hfailed

/-- What an answered post reports of its payload. -/
structure Reports (db : Database) (payload : List PricePointIn) (result : IngestResult) : Prop where
  accepted : result.accepted = (payload.filter (Known db)).length
  rejected : result.rejected = (payload.filter fun i => ¬ Known db i).length
  errors : result.errors
    = ((payload.filter fun i => ¬ Known db i).map (unknownName db)).take 20

theorem wp_ingest_reports {C : Choice → Prop} {m : Machine} (hpending : m.session.pending = []) :
    Svc.wp env C (ingest payload) (fun r _ => ∀ result, r = .ok result →
      Reports m.world.db payload result) m := by
  unfold ingest
  dsimp only
  split
  · exact nofun
  · refine Svc.wp_seq (wp_ingestPrices env payload hpending)
      (fun report m₁ h => ?_) fun _ _ _ => nofun
    obtain ⟨accepted, rejected, errors⟩ := report
    have hone : Ingested env m.world.db payload (accepted, rejected, errors) m₁.world.db := h
    refine Svc.wp_seq (wp_invalidatePrefix env _ _) (fun n m₂ _ => ?_) fun _ _ _ => nofun
    refine Svc.wp_seq (wp_invalidatePrefix env _ _) (fun n' m₃ _ => ?_) fun _ _ _ => nofun
    rintro result ⟨⟩
    refine ⟨hone.accepted, ?_, congrArg (List.take 20) hone.errors⟩
    rw [← List.length_map (unknownName m.world.db), ← hone.errors]
    exact hone.rejected

end Post

/-! ## A feed -/

/-- One post of a feed: its payload, the world it meets besides the tables, and how its calls are
    answered. -/
structure Post where
  payload : List PricePointIn
  world : World
  choices : Nat → Choice

/-- Post the payload to the tables. -/
def Post.send (env : Env) (p : Post) (db : Database) : Except Exn IngestResult × Machine :=
  runSvc env p.choices (ingest p.payload) ⟨{ p.world with db := db }, {}⟩

/-- Post after post, up to the first that is not answered: the answers, and the tables at the
    end. -/
def postAll (env : Env) (db : Database) : List Post → Except Exn (List IngestResult × Database)
  | [] => .ok ([], db)
  | p :: posts =>
    match (p.send env db).1 with
    | .error e => .error e
    | .ok result =>
      match postAll env (p.send env db).2.world.db posts with
      | .error e => .error e
      | .ok (results, db') => .ok (result :: results, db')

/-- The server answers, the batch is one the route admits and its known items fit in a statement. -/
structure Post.Fits (db : Database) (p : Post) : Prop where
  answers : ∀ n, (p.choices n).Answers
  limit : p.payload.length ≤ 5000
  size : (p.payload.filter (Known db)).length ≤ 4681

/-- The totals of a feed that was answered, and the tables it left. -/
def tally : Except Exn (List IngestResult × Database) → Option (Nat × Nat × Database)
  | .error _ => none
  | .ok (results, db) =>
    some ((results.map IngestResult.accepted).sum, (results.map IngestResult.rejected).sum, db)

section Feed

variable {env : Env} {db db' : Database} {p : Post} {posts : List Post}

theorem Post.Fits.of_grows (h : p.Fits db) (hgrows : db.Grows db') : p.Fits db' where
  answers := h.answers
  limit := h.limit
  size := by simpa only [hgrows.known_iff] using h.size

theorem Post.send_end (h : p.Fits db) :
    BatchEnd env db p.payload (p.send env db).1 (p.send env db).2.world.db :=
  run_ingest_answers env h.answers { p.world with db := db } h.limit

theorem Post.send_reports {result : IngestResult} (h : (p.send env db).1 = .ok result) :
    Reports db p.payload result :=
  runSvc_of_wp p.choices (fun _ => trivial)
    (wp_ingest_reports (C := fun _ => True) (m := ⟨{ p.world with db := db }, {}⟩) rfl) result h

/-- A post that fits is answered exactly if its payload can be stored, and then it is. -/
theorem Post.send_ok_iff (h : p.Fits db) :
    ((∃ result, (p.send env db).1 = .ok result) ∧ (p.send env db).2.world.db = db')
      ↔ Stores env db p.payload db' := by
  rw [(Post.send_end h).stored_iff]
  exact and_iff_left h.size

theorem tally_nil : tally (postAll env db []) = some (0, 0, db) := rfl

/-- The totals of a feed, from those of its first post and of the rest. -/
theorem tally_cons {accepted rejected : Nat} :
    tally (postAll env db (p :: posts)) = some (accepted, rejected, db')
      ↔ ∃ result, (p.send env db).1 = .ok result
        ∧ ∃ a r, tally (postAll env (p.send env db).2.world.db posts) = some (a, r, db')
          ∧ accepted = result.accepted + a ∧ rejected = result.rejected + r := by
  rw [postAll]
  cases (p.send env db).1 with
  | error e => exact ⟨(fun h => nomatch h), fun ⟨_, h, _⟩ => nomatch h⟩
  | ok result =>
    cases postAll env (p.send env db).2.world.db posts with
    | error e => exact ⟨(fun h => nomatch h), fun ⟨_, _, _, _, h, _⟩ => nomatch h⟩
    | ok answered =>
      obtain ⟨results, last⟩ := answered
      simp only [tally, Option.some.injEq, Prod.mk.injEq, List.map_cons, List.sum_cons]
      constructor
      · rintro ⟨rfl, rfl, rfl⟩
        exact ⟨result, rfl, _, _, ⟨rfl, rfl, rfl⟩, rfl, rfl⟩
      · rintro ⟨result', heq, a, r, ⟨rfl, rfl, rfl⟩, rfl, rfl⟩
        cases heq
        exact ⟨rfl, rfl, rfl⟩

/-- **The feed as one list**: its posts are answered exactly if their items, one list after the
    other, can be stored, and they count the known and the unknown items of that list. -/
theorem tally_postAll (hfits : ∀ p ∈ posts, p.Fits db) {accepted rejected : Nat} :
    tally (postAll env db posts) = some (accepted, rejected, db')
      ↔ Stores env db (posts.flatMap Post.payload) db'
        ∧ accepted = ((posts.flatMap Post.payload).filter (Known db)).length
        ∧ rejected = ((posts.flatMap Post.payload).filter fun i => ¬ Known db i).length := by
  induction posts generalizing db accepted rejected with
  | nil =>
    rw [tally_nil, List.flatMap_nil, stores_nil, Option.some.injEq, Prod.mk.injEq, Prod.mk.injEq]
    exact ⟨fun ⟨ha, hr, hdb⟩ => ⟨hdb.symm, ha.symm, hr.symm⟩,
      fun ⟨hdb, ha, hr⟩ => ⟨ha.symm, hr.symm, hdb.symm⟩⟩
  | cons p posts ih =>
    obtain ⟨hp, hposts⟩ := List.forall_mem_cons.mp hfits
    rw [tally_cons, List.flatMap_cons, stores_append, List.filter_append, List.filter_append,
      List.length_append, List.length_append]
    constructor
    · rintro ⟨result, hresult, a, r, hrest, rfl, rfl⟩
      have hstores := (Post.send_ok_iff hp).mp ⟨⟨result, hresult⟩, rfl⟩
      have hgrows := hstores.grows
      obtain ⟨hstored, rfl, rfl⟩ := (ih fun q hq => (hposts q hq).of_grows hgrows).mp hrest
      have hreports := Post.send_reports hresult
      simp only [hgrows.known_iff]
      exact ⟨⟨_, hstores, hstored⟩, by rw [hreports.accepted], by rw [hreports.rejected]⟩
    · rintro ⟨⟨mid, hfirst, hrest⟩, rfl, rfl⟩
      have hgrows := hfirst.grows
      obtain ⟨⟨result, hresult⟩, rfl⟩ := (Post.send_ok_iff hp).mpr hfirst
      have hreports := Post.send_reports hresult
      refine ⟨result, hresult, _, _,
        (ih fun q hq => (hposts q hq).of_grows hgrows).mpr ⟨hrest, rfl, rfl⟩, ?_, ?_⟩
      · simp only [hgrows.known_iff]
        rw [hreports.accepted]
      · simp only [hgrows.known_iff]
        rw [hreports.rejected]

/-- **How a feed is cut does not show**: two ways to cut it into posts that fit are both answered or
    both not, and then they count the same items and leave the same tables, the ids included. -/
theorem chunks_do_not_show (env : Env) (db : Database) (posts posts' : List Post)
    (hfits : ∀ p ∈ posts, p.Fits db) (hfits' : ∀ p ∈ posts', p.Fits db)
    (hsame : posts.flatMap Post.payload = posts'.flatMap Post.payload) :
    tally (postAll env db posts) = tally (postAll env db posts') := by
  refine Option.ext fun ⟨accepted, rejected, db'⟩ => ?_
  rw [tally_postAll hfits, tally_postAll hfits', hsame]

end Feed

/-- A post of the items on the smallest catalogue. -/
def calmPost (payload : List PricePointIn) : Post :=
  ⟨payload, worldOf (catalogue ⟨1, one_range⟩), fun _ => .calm⟩

/-- Two observations of one thing, in one post and in two. -/
def together : List Post := [calmPost [oneItem, almostFree]]

def apart : List Post := [calmPost [oneItem], calmPost [almostFree]]

theorem fits_together : ∀ p ∈ together, p.Fits (catalogue ⟨1, one_range⟩) := by
  intro p hp
  cases List.mem_singleton.mp hp
  exact ⟨fun _ => Choice.answers_calm, by decide, by decide⟩

theorem fits_apart : ∀ p ∈ apart, p.Fits (catalogue ⟨1, one_range⟩) := by
  intro p hp
  rcases List.mem_pair.mp hp with rfl | rfl
  · exact ⟨fun _ => Choice.answers_calm, by decide, by decide⟩
  · exact ⟨fun _ => Choice.answers_calm, by decide, by decide⟩

theorem chunks_do_not_show_two : tally (postAll env (catalogue ⟨1, one_range⟩) together)
    = tally (postAll env (catalogue ⟨1, one_range⟩) apart) :=
  chunks_do_not_show env (catalogue ⟨1, one_range⟩) together apart fits_together fits_apart rfl

example : (tally (postAll env (catalogue ⟨1, one_range⟩) apart)).map (fun t => (t.1, t.2.1))
    = some (2, 0) := by with_unfolding_all rfl

/-! ## A batch that comes again -/

/-- The tables when `n` more ids have been handed out. -/
def Database.spendIds (db : Database) (n : Nat) : Database where
  toTables := { db.toTables with lastPriceId := db.lastPriceId + n }
  constraints := ⟨db.constraints.1, db.constraints.2, db.constraints.3, db.constraints.4,
    db.constraints.5, db.constraints.6, db.constraints.7, db.constraints.8, db.constraints.9,
    db.constraints.10⟩

section Replay

variable {env : Env} {db db₁ later : Database} {item : PricePointIn} {items : List PricePointIn}

/-- Values whose keys are all taken are skipped, each at the price of an id. -/
theorem Database.insertPrices_taken {values : List PriceValues}
    (h : ∀ v ∈ values, v.key ∈ db.priceValues.map PriceValues.key) :
    db.insertPrices values = if values.length = 0
    ∨ db.lastPriceId + values.length < 9223372036854775808
      then .ok (db.spendIds values.length) else .error .sequenceExhausted := by
  induction values generalizing db with
  | nil => rw [if_pos (.inl rfl)]; rfl
  | cons v values ih =>
    obtain ⟨hv, hrest⟩ := List.forall_mem_cons.mp h
    rw [Database.insertPrices, List.foldlM_cons, List.length_cons]
    unfold Database.insertPrice Tables.nextPriceId
    by_cases hroom : db.lastPriceId + 1 < 9223372036854775808
    · rw [dif_pos hroom]
      dsimp only
      rw [dif_pos hv]
      have hskip := @ih ⟨db.toTables.skipPrice, db.constraints.skipPrice⟩ hrest
      refine hskip.trans ?_
      show (if values.length = 0 ∨ db.lastPriceId + 1 + values.length < 9223372036854775808
        then Except.ok (Database.spendIds ⟨db.toTables.skipPrice, db.constraints.skipPrice⟩ _)
        else _) = _
      have hspent :
          Database.spendIds ⟨db.toTables.skipPrice, db.constraints.skipPrice⟩ values.length
          = db.spendIds (values.length + 1) := by
        have hids :
            db.lastPriceId + 1 + values.length = db.lastPriceId + (values.length + 1) := by omega
        simp only [Database.spendIds, Tables.skipPrice, hids]
      rw [hspent]
      refine if_congr ⟨?_, ?_⟩ rfl rfl
      · exact fun _ => .inr (by omega)
      · exact fun _ => .inr (by omega)
    · rw [dif_neg hroom, if_neg (by omega)]
      rfl

/-- What has been stored is bound to a key of the table. -/
theorem Stores.taken (h : Stores env db items db₁) (hitem : item ∈ items) (hknown : Known db item) :
    ∃ v, Binds env db item v ∧ v.key ∈ db₁.priceValues.map PriceValues.key := by
  obtain ⟨values, hvalues, hdb⟩ := h
  have hmem : item ∈ items.filter (Known db) := List.mem_filter.mpr ⟨hitem, decide_eq_true hknown⟩
  obtain ⟨v, hv, hbinds⟩ := forall₂_mem_right hvalues.flip hmem
  refine ⟨v, hbinds, ?_⟩
  rw [(Database.insertPrices_ok hdb).2]
  exact (FirstWins.mem_map_insertAll PriceValues.key).mpr (.inr (List.mem_map_of_mem hv))

/-- A list whose members are all related to something. -/
theorem exists_forall₂ {α β : Type} {R : α → β → Prop} {as : List α} (h : ∀ a ∈ as, ∃ b, R a b) :
    ∃ bs, List.Forall₂ R as bs := by
  induction as with
  | nil => exact ⟨[], .nil⟩
  | cons a as ih =>
    obtain ⟨⟨b, hab⟩, hrest⟩ := List.forall_mem_cons.mp h
    obtain ⟨bs, hbs⟩ := ih hrest
    exact ⟨b :: bs, .cons hab hbs⟩

/-- Items that are stored already, in a table that has grown since. -/
theorem binds_taken (h : Stores env db items db₁) (hgrows : db₁.Grows later)
    {again : List PricePointIn} (hsub : ∀ item ∈ again, item ∈ items) :
    ∃ values, List.Forall₂ (Binds env later) (again.filter (Known later)) values
      ∧ ∀ v ∈ values, v.key ∈ later.priceValues.map PriceValues.key := by
  have hall : db.Grows later := h.grows.trans hgrows
  have hone : ∀ item ∈ again.filter (Known later),
      ∃ v, Binds env later item v ∧ v.key ∈ later.priceValues.map PriceValues.key := by
    intro item hitem
    obtain ⟨hmem, hknown⟩ := List.mem_filter.mp hitem
    rw [decide_eq_true_iff, hall.known_iff] at hknown
    obtain ⟨v, hv, hkey⟩ := h.taken (hsub item hmem) hknown
    refine ⟨v, hall.binds_eq ▸ hv, ?_⟩
    have hprefix : db₁.priceValues.map PriceValues.key <+: later.priceValues.map PriceValues.key :=
      (hgrows.pricePoints.map PricePoint.toPriceValues).map PriceValues.key
    exact hprefix.subset hkey
  obtain ⟨values, hvalues⟩ := exists_forall₂ hone
  refine ⟨values, hvalues.imp fun _ _ h => h.1, fun v hv => ?_⟩
  obtain ⟨item, -, -, hkey⟩ := forall₂_mem_right hvalues hv
  exact hkey

/-- **A replay adds nothing**: when a feed has been answered, a post of items of that feed, in any
    selection and order and however many times, finds the tables with every price point there and
    leaves them so.  It is answered as long as there is an id for each of its known items, and then
    reports them as accepted. -/
theorem replay_adds_nothing (env : Env) (db : Database) (posts : List Post)
    (hfits : ∀ p ∈ posts, p.Fits db) {results : List IngestResult} {db₁ later : Database}
    (hposted : postAll env db posts = .ok (results, db₁)) (hgrows : db₁.Grows later) (p : Post)
    (hp : p.Fits later) (hsub : ∀ item ∈ p.payload, item ∈ posts.flatMap Post.payload) :
    let known := (p.payload.filter (Known db)).length
    ((∃ result, (p.send env later).1 = .ok result)
        ↔ known = 0 ∨ later.lastPriceId + known < 9223372036854775808)
      ∧ (∀ result, (p.send env later).1 = .ok result → Reports db p.payload result
          ∧ (p.send env later).2.world.db = later.spendIds known)
      ∧ (p.send env later).2.world.db.pricePoints = later.pricePoints := by
  have hstores : Stores env db (posts.flatMap Post.payload) db₁ :=
    ((tally_postAll hfits).mp (by rw [hposted]; rfl)).1
  have hall : db.Grows later := hstores.grows.trans hgrows
  obtain ⟨values, hvalues, htaken⟩ := binds_taken hstores hgrows hsub
  have hknown : p.payload.filter (Known later) = p.payload.filter (Known db) := by
    simp only [hall.known_iff]
  have hlength : values.length = (p.payload.filter (Known db)).length := by
    rw [← hknown, hvalues.length_eq]
  have hinsert := Database.insertPrices_taken htaken
  rw [hlength] at hinsert
  -- whatever is stored is these values
  have hstored (db' : Database) : Stores env later p.payload db'
      ↔ later.insertPrices values = .ok db' :=
    ⟨fun ⟨values', hvalues', h⟩ => by rwa [binds_unique.forall₂ hvalues hvalues'],
      fun h => ⟨values, hvalues, h⟩⟩
  dsimp only
  by_cases hroom : (p.payload.filter (Known db)).length = 0
      ∨ later.lastPriceId + (p.payload.filter (Known db)).length < 9223372036854775808
  · rw [if_pos hroom] at hinsert
    obtain ⟨hok, hdb⟩ := (Post.send_ok_iff hp).mpr ((hstored _).mpr hinsert)
    refine ⟨⟨fun _ => hroom, fun _ => hok⟩, fun result h => ⟨?_, hdb⟩, by rw [hdb]; rfl⟩
    have hreports := Post.send_reports h
    exact ⟨by rw [hreports.accepted, hknown],
      by simpa only [hall.known_iff] using hreports.rejected,
      by simpa only [hall.known_iff, hall.unknownName_eq] using hreports.errors⟩
  · rw [if_neg hroom] at hinsert
    have hnot : ∀ result, (p.send env later).1 ≠ .ok result := by
      intro result h
      have hdb := (hstored _).mp ((Post.send_ok_iff hp).mp ⟨⟨result, h⟩, rfl⟩)
      cases hinsert.symm.trans hdb
    refine ⟨⟨fun ⟨result, h⟩ => absurd h (hnot result), fun h => absurd h hroom⟩,
      fun result h => absurd h (hnot result), ?_⟩
    have hend : BatchEnd env later p.payload (p.send env later).1 (p.send env later).2.world.db :=
      Post.send_end hp
    generalize (p.send env later).1 = r at hend hnot
    generalize (p.send env later).2.world.db = db' at hend ⊢
    cases hend with
    | stored a _ _ => exact absurd rfl (hnot a)
    | failed _ _ => rfl

end Replay

/-- The tables after the first observation. -/
def afterOne : Database := ((calmPost [oneItem]).send env (catalogue ⟨1, one_range⟩)).2.world.db

theorem postAll_one : postAll env (catalogue ⟨1, one_range⟩) [calmPost [oneItem]]
    = .ok ([⟨1, 0, 0, []⟩], afterOne) := by with_unfolding_all rfl

theorem replay_adds_nothing_one :
    ((∃ result, ((calmPost [oneItem, oneItem]).send env afterOne).1 = .ok result)
        ↔ ([oneItem, oneItem].filter (Known (catalogue ⟨1, one_range⟩))).length = 0
          ∨ afterOne.lastPriceId + ([oneItem, oneItem].filter
              (Known (catalogue ⟨1, one_range⟩))).length < 9223372036854775808)
      ∧ (∀ result, ((calmPost [oneItem, oneItem]).send env afterOne).1 = .ok result →
          Reports (catalogue ⟨1, one_range⟩) [oneItem, oneItem] result
            ∧ ((calmPost [oneItem, oneItem]).send env afterOne).2.world.db = afterOne.spendIds
                ([oneItem, oneItem].filter (Known (catalogue ⟨1, one_range⟩))).length)
      ∧ ((calmPost [oneItem, oneItem]).send env afterOne).2.world.db.pricePoints
          = afterOne.pricePoints :=
  replay_adds_nothing env (catalogue ⟨1, one_range⟩) [calmPost [oneItem]]
    (fun p hp => by
      cases List.mem_singleton.mp hp
      exact ⟨fun _ => Choice.answers_calm, by decide, by decide⟩)
    postAll_one (.refl afterOne) (calmPost [oneItem, oneItem])
    ⟨fun _ => Choice.answers_calm, by decide, (List.length_filter_le _ _).trans (by decide)⟩
    (fun item hitem => by simpa [calmPost] using hitem)

end GpuIndex
