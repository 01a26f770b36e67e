/-
  What runs of ingest calls do to the price table.

  `Known` and `Observes` say what an item means on a catalogue, without the loop and the name tables
  of the code.  `wp_ingestPrices` is the specification of one call; by induction over the calls the
  table is a map in which the first writer of a key wins (**`ingests_first_writer_wins`**).  A call
  counts the items it offers, not the rows it adds (**`accepted_counts_known`**).
-/
import GpuIndex.Fixture
import GpuIndex.Services.Ingestion

namespace GpuIndex

open Calendar

/-! ## What an item means -/

/-- Both names of the item are in the catalogue. -/
def Known (db : Database) (item : PricePointIn) : Prop :=
  item.gpuModelName ∈ db.gpuModels.map (fun g => g.modelName.val)
    ∧ item.providerName ∈ db.providers.map (fun p => p.name.val)

instance (db : Database) (item : PricePointIn) : Decidable (Known db item) :=
  inferInstanceAs (Decidable (_ ∧ _))

/-- The values are those of the item: its names looked up, its price as the column stores it, its
    time as an instant. -/
structure Observes (env : Env) (db : Database) (item : PricePointIn) (v : PriceValues) : Prop where
  gpu : ∃ g ∈ db.gpuModels, g.modelName.val = item.gpuModelName ∧ g.id = v.gpuModelId
  provider : ∃ p ∈ db.providers, p.name.val = item.providerName ∧ p.id = v.providerId
  region : v.region.val = item.region
  instanceType : v.instanceType.val = item.instanceType
  usdPerHour : Numeric.ofRat? 10 4 item.usdPerHour = some v.usdPerHour
  availability : v.availability.val = item.availability
  observedAt : item.observedAt.toInstant? env.localOffset = some v.observedAt

/-- The error of an item that is not known. -/
def unknownName (db : Database) (item : PricePointIn) : String :=
  if item.gpuModelName ∈ db.gpuModels.map (fun g => g.modelName.val)
  then "unknown provider_name: " ++ item.providerName
  else "unknown gpu_model_name: " ++ item.gpuModelName

/-! ## The name tables -/

/-- The catalogue as a session reads it, in any order. -/
structure Catalogue.Of (c : Catalogue) (db : Database) : Prop where
  gpus : c.gpus.Perm db.gpuModels
  providers : c.providers.Perm db.providers

/-- A table whose names are distinct finds the one row of a name. -/
theorem find?_reverse_eq {α : Type} {name : α → String} {rows : List α}
    (hnodup : (rows.map name).Nodup) {s : String} {a : α} :
    rows.reverse.find? (fun a => name a = s) = some a ↔ a ∈ rows ∧ name a = s := by
  constructor
  · intro h
    exact ⟨List.mem_reverse.mp (List.mem_of_find?_eq_some h), by simpa using List.find?_some h⟩
  · rintro ⟨ha, rfl⟩
    cases hfind : rows.reverse.find? (fun b => name b = name a) with
    | none =>
      rw [List.find?_eq_none] at hfind
      exact absurd (decide_eq_true rfl) (hfind a (List.mem_reverse.mpr ha))
    | some b =>
      have hb := List.mem_reverse.mp (List.mem_of_find?_eq_some hfind)
      have hname : name b = name a := by simpa using List.find?_some hfind
      rw [List.inj_on_of_nodup_map hnodup hb ha hname]

theorem Catalogue.Of.gpu?_eq {c : Catalogue} {db : Database} (h : c.Of db) {name : String}
    {id : Integer} :
    c.gpu? name = some id ↔ ∃ g ∈ db.gpuModels, g.modelName.val = name ∧ g.id = id := by
  have hnodup : (c.gpus.map fun g => g.modelName.val).Nodup := by
    have hdb := (List.nodup_map_iff Varchar.val_injective).mpr
      db.constraints.gpu_models_model_name_key
    rw [List.map_map] at hdb
    exact (h.gpus.map _).nodup_iff.mpr hdb
  simp only [Catalogue.gpu?, Option.map_eq_some_iff, find?_reverse_eq hnodup, h.gpus.mem_iff,
    and_assoc]

theorem Catalogue.Of.provider?_eq {c : Catalogue} {db : Database} (h : c.Of db) {name : String}
    {id : Integer} :
    c.provider? name = some id ↔ ∃ p ∈ db.providers, p.name.val = name ∧ p.id = id := by
  have hnodup : (c.providers.map fun p => p.name.val).Nodup := by
    have hdb := (List.nodup_map_iff Varchar.val_injective).mpr db.constraints.providers_name_key
    rw [List.map_map] at hdb
    exact (h.providers.map _).nodup_iff.mpr hdb
  simp only [Catalogue.provider?, Option.map_eq_some_iff, find?_reverse_eq hnodup,
    h.providers.mem_iff, and_assoc]

/-! ## The loop -/

/-- The row the loop makes of a known item. -/
def Resolves (db : Database) (item : PricePointIn) (row : PriceParams) : Prop :=
  ∃ g ∈ db.gpuModels, g.modelName.val = item.gpuModelName
    ∧ ∃ p ∈ db.providers, p.name.val = item.providerName
      ∧ row = ⟨g.id, p.id, item.region, item.instanceType, item.usdPerHour, item.availability,
          item.observedAt⟩

theorem resolveItem_of_known {c : Catalogue} {db : Database} (h : c.Of db) {item : PricePointIn}
    (hitem : Known db item) : ∃ row, resolveItem c item = .ok row ∧ Resolves db item row := by
  obtain ⟨g, hg, hgname⟩ := List.mem_map.mp hitem.1
  obtain ⟨p, hp, hpname⟩ := List.mem_map.mp hitem.2
  have hgpu : c.gpu? item.gpuModelName = some g.id := h.gpu?_eq.mpr ⟨g, hg, hgname, rfl⟩
  have hprovider : c.provider? item.providerName = some p.id :=
    h.provider?_eq.mpr ⟨p, hp, hpname, rfl⟩
  refine ⟨_, ?_, g, hg, hgname, p, hp, hpname, rfl⟩
  simp only [resolveItem, hgpu, hprovider]

theorem resolveItem_of_unknown {c : Catalogue} {db : Database} (h : c.Of db) {item : PricePointIn}
    (hitem : ¬ Known db item) : resolveItem c item = .error (unknownName db item) := by
  cases hgpu : c.gpu? item.gpuModelName with
  | none =>
    have hname : item.gpuModelName ∉ db.gpuModels.map (fun g => g.modelName.val) := by
      intro hmem
      obtain ⟨g, hg, hgname⟩ := List.mem_map.mp hmem
      rw [h.gpu?_eq.mpr ⟨g, hg, hgname, rfl⟩] at hgpu
      cases hgpu
    simp only [resolveItem, hgpu, unknownName, if_neg hname]
  | some gpuId =>
    obtain ⟨g, hg, hgname, -⟩ := h.gpu?_eq.mp hgpu
    have hname : item.gpuModelName ∈ db.gpuModels.map (fun g => g.modelName.val) :=
      List.mem_map.mpr ⟨g, hg, hgname⟩
    cases hprovider : c.provider? item.providerName with
    | none => simp only [resolveItem, hgpu, hprovider, unknownName, if_pos hname]
    | some providerId =>
      obtain ⟨p, hp, hpname, -⟩ := h.provider?_eq.mp hprovider
      exact absurd ⟨hname, List.mem_map.mpr ⟨p, hp, hpname⟩⟩ hitem

/-- **The loop**: a row for every known item and an error for every other, in payload order. -/
theorem resolveItems_eq {c : Catalogue} {db : Database} (h : c.Of db) (items : List PricePointIn) :
    List.Forall₂ (Resolves db) (items.filter (Known db)) (resolveItems c items).1
      ∧ (resolveItems c items).2 = (items.filter fun i => ¬ Known db i).map (unknownName db) := by
  induction items with
  | nil => exact ⟨.nil, rfl⟩
  | cons item items ih =>
    by_cases hitem : Known db item
    · obtain ⟨row, hrow, hresolves⟩ := resolveItem_of_known h hitem
      simp only [resolveItems, hrow]
      rw [List.filter_cons_of_pos (by simpa using hitem),
        List.filter_cons_of_neg (by simpa using hitem)]
      exact ⟨.cons hresolves ih.1, ih.2⟩
    · simp only [resolveItems, resolveItem_of_unknown h hitem]
      rw [List.filter_cons_of_neg (by simpa using hitem),
        List.filter_cons_of_pos (by simpa using hitem)]
      exact ⟨ih.1, by rw [ih.2, List.map_cons]⟩

/-! ## Binding the rows -/

theorem bindVarchar_ok {n : Nat} {s : String} {v : Varchar n} (h : bindVarchar n s = .ok v) :
    v.val = s := by
  unfold bindVarchar at h
  split at h
  · rename_i hv
    cases h
    exact Varchar.ofString?_eq_some hv
  · cases h

theorem bindDatetime_ok {env : Env} {d : Datetime} {i : Instant} (h : bindDatetime env d = .ok i) :
    d.toInstant? env.localOffset = some i := by
  unfold bindDatetime at h
  split at h
  · rename_i hi
    cases h
    exact hi
  · cases h

/-- A row of an item, bound, is what the item observes. -/
theorem observes_of_bind {env : Env} {db : Database} {item : PricePointIn} {row : PriceParams}
    {v : PriceValues} (hrow : Resolves db item row) (h : row.bind env = .ok v) :
    Observes env db item v := by
  obtain ⟨g, hg, hgname, p, hp, hpname, rfl⟩ := hrow
  rw [PriceParams.bind] at h
  obtain ⟨region, hregion, h⟩ := bind_ok h
  obtain ⟨instanceType, hinstance, h⟩ := bind_ok h
  obtain ⟨availability, havailability, h⟩ := bind_ok h
  obtain ⟨observedAt, hobserved, h⟩ := bind_ok h
  split at h
  · rename_i usdPerHour husd
    cases h
    exact ⟨⟨g, hg, hgname, rfl⟩, ⟨p, hp, hpname, rfl⟩, bindVarchar_ok hregion,
      bindVarchar_ok hinstance, husd, bindVarchar_ok havailability, bindDatetime_ok hobserved⟩
  · cases h

/-- The rows of known items, bound, are what the items observe. -/
theorem forall₂_observes {env : Env} {db : Database} {items : List PricePointIn}
    {rows : List PriceParams} {values : List PriceValues}
    (hrows : List.Forall₂ (Resolves db) items rows)
    (hvalues : List.Forall₂ (fun r v => r.bind env = .ok v) rows values) :
    List.Forall₂ (Observes env db) items values := by
  induction hrows generalizing values with
  | nil =>
    cases hvalues
    exact .nil
  | cons hrow _ ih =>
    cases hvalues with
    | cons hvalue hvalues => exact .cons (observes_of_bind hrow hvalue) (ih hvalues)

theorem mapM_ok {α β ε : Type} {f : α → Except ε β} {as : List α} {bs : List β}
    (h : as.mapM f = .ok bs) : List.Forall₂ (fun a b => f a = .ok b) as bs := by
  induction as generalizing bs with
  | nil =>
    cases h
    exact .nil
  | cons a as ih =>
    rw [List.mapM_cons] at h
    obtain ⟨b, hb, h⟩ := bind_ok h
    obtain ⟨bs', hbs, h⟩ := bind_ok h
    cases h
    exact .cons hb (ih hbs)

/-! ## A table that has grown means the same -/

section Grows

variable {db db' : Database}

theorem Database.Grows.known_iff (h : db.Grows db') (item : PricePointIn) :
    Known db' item ↔ Known db item := by
  rw [Known, Known, h.gpuModels, h.providers]

theorem Database.Grows.observes {env : Env} {item : PricePointIn} {v : PriceValues}
    (h : db.Grows db') (hv : Observes env db' item v) : Observes env db item v :=
  { hv with gpu := h.gpuModels ▸ hv.gpu, provider := h.providers ▸ hv.provider }

theorem Database.Grows.unknownName_eq (h : db.Grows db') : unknownName db' = unknownName db := by
  funext item
  rw [unknownName, unknownName, h.gpuModels]

end Grows

/-! ## One call -/

/-- From `db` to `db'`, the values the known items observe are offered to the table. -/
structure Offered (env : Env) (db : Database) (items : List PricePointIn) (db' : Database) :
    Prop where
  grows : db.Grows db'
  offers : ∃ values, List.Forall₂ (Observes env db) (items.filter (Known db)) values
    ∧ db'.priceValues = FirstWins.insertAll PriceValues.key db.priceValues values

theorem Offered.of_no_known {env : Env} {db : Database} {items : List PricePointIn}
    (h : items.filter (Known db) = []) : Offered env db items db where
  grows := .refl db
  offers := ⟨[], by rw [h]; exact .nil, rfl⟩

/-- How items are split into batches does not show. -/
theorem Offered.append {env : Env} {db mid db' : Database} {items more : List PricePointIn}
    (h : Offered env db items mid) (h' : Offered env mid more db') :
    Offered env db (items ++ more) db' where
  grows := h.grows.trans h'.grows
  offers := by
    obtain ⟨values, hobserved, hvalues⟩ := h.offers
    obtain ⟨values', hobserved', hvalues'⟩ := h'.offers
    refine ⟨values ++ values', ?_, by rw [FirstWins.insertAll_append, ← hvalues, hvalues']⟩
    rw [List.filter_append]
    simp only [h.grows.known_iff] at hobserved'
    exact List.rel_append hobserved (hobserved'.imp fun _ _ => h.grows.observes)

/-- What one call does: its payload is offered to the table, and every item that is not known is an
    error. -/
structure Ingested (env : Env) (db : Database) (payload : List PricePointIn)
    (result : Nat × Nat × List String) (db' : Database) : Prop where
  offered : Offered env db payload db'
  accepted : result.1 = (payload.filter (Known db)).length
  rejected : result.2.1 = result.2.2.length
  errors : result.2.2 = (payload.filter fun i => ¬ Known db i).map (unknownName db)

/-- The session reads the whole catalogue. -/
theorem wp_resolveLookup {env : Env} {C : Choice → Prop} {m : Machine} :
    Svc.wp env C resolveLookup (fun r m' => m'.world.db = m.world.db
      ∧ m'.session.pending = m.session.pending ∧ ∀ c, r = .ok c → c.Of m.world.db) m := by
  refine Svc.wp_query_bind (fun plan gpus m' hgpus heffect => ?_)
    (fun e => ⟨rfl, rfl, fun _ h => nomatch h⟩)
  cases hgpus
  cases heffect
  refine Svc.wp_query_bind (fun plan' providers m' hproviders heffect => ?_)
    (fun e => ⟨rfl, rfl, fun _ h => nomatch h⟩)
  cases hproviders
  cases heffect
  refine ⟨rfl, rfl, ?_⟩
  rintro c ⟨⟩
  exact ⟨plan.gpuModels.perm _, List.Perm.refl _⟩

/-- Inserting and committing rows, and going on from there. -/
theorem wp_insertCommit {α : Type} {env : Env} {C : Choice → Prop} {rows : List PriceParams}
    {m : Machine} {p : Svc α} {Q : Except Exn α → Machine → Prop}
    (hpending : m.session.pending = []) (hok : ∀ values m', bindRows env rows = .ok values →
      m.world.db.insertPrices values = .ok m'.world.db → Svc.wp env C p Q m')
    (herror : ∀ e m', m'.world.db = m.world.db → Q (.error (.db e)) m') :
    Svc.wp env C (do query (.insertPrices rows); query .commit; p) Q m := by
  refine Svc.wp_query_bind (fun _ _ m₁ _ heffect => ?_) (fun e => herror e _ rfl)
  rw [Statement.effect] at heffect
  obtain ⟨values, hvalues, heffect⟩ := bind_ok heffect
  cases heffect
  refine Svc.wp_query_bind (fun _ _ m₂ _ heffect => ?_) (fun e => herror e _ rfl)
  rw [Statement.effect] at heffect
  simp only [Machine.record, Machine.insert, hpending, List.nil_append] at heffect
  -- the rows meet the table when the transaction commits
  obtain ⟨db, hdb, heffect⟩ := bind_ok heffect
  cases heffect
  exact hok values _ hvalues hdb

/-- Rows that were bound and inserted were offered. -/
theorem Offered.of_rows {env : Env} {db db' : Database} {items : List PricePointIn}
    {rows : List PriceParams} {values : List PriceValues}
    (hrows : List.Forall₂ (Resolves db) (items.filter (Known db)) rows)
    (hvalues : bindRows env rows = .ok values) (hdb : db.insertPrices values = .ok db') :
    Offered env db items db' where
  grows := (Database.insertPrices_ok hdb).1
  offers := by
    refine ⟨values, ?_, (Database.insertPrices_ok hdb).2⟩
    unfold bindRows at hvalues
    split at hvalues
    · cases hvalues
    · exact forall₂_observes hrows (mapM_ok hvalues)

/-- **One call**: it ingests its payload, or it raises and changes nothing. -/
theorem wp_ingestPrices (env : Env) {C : Choice → Prop} (payload : List PricePointIn) {m : Machine}
    (hpending : m.session.pending = []) :
    Svc.wp env C (ingestPrices payload) (fun r m' => match r with
      | .ok result => Ingested env m.world.db payload result m'.world.db
      | .error _ => m'.world.db = m.world.db) m := by
  rw [ingestPrices]
  split
  · rename_i hnil
    subst hnil
    exact ⟨.of_no_known rfl, rfl, rfl, rfl⟩
  · rw [Svc.wp_bind]
    refine Svc.wp_mono wp_resolveLookup ?_
    rintro (e | c) m₁ ⟨hdb, hpending₁, hof⟩
    · exact hdb
    · obtain ⟨hrows, herrors⟩ := resolveItems_eq (hof c rfl) payload
      simp only
      generalize resolveItems c payload = resolved at hrows herrors
      obtain ⟨rows, errors⟩ := resolved
      dsimp only at hrows herrors ⊢
      subst herrors
      split
      · rename_i hnil
        subst hnil
        have hno := List.forall₂_nil_right_iff.mp hrows
        rw [Svc.wp_pure, hdb]
        exact ⟨.of_no_known hno, by rw [hno]; rfl, rfl, rfl⟩
      · refine wp_insertCommit (hpending₁.trans hpending) (fun values m₂ hvalues hm₂ => ?_)
          (fun e m₂ hm₂ => hm₂.trans hdb)
        exact ⟨.of_rows hrows hvalues (hdb ▸ hm₂), hrows.length_eq.symm, rfl, rfl⟩

/-! ## Runs -/

/-- A call that returned: its payload, and the numbers and errors it reported. -/
structure IngestCall where
  payload : List PricePointIn
  accepted : Nat
  rejected : Nat
  errors : List String

/-- Calls that return one after the other, each with a session of its own. -/
inductive Ingests (env : Env) : Database → List IngestCall → Database → Prop where
  | nil (db : Database) : Ingests env db [] db
  | cons {db' : Database} {m m' : Machine} {choices : Nat → Choice} {call : IngestCall}
      {calls : List IngestCall} (fresh : m.session.pending = [])
      (returned : runSvc env choices (ingestPrices call.payload) m
        = (.ok (call.accepted, call.rejected, call.errors), m'))
      (rest : Ingests env m'.world.db calls db') : Ingests env m.world.db (call :: calls) db'

/-- What a run reports of one call. -/
structure IngestCall.Reports (db : Database) (c : IngestCall) : Prop where
  total : c.accepted + c.rejected = c.payload.length
  accepted : c.accepted = (c.payload.filter (Known db)).length
  rejected : c.rejected = c.errors.length
  errors : c.errors = (c.payload.filter fun i => ¬ Known db i).map (unknownName db)

theorem IngestCall.Reports.of_grows {db db' : Database} {c : IngestCall} (hc : c.Reports db')
    (h : db.Grows db') : c.Reports db where
  total := hc.total
  accepted := by simpa only [h.known_iff] using hc.accepted
  rejected := hc.rejected
  errors := by simpa only [h.known_iff, h.unknownName_eq] using hc.errors

theorem Ingested.reports {env : Env} {db db' : Database} {c : IngestCall}
    (h : Ingested env db c.payload (c.accepted, c.rejected, c.errors) db') : c.Reports db where
  total := by
    have hsplit := List.length_eq_length_filter_add (l := c.payload) fun i => decide (Known db i)
    have herrors := congrArg List.length h.errors
    have haccepted := h.accepted
    have hrejected := h.rejected
    simp only [List.length_map, decide_not] at haccepted hrejected herrors
    omega
  accepted := h.accepted
  rejected := h.rejected
  errors := h.errors

/-- **Runs**: the items are offered to the table one after the other, whatever the calls they came
    in, and every call reports the items of its own payload. -/
theorem Ingests.offered {env : Env} {db db' : Database} {calls : List IngestCall}
    (h : Ingests env db calls db') :
    Offered env db (calls.flatMap IngestCall.payload) db' ∧ ∀ c ∈ calls, c.Reports db := by
  induction h with
  | nil db => exact ⟨.of_no_known rfl, fun c hc => absurd hc List.not_mem_nil⟩
  | @cons db' m m' choices call calls fresh returned rest ih =>
    have hcall := runSvc_of_wp choices (fun _ => trivial)
      (wp_ingestPrices env (C := fun _ => True) call.payload fresh)
    rw [returned] at hcall
    have hone : Ingested env m.world.db call.payload _ m'.world.db := hcall
    refine ⟨hone.offered.append ih.1, fun c hc => ?_⟩
    rcases List.mem_cons.mp hc with rfl | hc
    · exact hone.reports
    · exact (ih.2 c hc).of_grows hone.offered.grows

/-! ## The price table as a map -/

/-- What an observation says: the price as stored, and the availability. -/
def PriceValues.price (v : PriceValues) : Numeric 10 4 × Varchar 16 :=
    (v.usdPerHour, v.availability)

/-- The price table as a map from natural keys. -/
def Database.price? (db : Database) (k : ObservationKey) : Option (Numeric 10 4 × Varchar 16) :=
  (FirstWins.find PriceValues.key db.priceValues k).map PriceValues.price

/-- The map `db'` is the map `db` with values offered to it, where the first writer of a key
    wins. -/
structure FirstWriterWins (db db' : Database) (values : List PriceValues) : Prop where
  keys : ∀ k, (db'.price? k).isSome ↔ (db.price? k).isSome ∨ ∃ v ∈ values, v.key = k
  kept : ∀ k p, db.price? k = some p → db'.price? k = some p
  first : ∀ k, db.price? k = none →
    db'.price? k = (values.find? fun v => v.key = k).map PriceValues.price

theorem firstWriterWins_of_insertAll {db db' : Database} {values : List PriceValues}
    (h : db'.priceValues = FirstWins.insertAll PriceValues.key db.priceValues values) :
    FirstWriterWins db db' values := by
  have hfind (k : ObservationKey) : db'.price? k
      = (db.price? k).or ((values.find? fun v => v.key = k).map PriceValues.price) := by
    rw [Database.price?, h, FirstWins.find_insertAll, Option.map_or]
    rfl
  refine ⟨fun k => ?_, fun k p hp => by rw [hfind, hp]; rfl, fun k hk => by rw [hfind, hk]; rfl⟩
  rw [hfind, Option.isSome_or, Bool.or_eq_true, Option.isSome_map, List.find?_isSome]
  simp only [decide_eq_true_eq]

/-- The items whose names are known, in call order and then in payload order. -/
def knownItems (db : Database) (calls : List IngestCall) : List PricePointIn :=
  (calls.flatMap IngestCall.payload).filter (Known db)

/-- **Ingest is a first-writer-wins store**: after any run of calls that return, the price table is
    what it was, with the known items of all payloads offered to it in order, and every call has
    counted and reported its own items. -/
theorem ingests_first_writer_wins (env : Env) (db db' : Database) (calls : List IngestCall)
    (h : Ingests env db calls db') :
    (∃ values, List.Forall₂ (Observes env db) (knownItems db calls) values
        ∧ FirstWriterWins db db' values)
      ∧ ∀ c ∈ calls, c.Reports db := by
  obtain ⟨hoffered, hreports⟩ := h.offered
  obtain ⟨values, hobserved, hvalues⟩ := hoffered.offers
  exact ⟨⟨values, hobserved, firstWriterWins_of_insertAll hvalues⟩, hreports⟩

/-- A call with a new observation, an unknown model and the observation again. -/
def tinyCall : IngestCall where
  payload := [itemOf "H100 SXM" (5 / 2) (by decide) (by norm_num),
    itemOf "TPU" 1 (by decide) (by norm_num), itemOf "H100 SXM" 3 (by decide) (by norm_num)]
  accepted := 2
  rejected := 1
  errors := ["unknown gpu_model_name: TPU"]

/-- The call, from a server that answers. -/
def tinyIngest : Except Exn (Nat × Nat × List String) × Machine :=
  runSvc env (fun _ => .calm) (ingestPrices tinyCall.payload)
    ⟨worldOf (catalogue ⟨1, one_range⟩), {}⟩

theorem tinyIngest_returns :
    tinyIngest.1 = .ok (tinyCall.accepted, tinyCall.rejected, tinyCall.errors) := by
  with_unfolding_all rfl

theorem ingests_first_writer_wins_tiny :
    (∃ values, List.Forall₂ (Observes env (catalogue ⟨1, by decide⟩))
        (knownItems (catalogue ⟨1, by decide⟩) [tinyCall]) values
        ∧ FirstWriterWins (catalogue ⟨1, by decide⟩) tinyIngest.2.world.db values)
      ∧ ∀ c ∈ [tinyCall], c.Reports (catalogue ⟨1, by decide⟩) :=
  ingests_first_writer_wins env _ _ _
    (.cons (m := ⟨worldOf (catalogue ⟨1, by decide⟩), {}⟩) rfl (Prod.ext tinyIngest_returns rfl)
      (.nil _))

/-! ## The accepted count -/

/-- What was added to the table are the offered values that won their keys. -/
theorem Offered.added {env : Env} {db db' : Database} {items : List PricePointIn}
    (h : Offered env db items db') : ∃ values added,
      List.Forall₂ (Observes env db) (items.filter (Known db)) values
        ∧ db'.pricePoints = db.pricePoints ++ added
        ∧ added.map PricePoint.toPriceValues
          = FirstWins.winners PriceValues.key db.priceValues values := by
  obtain ⟨values, hobserved, hvalues⟩ := h.offers
  obtain ⟨added, hadded⟩ := h.grows.pricePoints
  refine ⟨values, added, hobserved, hadded.symm, ?_⟩
  rw [FirstWins.insertAll_eq_append, Tables.priceValues, ← hadded, List.map_append] at hvalues
  exact List.append_cancel_left hvalues

/-- **The accepted count** is the number of known items, each of which was offered to the table.
    The rows added are one for each key they bring that was not there, so the count is the number of
    rows added exactly if the known items have keys of their own and none of these was there. -/
theorem accepted_counts_known (env : Env) (choices : Nat → Choice) (payload : List PricePointIn)
    (m m' : Machine) (hpending : m.session.pending = []) (accepted rejected : Nat)
    (errors : List String)
    (hrun : runSvc env choices (ingestPrices payload) m = (.ok (accepted, rejected, errors), m')) :
    ∃ values added,
      List.Forall₂ (Observes env m.world.db) (payload.filter (Known m.world.db)) values
        ∧ m'.world.db.pricePoints = m.world.db.pricePoints ++ added
        ∧ accepted = (payload.filter (Known m.world.db)).length
        ∧ added.length = ((values.map PriceValues.key).filter fun k =>
            k ∉ m.world.db.priceValues.map PriceValues.key).dedup.length
        ∧ (accepted = added.length ↔ (values.map PriceValues.key).Nodup
          ∧ ∀ v ∈ values, v.key ∉ m.world.db.priceValues.map PriceValues.key) := by
  have hcall := runSvc_of_wp choices (fun _ => trivial)
    (wp_ingestPrices env (C := fun _ => True) payload hpending)
  rw [hrun] at hcall
  have hingested : Ingested env m.world.db payload _ m'.world.db := hcall
  obtain ⟨values, added, hobserved, hadded, hwinners⟩ := hingested.offered.added
  have hlength : added.length
      = (FirstWins.winners PriceValues.key m.world.db.priceValues values).length := by
    rw [← hwinners, List.length_map]
  have haccepted : accepted = values.length := hingested.accepted.trans hobserved.length_eq
  refine ⟨values, added, hobserved, hadded, hingested.accepted,
    hlength.trans (FirstWins.length_winners _ _ _), ?_⟩
  rw [haccepted, hlength, eq_comm, FirstWins.length_winners_eq_iff]

/-- The call counts its observation twice and stores it once. -/
theorem accepted_overcounts :
    tinyIngest.1 = .ok (2, 1, ["unknown gpu_model_name: TPU"])
      ∧ (catalogue ⟨1, by decide⟩).pricePoints.length = 0
      ∧ tinyIngest.2.world.db.pricePoints.length = 1 :=
  ⟨tinyIngest_returns, rfl, by with_unfolding_all rfl⟩

theorem accepted_counts_known_tiny :
    ∃ values added,
      List.Forall₂ (Observes env (catalogue ⟨1, by decide⟩))
          (tinyCall.payload.filter (Known (catalogue ⟨1, by decide⟩))) values
        ∧ tinyIngest.2.world.db.pricePoints = (catalogue ⟨1, by decide⟩).pricePoints ++ added
        ∧ 2 = (tinyCall.payload.filter (Known (catalogue ⟨1, by decide⟩))).length
        ∧ added.length = ((values.map PriceValues.key).filter fun k =>
            k ∉ (catalogue ⟨1, by decide⟩).priceValues.map PriceValues.key).dedup.length
        ∧ (2 = added.length ↔ (values.map PriceValues.key).Nodup
          ∧ ∀ v ∈ values, v.key ∉ (catalogue ⟨1, by decide⟩).priceValues.map PriceValues.key) :=
  accepted_counts_known env (fun _ => .calm) tinyCall.payload
    ⟨worldOf (catalogue ⟨1, by decide⟩), {}⟩ _ rfl _ _ _ (Prod.ext tinyIngest_returns rfl)

end GpuIndex
