/-
  The prices in the table after a run of ingest requests.

  Validation bounds the price of an item, the column rounds it to four decimal places.  A stored
  price is positive exactly when the item's price is at least half a unit of the last place, so the
  bounds of validation survive for the items of at least that price, and for no others.
-/
import GpuIndex.Api.RouteSpecs

namespace GpuIndex

open Calendar

/-! ## Rounding -/

theorem ofRat?_eq_some {q : ℚ} {x : Numeric 10 4} (h : Numeric.ofRat? 10 4 q = some x) :
    x.scaled = roundHalfAway (q * 10 ^ 4) := by
  unfold Numeric.ofRat? at h
  split at h
  · exact congrArg Numeric.scaled (Option.some.inj h).symm
  · cases h

theorem Numeric.value_pos {x : Numeric 10 4} : 0 < x.value ↔ 0 < x.scaled := by
  rw [Numeric.value, div_pos_iff_of_pos_right (by norm_num), Int.cast_pos]

/-- A price is stored as a positive number exactly from half a unit of the last place on. -/
theorem stored_pos {q : ℚ} {x : Numeric 10 4} (hq : 0 < q) (h : Numeric.ofRat? 10 4 q = some x) :
    0 < x.value ↔ 1 / 20000 ≤ q := by
  rw [Numeric.value_pos, ofRat?_eq_some h, roundHalfAway_pos (by positivity)]
  constructor <;> intro h <;> linarith

/-- A price of at most 1000 is stored as one. -/
theorem stored_le {q : ℚ} {x : Numeric 10 4} (hq : 0 < q) (hle : q ≤ 1000)
    (h : Numeric.ofRat? 10 4 q = some x) : x.value ≤ 1000 := by
  have hscaled : x.scaled ≤ 10000000 := by
    rw [ofRat?_eq_some h]
    refine roundHalfAway_le (by positivity) ?_
    push_cast
    linarith
  have hcast : (x.scaled : ℚ) ≤ 10000000 := by exact_mod_cast hscaled
  rw [Numeric.value, div_le_iff₀ (by norm_num)]
  linarith

/-! ## Observations of one thing -/

/-- Two items observe the same thing: the same names, and the same instant. -/
structure SameObservation (env : Env) (a b : PricePointIn) : Prop where
  gpuModelName : a.gpuModelName = b.gpuModelName
  providerName : a.providerName = b.providerName
  region : a.region = b.region
  instanceType : a.instanceType = b.instanceType
  observedAt : a.observedAt.toInstant? env.localOffset = b.observedAt.toInstant? env.localOffset

theorem key_eq_iff {env : Env} {db : Database} {a b : PricePointIn} {v w : PriceValues}
    (hv : Observes env db a v) (hw : Observes env db b w) :
    v.key = w.key ↔ SameObservation env a b := by
  obtain ⟨g, hg, hgname, hgid⟩ := hv.gpu
  obtain ⟨g', hg', hgname', hgid'⟩ := hw.gpu
  obtain ⟨p, hp, hpname, hpid⟩ := hv.provider
  obtain ⟨p', hp', hpname', hpid'⟩ := hw.provider
  constructor
  · intro h
    simp only [PriceValues.key, ObservationKey.mk.injEq] at h
    obtain ⟨hgpu, hprovider, hregion, hinstance, hobserved⟩ := h
    have hgg : g = g' := List.inj_on_of_nodup_map db.constraints.gpu_models_pkey hg hg'
      (hgid.trans (hgpu.trans hgid'.symm))
    have hpp : p = p' := List.inj_on_of_nodup_map db.constraints.providers_pkey hp hp'
      (hpid.trans (hprovider.trans hpid'.symm))
    exact ⟨by rw [← hgname, ← hgname', hgg], by rw [← hpname, ← hpname', hpp],
      by rw [← hv.region, ← hw.region, hregion],
      by rw [← hv.instanceType, ← hw.instanceType, hinstance],
      by rw [hv.observedAt, hw.observedAt, hobserved]⟩
  · intro h
    have hgg : g = g' := List.inj_on_of_nodup_map db.constraints.gpu_models_model_name_key hg hg'
      (Varchar.val_injective (hgname.trans (h.gpuModelName.trans hgname'.symm)))
    have hpp : p = p' := List.inj_on_of_nodup_map db.constraints.providers_name_key hp hp'
      (Varchar.val_injective (hpname.trans (h.providerName.trans hpname'.symm)))
    have hobserved : v.observedAt = w.observedAt := by
      have := h.observedAt
      rw [hv.observedAt, hw.observedAt] at this
      exact Option.some.inj this
    simp only [PriceValues.key, ObservationKey.mk.injEq]
    exact ⟨by rw [← hgid, ← hgid', hgg], by rw [← hpid, ← hpid', hpp],
      Varchar.val_injective (hv.region.trans (h.region.trans hw.region.symm)),
      Varchar.val_injective (hv.instanceType.trans (h.instanceType.trans hw.instanceType.symm)),
      hobserved⟩

/-! ## Which items are stored -/

/-- Related lists are split alike. -/
theorem forall₂_split {α β : Type} {R : α → β → Prop} {before after : List α} {a : α} {bs : List β}
    (h : List.Forall₂ R (before ++ a :: after) bs) :
    ∃ before' b after', bs = before' ++ b :: after' ∧ List.Forall₂ R before before' ∧ R a b := by
  induction before generalizing bs with
  | nil =>
    cases h with
    | cons hab _ => exact ⟨[], _, _, rfl, .nil, hab⟩
  | cons a' before ih =>
    cases h with
    | cons hab htail =>
      obtain ⟨before', b, after', rfl, hbefore, hb⟩ := ih htail
      exact ⟨_ :: before', b, after', rfl, .cons hab hbefore, hb⟩

/-- The item is the first of the list that observes its thing. -/
def FirstOf (env : Env) (items : List PricePointIn) (item : PricePointIn) : Prop :=
  ∃ before after, items = before ++ item :: after ∧ ∀ b ∈ before, ¬ SameObservation env b item

/-- Items related to values have the same firsts. -/
theorem forall₂_first {env : Env} {db : Database} {before : List PricePointIn}
    {values : List PriceValues} {item : PricePointIn} {v : PriceValues}
    (h : List.Forall₂ (Observes env db) before values) (hv : Observes env db item v) :
    (∀ b ∈ before, ¬ SameObservation env b item) ↔ ∀ w ∈ values, w.key ≠ v.key := by
  induction h with
  | nil => simp
  | cons hw _ ih => rw [List.forall_mem_cons, List.forall_mem_cons, ih, ne_eq, key_eq_iff hw hv]

/-- **What is stored** in a table that was empty: of each thing observed, the first known item. -/
theorem Offered.stored_iff {env : Env} {db db' : Database} {items : List PricePointIn}
    (h : Offered env db items db') (hempty : db.pricePoints = []) {P : PriceValues → Prop}
    {R : PricePointIn → Prop}
    (hPR : ∀ item v, Observes env db item v → (P v ↔ R item)) :
    (∀ v ∈ db'.priceValues, P v)
      ↔ ∀ item, FirstOf env (items.filter (Known db)) item → R item := by
  obtain ⟨values, hobserved, hvalues⟩ := h.offers
  have hnil : db.priceValues = [] := by rw [Tables.priceValues, hempty, List.map_nil]
  rw [hvalues, hnil]
  constructor
  · rintro hstored item ⟨before, after, hitems, hfirst⟩
    rw [hitems] at hobserved
    obtain ⟨before', v, after', rfl, hbefore, hv⟩ := forall₂_split hobserved
    refine (hPR item v hv).mp (hstored v ((FirstWins.mem_insertAll_nil _).mpr ?_))
    exact ⟨before', after', rfl, (forall₂_first hbefore hv).mp hfirst⟩
  · intro hitems v hmem
    obtain ⟨before', after', rfl, hfirst⟩ := (FirstWins.mem_insertAll_nil _).mp hmem
    obtain ⟨before, item, after, hsplit, hbefore, hv⟩ := forall₂_split hobserved.flip
    refine (hPR item v hv).mpr (hitems item ⟨before, after, hsplit, ?_⟩)
    exact (forall₂_first hbefore.flip hv).mpr hfirst

/-! ## Runs of requests -/

/-- Ingest requests one after the other, with the payloads of those that were answered.  Between
    them anything may happen to the clock and to Redis. -/
inductive Posts (env : Env) : Database → List (List PricePointIn) → Database → Prop where
  | nil (db : Database) : Posts env db [] db
  | answered {w : World} {apiKey : Option String} {payload : List PricePointIn}
      {choices : Nat → Choice} {response : Response} {m' : Machine}
      {payloads : List (List PricePointIn)} {db' : Database}
      (run : runSvc env choices (serveRequest env ⟨apiKey, .ingest payload⟩) ⟨w, {}⟩
        = (.ok response, m'))
      (rest : Posts env m'.world.db payloads db') : Posts env w.db (payload :: payloads) db'
  | raised {w : World} {apiKey : Option String} {payload : List PricePointIn}
      {choices : Nat → Choice} {e : Exn} {m' : Machine} {payloads : List (List PricePointIn)}
      {db' : Database}
      (run : runSvc env choices (serveRequest env ⟨apiKey, .ingest payload⟩) ⟨w, {}⟩
        = (.error e, m'))
      (rest : Posts env m'.world.db payloads db') : Posts env w.db payloads db'

/-- A run offers the payloads that were answered. -/
theorem Posts.offered {env : Env} {db db' : Database} {payloads : List (List PricePointIn)}
    (h : Posts env db payloads db') : Offered env db payloads.flatten db' := by
  induction h with
  | nil db => exact .of_no_known rfl
  | @answered w apiKey payload choices response m' payloads db' run rest ih =>
    have hwp := runSvc_of_wp choices (C := fun _ => True) (fun _ => trivial)
      (wp_serve_ingest env apiKey payload (m := ⟨w, {}⟩) rfl)
    rw [run] at hwp
    exact Offered.append hwp ih
  | @raised w apiKey payload choices e m' payloads db' run rest ih =>
    have hwp := runSvc_of_wp choices (C := fun _ => True) (fun _ => trivial)
      (wp_serve_ingest env apiKey payload (m := ⟨w, {}⟩) rfl)
    rw [run] at hwp
    exact (show m'.world.db = w.db from hwp) ▸ ih

/-- **The stored price range**: after a run on an empty table every stored price is positive and at
    most 1000, exactly if every item that is the first known one of its observation costs at least
    half a unit of the column's last place. -/
theorem stored_price_range (env : Env) (db db' : Database) (payloads : List (List PricePointIn))
    (hempty : db.pricePoints = []) (h : Posts env db payloads db') :
    (∀ p ∈ db'.pricePoints, 0 < p.usdPerHour.value ∧ p.usdPerHour.value ≤ 1000)
      ↔ ∀ item, FirstOf env (payloads.flatten.filter (Known db)) item
          → 1 / 20000 ≤ item.usdPerHour := by
  have hrange (item : PricePointIn) (v : PriceValues) (hv : Observes env db item v) :
      (0 < v.usdPerHour.value ∧ v.usdPerHour.value ≤ 1000) ↔ 1 / 20000 ≤ item.usdPerHour := by
    rw [← stored_pos item.usdPerHour_range.1 hv.usdPerHour]
    exact and_iff_left (stored_le item.usdPerHour_range.1 item.usdPerHour_range.2 hv.usdPerHour)
  rw [← h.offered.stored_iff hempty hrange, Tables.priceValues, List.forall_mem_map]

/-- One request on an empty table, from a server that answers. -/
def postOne (item : PricePointIn) : Except Exn Response × Machine :=
  runSvc env (fun _ => .calm) (serveRequest env ⟨some "local-dev-key", .ingest [item]⟩)
    ⟨worldOf (catalogue ⟨1, one_range⟩), {}⟩

/-- The run of one request that is answered. -/
theorem posts_one {item : PricePointIn} {response : Response}
    (h : (postOne item).1 = .ok response) :
    Posts env (catalogue ⟨1, by decide⟩) [[item]] (postOne item).2.world.db :=
  .answered (w := worldOf (catalogue ⟨1, by decide⟩)) (Prod.ext h rfl) (.nil _)

/-- An item whose price, 2⁻²⁰, passes validation. -/
def almostFree : PricePointIn := itemOf "H100 SXM" (1 / 1048576) h100_length (by norm_num)

theorem postOne_almostFree :
    (postOne almostFree).1 = .ok ⟨202, .ingest ⟨1, 0, 0, []⟩, []⟩
      ∧ (postOne almostFree).2.world.db.pricePoints.map (fun p => p.usdPerHour.scaled) = [0] := by
  constructor <;> with_unfolding_all rfl

theorem stored_price_zero :
    ∃ db', Posts env (catalogue ⟨1, by decide⟩) [[almostFree]] db'
      ∧ ¬ ∀ p ∈ db'.pricePoints, 0 < p.usdPerHour.value ∧ p.usdPerHour.value ≤ 1000 := by
  refine ⟨_, posts_one postOne_almostFree.1, fun hall => ?_⟩
  have hrow : 0 ∈ (postOne almostFree).2.world.db.pricePoints.map fun p => p.usdPerHour.scaled := by
    rw [postOne_almostFree.2]
    exact List.mem_singleton_self 0
  obtain ⟨p, hp, hzero⟩ := List.mem_map.mp hrow
  exact absurd (Numeric.value_pos.mp (hall p hp).1) (by rw [hzero]; exact lt_irrefl 0)

/-- An item at the price of the fixture. -/
def oneItem : PricePointIn := itemOf "H100 SXM" (5 / 2) h100_length fiveHalves_range

/-- A request on the smallest catalogue, and two requests after it. -/
def postAfter (w : World) (apiKey : Option String) (payload : List PricePointIn) :
    Except Exn Response × Machine :=
  runSvc env (fun _ => .calm) (serveRequest env ⟨apiKey, .ingest payload⟩) ⟨w, {}⟩

def firstPost : Except Exn Response × Machine :=
  postAfter (worldOf (catalogue ⟨1, one_range⟩)) (some "local-dev-key") tinyCall.payload

/-- It has no key. -/
def secondPost : Except Exn Response × Machine := postAfter firstPost.2.world none [almostFree]

def thirdPost : Except Exn Response × Machine :=
  postAfter secondPost.2.world (some "local-dev-key") [almostFree]

/-- The second request is refused, and the others are answered. -/
theorem threePosts_answered :
    firstPost.1 = .ok ⟨202, .ingest ⟨2, 1, 0, ["unknown gpu_model_name: TPU"]⟩, []⟩
      ∧ secondPost.1.toOption.isNone ∧ thirdPost.1 = .ok ⟨202, .ingest ⟨1, 0, 0, []⟩, []⟩ := by
  refine ⟨?_, ?_, ?_⟩ <;> with_unfolding_all rfl

theorem threePosts : Posts env (catalogue ⟨1, by decide⟩) [tinyCall.payload, [almostFree]]
    thirdPost.2.world.db := by
  obtain ⟨hfirst, hsecond, hthird⟩ := threePosts_answered
  refine .answered (w := worldOf (catalogue ⟨1, by decide⟩)) (Prod.ext hfirst rfl) ?_
  cases hresult : secondPost.1 with
  | ok response =>
    rw [hresult] at hsecond
    cases hsecond
  | error e =>
    exact .raised (w := firstPost.2.world) (Prod.ext hresult rfl)
      (.answered (w := secondPost.2.world) (Prod.ext hthird rfl) (.nil _))

theorem stored_price_range_three :
    (∀ p ∈ thirdPost.2.world.db.pricePoints, 0 < p.usdPerHour.value ∧ p.usdPerHour.value ≤ 1000)
      ↔ ∀ item, FirstOf env ([tinyCall.payload, [almostFree]].flatten.filter
            (Known (catalogue ⟨1, by decide⟩))) item
          → 1 / 20000 ≤ item.usdPerHour :=
  stored_price_range env _ _ _ rfl threePosts

end GpuIndex
