/-
  Which batches are stored.

  Validation bounds the lengths of an item's texts, and looks neither for a NUL in them nor at the
  years of its time.  An item that the columns do not take fails the statement of its batch, and
  with it every other item: a batch is stored item by item exactly when the columns take each of its
  known items and the sequence has ids for them.
-/
import GpuIndex.Api.IngestBatch

namespace GpuIndex

open Calendar

/-! ## Items that the columns take -/

/-- The columns take what validation has let through: no NUL, and a time that is an instant. -/
structure Storable (env : Env) (item : PricePointIn) : Prop where
  region : NoNul item.region
  instanceType : NoNul item.instanceType
  observedAt : ∃ i, item.observedAt.toInstant? env.localOffset = some i

theorem ofString?_isSome {n : Nat} {s : String} (hlength : s.length ≤ n) (hnul : NoNul s) :
    ∃ v, Varchar.ofString? n s = some v :=
  ⟨⟨s, hlength, hnul⟩, dif_pos ⟨hlength, hnul⟩⟩

/-- Every availability fits its column. -/
theorem availability_fits {s : String} (h : s ∈ availabilities) : s.length ≤ 16 ∧ NoNul s := by
  simp only [availabilities, List.mem_cons, List.not_mem_nil, or_false] at h
  rcases h with rfl | rfl | rfl <;> decide

/-- Every price that passes validation fits its column. -/
theorem price_fits {q : ℚ} (h : 0 < q ∧ q ≤ 1000) : ∃ x, Numeric.ofRat? 10 4 q = some x := by
  have hnonneg : 0 ≤ q * 10 ^ 4 := mul_nonneg h.1.le (by norm_num)
  have hlow : 0 ≤ roundHalfAway (q * 10 ^ 4) := roundHalfAway_nonneg hnonneg
  have hhigh : roundHalfAway (q * 10 ^ 4) ≤ 10000000 := by
    refine roundHalfAway_le hnonneg ?_
    push_cast
    linarith [h.2]
  have hrange : (roundHalfAway (q * 10 ^ 4)).natAbs < 10 ^ 10 := by omega
  exact ⟨_, dif_pos hrange⟩

theorem mapM_isOk {α β ε : Type} {f : α → Except ε β} {as : List α} :
    (∃ bs, as.mapM f = .ok bs) ↔ ∀ a ∈ as, ∃ b, f a = .ok b := by
  constructor
  · rintro ⟨bs, hbs⟩
    have hall := mapM_ok hbs
    intro a ha
    obtain ⟨before, after, rfl⟩ := List.append_of_mem ha
    obtain ⟨_, b, _, -, -, hb⟩ := forall₂_split hall
    exact ⟨b, hb⟩
  · intro hall
    cases has : as.mapM f with
    | ok bs => exact ⟨bs, rfl⟩
    | error e =>
      obtain ⟨a, ha, hfa⟩ := mapM_error has
      obtain ⟨b, hb⟩ := hall a ha
      rw [hfa] at hb
      cases hb

/-! ## Observations in the table -/

/-- The table has the observation of the item. -/
def Present (env : Env) (db : Database) (item : PricePointIn) : Prop :=
  ∃ v, Observes env db item v ∧ v.key ∈ db.priceValues.map PriceValues.key

theorem SameObservation.refl (env : Env) (item : PricePointIn) : SameObservation env item item :=
  ⟨rfl, rfl, rfl, rfl, rfl⟩

/-- What is known keeps its meaning in a table that has grown. -/
theorem Database.Grows.observes_of {env : Env} {db db' : Database} {item : PricePointIn}
    {v : PriceValues} (h : db.Grows db') (hv : Observes env db item v) : Observes env db' item v :=
  { hv with gpu := h.gpuModels.symm ▸ hv.gpu, provider := h.providers.symm ▸ hv.provider }

/-- After a batch was offered, every known item of it is present. -/
theorem Offered.present {env : Env} {db db' : Database} {items : List PricePointIn}
    (h : Offered env db items db') {item : PricePointIn} (hitem : item ∈ items)
    (hknown : Known db item) : Present env db' item := by
  obtain ⟨values, hobserved, hvalues⟩ := h.offers
  have hmem : item ∈ items.filter (Known db) := List.mem_filter.mpr ⟨hitem, by simpa using hknown⟩
  obtain ⟨before, after, hsplit⟩ := List.append_of_mem hmem
  rw [hsplit] at hobserved
  obtain ⟨before', v, after', rfl, -, hv⟩ := forall₂_split hobserved
  refine ⟨v, h.grows.observes_of hv, ?_⟩
  have hkeys := (firstWriterWins_of_insertAll hvalues).keys v.key
  have hin := hkeys.mpr (.inr ⟨v, List.mem_append_right _ List.mem_cons_self, rfl⟩)
  rw [Database.price?, Option.isSome_map] at hin
  by_contra hnot
  rw [(FirstWins.find_eq_none PriceValues.key).mpr hnot] at hin
  cases hin

/-! ## Ids -/

/-- Related lists have related members. -/
theorem forall₂_mem_right {α β : Type} {R : α → β → Prop} {as : List α} {bs : List β}
    (h : List.Forall₂ R as bs) {b : β} (hb : b ∈ bs) : ∃ a ∈ as, R a b := by
  obtain ⟨before, after, rfl⟩ := List.append_of_mem hb
  obtain ⟨before', a, after', rfl, -, hab⟩ := forall₂_split h.flip
  exact ⟨a, List.mem_append_right _ List.mem_cons_self, hab⟩

/-- A batch that is answered leaves its known items in the table. -/
theorem BatchEnd.present {α : Type} {env : Env} {db db' : Database} {payload : List PricePointIn}
    {a : α} (h : BatchEnd env db payload (.ok a) db') {item : PricePointIn} (hitem : item ∈ payload)
    (hknown : Known db item) : Present env db' item := by
  cases h with
  | stored _ hresolved hstored =>
    obtain ⟨values, hvalues, hdb⟩ := bind_ok hstored
    exact (Offered.of_rows hresolved hvalues hdb).present hitem hknown

theorem known_oneItem : Known (catalogue ⟨1, by decide⟩) oneItem := by decide

end GpuIndex
