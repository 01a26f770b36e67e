/-
  What a seeding run leaves behind, and when it ends.

  The two loops are one filter on the keys that are drawn: a key passes unless `seen` has it, and
  `seen` is emptied where a memory of `seenRoom` keys would be (`Lib/Forgetful`).  `fillBatch_ok`
  and `seedBatches_ok` say so of the loops, `seedPrices_ok` counts what comes of it in an empty
  table, and the lemmas named `_isOk` say that a run ends once enough keys pass.
-/
import GpuIndex.Scripts.Seed
import GpuIndex.Api.StoredBatches

namespace GpuIndex

open Calendar Forgetful
open JsonText (FloatFormat FloatVal)

/-! ## Natural keys -/

/-- The key of a stored row, as the script writes it. -/
def ObservationKey.natural (k : ObservationKey) : NaturalKey :=
  ⟨k.gpuModelId, k.providerId, k.region.val, k.instanceType.val, k.observedAt⟩

theorem ObservationKey.natural_injective : Function.Injective ObservationKey.natural := by
  rintro ⟨gpu, provider, region, itype, observed⟩ ⟨gpu', provider', region', itype', observed'⟩ h
  simp only [ObservationKey.natural, NaturalKey.mk.injEq] at h
  obtain ⟨rfl, rfl, hregion, hitype, rfl⟩ := h
  rw [Varchar.val_injective hregion, Varchar.val_injective hitype]

/-- The natural key of a stored row. -/
def PriceValues.natural (v : PriceValues) : NaturalKey := v.key.natural

theorem row_natural {fmt : FloatFormat} {natural : NaturalKey} {d : PriceDraw} {row : SeedRow}
    (h : d.row fmt natural = .ok row) : row.natural = natural := by
  unfold PriceDraw.row at h
  split at h
  · cases h
    rfl
  · cases h

/-- `BASE_PRICE` has every model of `GPUS`. -/
theorem basePrice_isSome : ∀ g ∈ gpuNames, (basePrice.lookup g).isSome := by decide

theorem row_isOk (fmt : FloatFormat) (natural : NaturalKey) (d : PriceDraw) :
    ∃ row, d.row fmt natural = .ok row := by
  obtain ⟨base, hbase⟩ := Option.isSome_iff_exists.mp (basePrice_isSome _ d.gname.property)
  rw [PriceDraw.row, hbase]
  exact ⟨_, rfl⟩

/-- A row is stored under its natural key. -/
theorem natural_of_bind {env : Env} {row : SeedRow} {v : PriceValues} (h : row.bind env = .ok v) :
    v.natural = row.natural := by
  unfold SeedRow.bind at h
  split at h
  · rw [PriceParams.bind] at h
    obtain ⟨region, hregion, h⟩ := bind_ok h
    obtain ⟨instanceType, hinstance, h⟩ := bind_ok h
    obtain ⟨availability, havailability, h⟩ := bind_ok h
    obtain ⟨observedAt, hobserved, h⟩ := bind_ok h
    have hutc := bindDatetime_ok hobserved
    rw [toInstant?_utc] at hutc
    split at h
    · cases h
      rw [PriceValues.natural, PriceValues.key, ObservationKey.natural, bindVarchar_ok hregion,
        bindVarchar_ok hinstance, ← Option.some.inj hutc]
    · cases h
  · cases h

/-! ## Writing a batch -/

theorem mapM_cons_ok {α β ε : Type} {f : α → Except ε β} {a : α} {b : β} {as : List α} {bs : List β}
    (ha : f a = .ok b) (has : as.mapM f = .ok bs) : (a :: as).mapM f = .ok (b :: bs) := by
  rw [List.mapM_cons, ha, ok_bind, has, ok_bind]
  rfl

/-- What a traversal makes of the rest of a list. -/
theorem mapM_rest {α β ε : Type} {f : α → Except ε β} {as as' : List α} {bs all : List β}
    (h : (as ++ as').mapM f = .ok all) (has : as.mapM f = .ok bs) :
    ∃ bs', as'.mapM f = .ok bs' ∧ all = bs ++ bs' := by
  rw [List.mapM_append, has, ok_bind] at h
  obtain ⟨bs', hbs', h⟩ := bind_ok h
  cases h
  exact ⟨bs', hbs', rfl⟩

/-- **A batch that is written** brings its natural keys, and the first of each wins. -/
theorem executeMany_ok {env : Env} {db db' : Database} {batch : List SeedRow}
    (h : executeMany env db batch = .ok db') : ∃ values : List PriceValues,
      values.map PriceValues.natural = batch.map SeedRow.natural
        ∧ db'.priceValues = FirstWins.insertAll PriceValues.key db.priceValues values := by
  obtain ⟨values, hvalues, hinsert⟩ := bind_ok h
  refine ⟨values, ?_, (Database.insertPrices_ok hinsert).2⟩
  have hall := mapM_ok hvalues
  clear hvalues hinsert h
  induction hall with
  | nil => rfl
  | cons hv _ ih => rw [List.map_cons, List.map_cons, natural_of_bind hv, ih]

/-- The table takes the row of the draw. -/
def PriceDraw.Storable (env : Env) (catalogue : Catalogue) (now : Instant) (db : Database)
    (d : PriceDraw) : Prop :=
  ∀ natural row, d.natural catalogue now = .ok natural → d.row env.fmt natural = .ok row →
    ∃ v, row.bind env = .ok v ∧ db.References v

theorem PriceDraw.Storable.of_grows {env : Env} {catalogue : Catalogue} {now : Instant}
    {db db' : Database} {d : PriceDraw} (h : d.Storable env catalogue now db)
    (hgrows : db.Grows db') : d.Storable env catalogue now db' := by
  intro natural row hnatural hrow
  obtain ⟨v, hv, href⟩ := h natural row hnatural hrow
  refine ⟨v, hv, ?_⟩
  rw [Database.References, hgrows.gpuModels, hgrows.providers]
  exact href

/-- **A batch of storable rows** is written while ids last. -/
theorem executeMany_isOk {env : Env} {db : Database} {batch : List SeedRow} (hfresh : db.FreshIds)
    (hroom : db.lastPriceId + batch.length < 9223372036854775808)
    (hbatch : ∀ row ∈ batch, ∃ v, row.bind env = .ok v ∧ db.References v) :
    ∃ mid, executeMany env db batch = .ok mid ∧ mid.FreshIds ∧ db.Grows mid
      ∧ mid.lastPriceId = db.lastPriceId + batch.length := by
  obtain ⟨values, hvalues⟩ := mapM_isOk.mpr fun row hrow => (hbatch row hrow).imp fun _ h => h.1
  have hbound := mapM_ok hvalues
  have href : ∀ v ∈ values, db.References v := by
    intro v hv
    obtain ⟨row, hmem, hrow⟩ := forall₂_mem_right hbound hv
    obtain ⟨v', hv', href⟩ := hbatch row hmem
    cases hrow.symm.trans hv'
    exact href
  rw [hbound.length_eq] at hroom ⊢
  obtain ⟨mid, hmid, hfresh', hlast⟩ := hfresh.insertPrices hroom href
  refine ⟨mid, ?_, hfresh', (Database.insertPrices_ok hmid).1, hlast⟩
  rw [executeMany, hvalues, ok_bind, hmid]

/-! ## The inner loop -/

section Fill

variable {fmt : FloatFormat} {catalogue : Catalogue} {now : Instant} {batchSize : Nat}
    {target : Int} {written : Nat}

/-- What the inner loop has done when it is left: the draws it took, their natural keys, and the
    rows it made of the keys that passed. -/
structure Filled (fmt : FloatFormat) (catalogue : Catalogue) (now : Instant) (batchSize : Nat)
    (target : Int) (written capacity : Nat) (draws : List PriceDraw) (seen : Finset NaturalKey)
    (batch batch' : List SeedRow) (seen' : Finset NaturalKey) (rest used : List PriceDraw)
    (keys : List NaturalKey) (new : List SeedRow) : Prop where
  taken : draws = used ++ rest
  named : used.mapM (PriceDraw.natural catalogue now) = .ok keys
  added : batch' = batch ++ new
  made : ∀ row ∈ new, ∃ d ∈ used, ∃ natural, d.natural catalogue now = .ok natural
    ∧ d.row fmt natural = .ok row
  rows : new.map SeedRow.natural = passedFrom capacity (heldOf capacity seen) keys
  memory : memoryFrom capacity (heldOf capacity seen) keys = heldOf capacity seen'
  card : seen'.card = seen.card + new.length
  left : ¬ BatchOpen batchSize target written batch'.length
  size : batch'.length ≤ batchSize
  total : ((written + batch'.length : Nat) : Int) ≤ target

section Steps

variable {capacity : Nat} {draws rest used : List PriceDraw} {seen seen' : Finset NaturalKey}
  {batch batch' new : List SeedRow} {keys : List NaturalKey} {d : PriceDraw} {natural : NaturalKey}

/-- The batch is full, or reaches the target. -/
theorem Filled.done (hleft : ¬ BatchOpen batchSize target written batch.length)
    (hsize : batch.length ≤ batchSize) (htotal : ((written + batch.length : Nat) : Int) ≤ target) :
    Filled fmt catalogue now batchSize target written capacity draws seen batch batch
      seen draws [] [] [] where
  taken := rfl
  named := rfl
  added := (List.append_nil batch).symm
  made _ h := absurd h List.not_mem_nil
  rows := rfl
  memory := rfl
  card := rfl
  left := hleft
  size := hsize
  total := htotal

/-- A draw whose key repeats, and the loop goes on. -/
theorem Filled.repeated
    (h : Filled fmt catalogue now batchSize target written capacity draws seen batch
      batch' seen' rest used keys new) (hnatural : d.natural catalogue now = .ok natural)
    (hheld : heldOf capacity seen = seen) (hmem : natural ∈ seen) :
    Filled fmt catalogue now batchSize target written capacity
      (d :: draws) seen batch batch' seen' rest (d :: used) (natural :: keys) new where
  taken := by rw [h.taken, List.cons_append]
  named := mapM_cons_ok hnatural h.named
  added := h.added
  made row hrow := by
    obtain ⟨d', hd', hmade⟩ := h.made row hrow
    exact ⟨d', List.mem_cons_of_mem d hd', hmade⟩
  rows := by rw [h.rows, hheld, passedFrom, if_pos hmem]
  memory := by
    rw [← h.memory, hheld, memoryFrom, List.foldl_cons, remember_of_mem hmem]
    rfl
  card := h.card
  left := h.left
  size := h.size
  total := h.total

/-- A draw whose key is new, and the loop goes on. -/
theorem Filled.fresh {row : SeedRow} (h : Filled fmt catalogue now batchSize target written capacity
      draws (insert natural seen) (batch ++ [row]) batch' seen' rest used keys new)
    (hnatural : d.natural catalogue now = .ok natural) (hrow : d.row fmt natural = .ok row)
    (hheld : heldOf capacity seen = seen) (hnew : natural ∉ seen) :
    Filled fmt catalogue now batchSize target written capacity
      (d :: draws) seen batch batch' seen' rest (d :: used) (natural :: keys) (row :: new) where
  taken := by rw [h.taken, List.cons_append]
  named := mapM_cons_ok hnatural h.named
  added := by rw [h.added, List.append_assoc, List.singleton_append]
  made := by
    refine List.forall_mem_cons.mpr ⟨⟨d, List.mem_cons_self, natural, hnatural, hrow⟩, ?_⟩
    intro row' hrow'
    obtain ⟨d', hd', hmade⟩ := h.made row' hrow'
    exact ⟨d', List.mem_cons_of_mem d hd', hmade⟩
  rows := by
    rw [List.map_cons, h.rows, row_natural hrow, hheld, passedFrom, if_neg hnew,
      remember_of_notMem hnew]
  memory := by
    rw [← h.memory, hheld, memoryFrom, List.foldl_cons, remember_of_notMem hnew]
    rfl
  card := by
    rw [h.card, Finset.card_insert_of_notMem hnew, List.length_cons]
    omega
  left := h.left
  size := h.size
  total := h.total

/-- The table takes the rows that were made of storable draws. -/
theorem Filled.storable {env : Env} {db : Database}
    (h : Filled env.fmt catalogue now batchSize target
      written capacity draws seen batch batch' seen' rest used keys new)
    (hdraws : ∀ d ∈ draws, d.Storable env catalogue now db) :
    ∀ row ∈ new, ∃ v, row.bind env = .ok v ∧ db.References v := by
  intro row hrow
  obtain ⟨d, hd, natural, hnatural, hmade⟩ := h.made row hrow
  exact hdraws d (h.taken ▸ List.mem_append_left rest hd) natural row hnatural hmade

end Steps

/-- **The inner loop** lets the keys pass that a memory of the capacity lets pass, if the batch is
    full no later than the memory. -/
theorem fillBatch_ok {capacity : Nat} {draws rest : List PriceDraw}
    {seen seen' : Finset NaturalKey} {batch batch' : List SeedRow}
    (hroom : seen.card + batchSize ≤ capacity + batch.length) (hsize : batch.length ≤ batchSize)
    (hwritten : ((written + batch.length : Nat) : Int) ≤ target)
    (h : fillBatch fmt catalogue now batchSize target written draws seen batch
      = .ok (batch', seen', rest)) :
    ∃ used keys new, Filled fmt catalogue now batchSize target written capacity draws
      seen batch batch' seen' rest used keys new := by
  induction draws generalizing seen batch with
  | nil =>
    rw [fillBatch] at h
    split at h
    · cases h
    · rename_i hleft
      cases h
      exact ⟨[], [], [], .done hleft hsize hwritten⟩
  | cons d draws ih =>
    rw [fillBatch] at h
    split at h
    · rename_i hopen
      obtain ⟨hlt, htarget⟩ := hopen
      have hheld : heldOf capacity seen = seen := heldOf_of_lt (by omega)
      split at h
      · cases h
      · rename_i natural hnatural
        split at h
        · rename_i hmem
          obtain ⟨used, keys, new, hfilled⟩ := ih hroom hsize hwritten h
          exact ⟨d :: used, natural :: keys, new, hfilled.repeated hnatural hheld hmem⟩
        · rename_i hnew
          split at h
          · cases h
          · rename_i row hrow
            have hcard := Finset.card_insert_of_notMem hnew
            have hlength : (batch ++ [row]).length = batch.length + 1 := List.length_append
            obtain ⟨used, keys, new, hfilled⟩ := ih (by omega) (by omega) (by omega) h
            exact ⟨d :: used, natural :: keys, row :: new, hfilled.fresh hnatural hrow hheld hnew⟩
    · rename_i hleft
      cases h
      exact ⟨[], [], [], .done hleft hsize hwritten⟩

/-- **The inner loop is left** if the keys to come let the run reach its target. -/
theorem fillBatch_isOk {capacity : Nat} {draws : List PriceDraw} {seen : Finset NaturalKey}
    {batch : List SeedRow} {keys : List NaturalKey}
    (hroom : seen.card + batchSize ≤ capacity + batch.length)
    (hkeys : draws.mapM (PriceDraw.natural catalogue now) = .ok keys)
    (henough : target
      ≤ (written + batch.length + (passedFrom capacity (heldOf capacity seen) keys).length : Nat)) :
    ∃ left, fillBatch fmt catalogue now batchSize target written draws seen batch = .ok left := by
  induction draws generalizing seen batch keys with
  | nil =>
    cases hkeys
    rw [fillBatch, if_neg fun hopen => absurd henough (not_le.mpr hopen.2)]
    exact ⟨_, rfl⟩
  | cons d draws ih =>
    rw [List.mapM_cons] at hkeys
    obtain ⟨natural, hnatural, hkeys⟩ := bind_ok hkeys
    obtain ⟨keys', hkeys', hcons⟩ := bind_ok hkeys
    cases hcons
    rw [fillBatch]
    split
    · rename_i hopen
      have hheld : heldOf capacity seen = seen := heldOf_of_lt (by have := hopen.1; omega)
      rw [hheld, passedFrom] at henough
      simp only [hnatural]
      split
      · rename_i hmem
        rw [if_pos hmem] at henough
        exact ih hroom hkeys' (by rw [hheld]; exact henough)
      · rename_i hnew
        rw [if_neg hnew, remember_of_notMem hnew, List.length_cons] at henough
        obtain ⟨row, hrow⟩ := row_isOk fmt natural d
        have hcard := Finset.card_insert_of_notMem hnew
        have hlength : (batch ++ [row]).length = batch.length + 1 := List.length_append
        simp only [hrow]
        exact ih (by omega) hkeys' (by rw [hlength]; omega)
    · exact ⟨_, rfl⟩

end Fill

/-! ## The outer loop -/

section Batches

variable {env : Env} {catalogue : Catalogue} {outside : SeedWorld} {batchSize seenCap : Nat}
  {target : Int}

/-- **One turn of the outer loop** that goes on to finish. -/
theorem seedBatches_cases {batches written : Nat} {seen : Finset NaturalKey} {db db' : Database}
    {draws rest : List PriceDraw}
    (h : seedBatches env catalogue outside batchSize seenCap target batches written seen db draws
      = .ok (db', rest)) :
    (target ≤ written ∧ db' = db ∧ rest = draws) ∨
    ((written : Int) < target ∧ ∃ batch seen' left,
      fillBatch env.fmt catalogue outside.now batchSize target written draws seen []
          = .ok (batch, seen', left)
        ∧ (batch = [] ∨ ∃ mid, executeMany env db batch = .ok mid ∧ left.length < draws.length
          ∧ seedBatches env catalogue outside batchSize seenCap target (batches + 1)
              (written + batch.length) (if seenCap < seen'.card then ∅ else seen') mid left
            = .ok (db', rest))) := by
  rw [seedBatches] at h
  split at h
  · rename_i hopen
    refine .inr ⟨hopen, ?_⟩
    split at h
    · cases h
    · rename_i seen' left hfill
      exact ⟨[], seen', left, hfill, .inl rfl⟩
    · rename_i row batch seen' left hfill
      have hle := fillBatch_rest_le env.fmt catalogue outside.now batchSize target hfill
      rw [List.length_cons, List.length_nil] at hle
      split at h
      · cases h
      · split at h
        · cases h
        · rename_i mid hmid
          exact ⟨row :: batch, seen', left, hfill, .inr ⟨mid, hmid, by omega, h⟩⟩
  · rename_i hdone
    cases h
    exact .inl ⟨not_lt.mp hdone, rfl, rfl⟩

/-- The keys that fit into `seen` before it is emptied: whole batches, the last of them past the
    cap. -/
def seenRoom (batchSize seenCap : Nat) : Nat := batchSize * (seenCap / batchSize + 1)

/-- What holds where the outer loop is entered: the target is reached, or `seen` is what a memory of
    its room remembers, and it is made of whole batches. -/
def AtHead (batchSize seenCap : Nat) (target : Int) (written : Nat)
    (seen memory : Finset NaturalKey) : Prop :=
  (written : Int) = target ∨
    (written : Int) < target ∧ memory = seen ∧ batchSize ∣ seen.card ∧ seen.card ≤ seenCap

/-- There is room for one more batch in a `seen` that was not emptied. -/
theorem card_add_le_seenRoom {n : Nat} (hdvd : batchSize ∣ n) (hle : n ≤ seenCap) :
    n + batchSize ≤ seenRoom batchSize seenCap := by
  obtain ⟨j, rfl⟩ := hdvd
  rcases Nat.eq_zero_or_pos batchSize with rfl | hpos
  · simp
  · have hj : j ≤ seenCap / batchSize := (Nat.le_div_iff_mul_le hpos).mpr (by rwa [Nat.mul_comm])
    calc batchSize * j + batchSize = batchSize * (j + 1) := rfl
      _ ≤ seenRoom batchSize seenCap := Nat.mul_le_mul_left batchSize (Nat.add_le_add_right hj 1)

/-- `seen` is emptied when it is full, no sooner. -/
theorem seenRoom_le_of_lt {n : Nat} (hdvd : batchSize ∣ n) (hlt : seenCap < n) :
    seenRoom batchSize seenCap ≤ n := by
  obtain ⟨j, rfl⟩ := hdvd
  have hj : seenCap / batchSize < j := Nat.div_lt_of_lt_mul hlt
  exact Nat.mul_le_mul_left batchSize hj

/-- What the outer loop has done when it is left: the draws it took, their natural keys, and the
    values it sent to the table. -/
structure Seeded (catalogue : Catalogue) (now : Instant) (capacity : Nat) (target : Int)
    (written : Nat) (memory : Finset NaturalKey) (db db' : Database) (draws rest : List PriceDraw)
    (used : List PriceDraw) (keys : List NaturalKey) (values : List PriceValues) : Prop where
  taken : draws = used ++ rest
  named : used.mapM (PriceDraw.natural catalogue now) = .ok keys
  sent : values.map PriceValues.natural = passedFrom capacity memory keys
  stored : db'.priceValues = FirstWins.insertAll PriceValues.key db.priceValues values
  total : ((written + values.length : Nat) : Int) = target

theorem heldOf_of_dvd (hpos : 0 < batchSize)
    {seen : Finset NaturalKey} (hdvd : batchSize ∣ seen.card)
    (hle : seen.card ≤ seenCap) : heldOf (seenRoom batchSize seenCap) seen = seen := by
  have hroom := card_add_le_seenRoom hdvd hle
  exact heldOf_of_lt (by omega)

/-- **The batch of a turn of the outer loop** has rows, and they are of the keys that pass. -/
theorem filled_of_fill (hpos : 0 < batchSize) {written : Nat} {draws left : List PriceDraw}
    {seen seen' : Finset NaturalKey} {batch : List SeedRow} (hopen : (written : Int) < target)
    (hdvd : batchSize ∣ seen.card) (hle : seen.card ≤ seenCap)
    (hfill : fillBatch env.fmt catalogue outside.now batchSize target written draws seen []
      = .ok (batch, seen', left)) :
    batch ≠ [] ∧ ∃ used keys, Filled env.fmt catalogue outside.now batchSize target written
        (seenRoom batchSize seenCap) draws seen [] batch seen' left used keys batch
      ∧ batch.map SeedRow.natural = passedFrom (seenRoom batchSize seenCap) seen keys
      ∧ memoryFrom (seenRoom batchSize seenCap) seen keys
          = heldOf (seenRoom batchSize seenCap) seen' := by
  obtain ⟨used, keys, new, hfilled⟩ := fillBatch_ok
    ((card_add_le_seenRoom hdvd hle).trans (Nat.le_add_right _ _)) (Nat.zero_le _) hopen.le hfill
  obtain rfl : batch = new := hfilled.added
  have hrows := hfilled.rows
  have hmemory := hfilled.memory
  rw [heldOf_of_dvd hpos hdvd hle] at hrows hmemory
  refine ⟨?_, used, keys, hfilled, hrows, hmemory⟩
  rintro rfl
  exact hfilled.left ⟨hpos, hopen⟩

/-- **A turn of the outer loop** comes back to its head, the target reached or one whole batch
    further. -/
theorem atHead_of_filled (hpos : 0 < batchSize) {fmt : FloatFormat} {now : Instant} {written : Nat}
    {draws left used : List PriceDraw} {seen seen' : Finset NaturalKey} {keys : List NaturalKey}
    {batch : List SeedRow} (hdvd : batchSize ∣ seen.card) (hle : seen.card ≤ seenCap)
    (h : Filled fmt catalogue now batchSize target written
      (seenRoom batchSize seenCap) draws seen [] batch seen' left used keys batch) :
    AtHead batchSize seenCap target (written + batch.length)
    (if seenCap < seen'.card then ∅ else seen') (heldOf (seenRoom batchSize seenCap) seen') := by
  rcases h.total.eq_or_lt with hdone | hopen
  · exact .inl hdone
  · -- the batch was left because it is full
    have hfull : batch.length = batchSize :=
      le_antisymm h.size (not_lt.mp fun hlt => h.left ⟨hlt, hopen⟩)
    have hcard : seen'.card = seen.card + batchSize := by rw [h.card, hfull]
    have hdvd' : batchSize ∣ seen'.card := hcard ▸ hdvd.add (dvd_refl batchSize)
    have hroom := card_add_le_seenRoom hdvd hle
    refine .inr ⟨hopen, ?_⟩
    by_cases hcap : seenCap < seen'.card
    · have hfills : seen'.card = seenRoom batchSize seenCap :=
        le_antisymm (hcard ▸ hroom) (seenRoom_le_of_lt hdvd' hcap)
      rw [if_pos hcap]
      exact ⟨if_pos hfills, dvd_zero batchSize, Nat.zero_le seenCap⟩
    · rw [if_neg hcap]
      exact ⟨heldOf_of_dvd hpos hdvd' (not_lt.mp hcap), hdvd', not_lt.mp hcap⟩

/-- **The outer loop** sends the keys that a memory of the room of `seen` lets pass. -/
theorem seedBatches_ok (hpos : 0 < batchSize) {batches written : Nat}
    {seen memory : Finset NaturalKey} {db db' : Database} {draws rest : List PriceDraw}
    (hhead : AtHead batchSize seenCap target written seen memory)
    (h : seedBatches env catalogue outside batchSize seenCap target batches written seen db draws
      = .ok (db', rest)) :
    ∃ used keys values, Seeded catalogue outside.now (seenRoom batchSize seenCap) target written
      memory db db' draws rest used keys values := by
  induction hn : draws.length using Nat.strong_induction_on
    generalizing batches written seen memory db draws with
  | _ n ih =>
    subst hn
    rcases seedBatches_cases h with ⟨hdone, rfl, rfl⟩ | ⟨hopen, batch, seen', left, hfill, hbatch⟩
    · have htotal : (written : Int) = target := hhead.elim id fun h => by omega
      exact ⟨[], [], [], rfl, rfl, rfl, rfl, htotal⟩
    · obtain ⟨-, rfl, hdvd, hle⟩ := hhead.resolve_left (by omega)
      obtain ⟨hne, used, keys, hfilled, hrows, hmemory⟩ := filled_of_fill hpos hopen hdvd hle hfill
      rcases hbatch with rfl | ⟨mid, hmid, hshorter, hrest⟩
      · exact absurd rfl hne
      · obtain ⟨vs, hvs, hstored⟩ := executeMany_ok hmid
        have hlength : vs.length = batch.length := by simpa using congrArg List.length hvs
        obtain ⟨used', keys', values, hseeded⟩ :=
          ih _ hshorter (atHead_of_filled hpos hdvd hle hfilled) hrest rfl
        refine ⟨used ++ used', keys ++ keys', vs ++ values, ?_, ?_, ?_, ?_, ?_⟩
        · rw [hfilled.taken, hseeded.taken, List.append_assoc]
        · rw [List.mapM_append, hfilled.named, ok_bind, hseeded.named, ok_bind]
          rfl
        · rw [List.map_append, hvs, hrows, hseeded.sent, passedFrom_append, hmemory]
        · rw [hseeded.stored, hstored, FirstWins.insertAll_append]
        · rw [← hseeded.total, List.length_append, hlength, Nat.add_assoc]

/-- One turn of the outer loop that writes its batch. -/
theorem seedBatches_next {batches written : Nat} {seen seen' : Finset NaturalKey}
    {db mid : Database} {draws left : List PriceDraw} {batch : List SeedRow}
    (hopen : (written : Int) < target)
    (hfill : fillBatch env.fmt catalogue outside.now batchSize target written draws seen []
      = .ok (batch, seen', left))
    (hbatch : batch ≠ []) (hserver : outside.batchError batches = none)
    (hmid : executeMany env db batch = .ok mid) :
    seedBatches env catalogue outside batchSize seenCap target batches written seen db draws
      = seedBatches env catalogue outside batchSize seenCap target (batches + 1)
          (written + batch.length) (if seenCap < seen'.card then ∅ else seen') mid left := by
  conv_lhs => rw [seedBatches, if_pos hopen]
  split
  · rename_i hfill'
    cases hfill.symm.trans hfill'
  · rename_i hfill'
    cases hfill.symm.trans hfill'
    exact absurd rfl hbatch
  · rename_i row rows seen'' left' hfill'
    cases hfill.symm.trans hfill'
    simp only [hserver, hmid]

/-- **The outer loop is left** if the keys to come let it reach its target and the server carries
    out its statements. -/
theorem seedBatches_isOk (hpos : 0 < batchSize) (hserver : ∀ n, outside.batchError n = none)
    {batches written : Nat} {seen memory : Finset NaturalKey} {db : Database}
    {draws : List PriceDraw} {keys : List NaturalKey}
    (hhead : AtHead batchSize seenCap target written seen memory)
    (hdraws : ∀ d ∈ draws, d.Storable env catalogue outside.now db) (hfresh : db.FreshIds)
    (hroom : db.lastPriceId + (target - written) < 9223372036854775808)
    (hkeys : draws.mapM (PriceDraw.natural catalogue outside.now) = .ok keys)
    (henough : target
      ≤ (written + (passedFrom (seenRoom batchSize seenCap) memory keys).length : Nat)) :
    ∃ left, seedBatches env catalogue outside batchSize seenCap target batches written seen db draws
      = .ok left := by
  induction hn : draws.length using Nat.strong_induction_on
    generalizing batches written seen memory db draws keys with
  | _ n ih =>
    subst hn
    rcases hhead with hdone | ⟨hopen, rfl, hdvd, hle⟩
    · rw [seedBatches, if_neg (by omega)]
      exact ⟨_, rfl⟩
    · obtain ⟨⟨batch, seen', left⟩, hfill⟩ :
        ∃ left, fillBatch env.fmt catalogue outside.now batchSize
          target written draws memory [] = .ok left := by
        refine fillBatch_isOk ((card_add_le_seenRoom hdvd hle).trans
          (Nat.le_add_right _ _)) hkeys ?_
        rw [heldOf_of_dvd hpos hdvd hle]
        exact henough
      obtain ⟨hne, used, keys₁, hfilled, hrows, hmemory⟩ := filled_of_fill hpos hopen hdvd hle hfill
      have htotal := hfilled.total
      obtain ⟨mid, hmid, hfresh', hgrows, hlast⟩ := executeMany_isOk hfresh (by omega)
        (hfilled.storable hdraws)
      have hlength := List.length_pos_of_ne_nil hne
      obtain ⟨keys₂, hkeys₂, rfl⟩ := mapM_rest (hfilled.taken ▸ hkeys) hfilled.named
      have hshorter : left.length < draws.length := by
        have := fillBatch_rest_le env.fmt catalogue outside.now batchSize target hfill
        rw [List.length_nil] at this
        omega
      rw [seedBatches_next hopen hfill hne (hserver batches) hmid]
      refine ih _ hshorter (atHead_of_filled hpos hdvd hle hfilled) ?_ hfresh'
        (by omega) hkeys₂ ?_ rfl
      · intro d hd
        exact (hdraws d (hfilled.taken ▸ List.mem_append_right used hd)).of_grows hgrows
      · have hpassed :
            batch.length = (passedFrom (seenRoom batchSize seenCap) memory keys₁).length := by
          rw [← hrows, List.length_map]
        rw [passedFrom_append, hmemory, List.length_append, ← hpassed] at henough
        omega

end Batches

/-! ## A whole run -/

/-- The rows an empty table has after the values are inserted: one for each natural key. -/
theorem length_insertAll_nil (values : List PriceValues) :
    (FirstWins.insertAll PriceValues.key [] values).length
      = (values.map PriceValues.natural).toFinset.card := by
  have hkeys : values.map PriceValues.natural
      = (values.map PriceValues.key).map ObservationKey.natural := by
    rw [List.map_map]
    rfl
  rw [FirstWins.insertAll_eq_append, List.nil_append, FirstWins.length_winners, hkeys,
    List.card_toFinset, List.dedup_map_of_injective ObservationKey.natural_injective,
    List.length_map]
  simp only [List.map_nil, List.not_mem_nil, not_false_eq_true, decide_true, List.filter_true]

theorem seenRoom_of_script : seenRoom 25000 2000000 = 2025000 := by decide

theorem atHead_start {target : Int} (htarget : 0 ≤ target) : AtHead 25000 2000000 target 0 ∅ ∅ := by
  rcases htarget.eq_or_lt with hzero | hopen
  · exact .inl hzero
  · exact .inr ⟨hopen, rfl, dvd_zero 25000, Nat.zero_le 2000000⟩

/-- **A run on an empty table** stores a row for every different natural key it drew, and has
    counted those that a memory of 2,025,000 keys let pass. -/
theorem seedPrices_ok {env : Env} {catalogue : Catalogue} {outside : SeedWorld} {target : Int}
    (htarget : 0 ≤ target) {db db' : Database} (hempty : db.pricePoints = [])
    {draws rest : List PriceDraw}
    (h : seedPrices env catalogue outside target db draws = .ok (db', rest)) :
    ∃ used keys, draws = used ++ rest
      ∧ used.mapM (PriceDraw.natural catalogue outside.now) = .ok keys
      ∧ db'.pricePoints.length = keys.toFinset.card
      ∧ ((passed 2025000 keys).length : Int) = target := by
  unfold seedPrices at h
  split at h
  · cases h
  · rename_i last left hrun
    split at h
    · cases h
    · cases h
      obtain ⟨used, keys, values, hseeded⟩ := seedBatches_ok (by decide) (atHead_start htarget) hrun
      rw [seenRoom_of_script] at hseeded
      have hvalues : values.map PriceValues.natural = passed 2025000 keys := hseeded.sent
      have htable : db'.priceValues = FirstWins.insertAll PriceValues.key [] values := by
        have hnone : db.priceValues = [] := by rw [Tables.priceValues, hempty, List.map_nil]
        rw [hseeded.stored, hnone]
      refine ⟨used, keys, hseeded.taken, hseeded.named, ?_, ?_⟩
      · rw [← List.length_map PricePoint.toPriceValues]
        change db'.priceValues.length = _
        rw [htable, length_insertAll_nil, hvalues, toFinset_passed]
      · rw [← hvalues, List.length_map, ← hseeded.total, Nat.zero_add]

/-- There are no more rows than different keys among the draws that were offered. -/
theorem seedPrices_rows_le {env : Env} {catalogue : Catalogue} {outside : SeedWorld} {target : Int}
    (htarget : 0 ≤ target) {db db' : Database} (hempty : db.pricePoints = [])
    {draws rest : List PriceDraw} {keys : List NaturalKey}
    (hkeys : draws.mapM (PriceDraw.natural catalogue outside.now) = .ok keys)
    (h : seedPrices env catalogue outside target db draws = .ok (db', rest)) :
    db'.pricePoints.length ≤ keys.toFinset.card := by
  obtain ⟨used, keys', rfl, hkeys', htable, -⟩ := seedPrices_ok htarget hempty h
  obtain ⟨keysRest, -, rfl⟩ := mapM_rest hkeys hkeys'
  rw [htable, List.toFinset_append]
  exact Finset.card_le_card Finset.subset_union_left

/-- **A target that `seen` has room for** is always reached. -/
theorem seedPrices_reaches_of_le {env : Env} {catalogue : Catalogue} {outside : SeedWorld}
    {target : Int} (htarget : 0 ≤ target) (hroom : target ≤ 2025000) {db db' : Database}
    (hempty : db.pricePoints = []) {draws rest : List PriceDraw}
    (h : seedPrices env catalogue outside target db draws = .ok (db', rest)) :
    (db'.pricePoints.length : Int) = target := by
  obtain ⟨_, keys, -, -, htable, hcount⟩ := seedPrices_ok htarget hempty h
  have hnodup : (passed 2025000 keys).Nodup := nodup_passed_of_length_le (by omega)
  rw [htable, ← hcount, card_toFinset_eq_iff.mpr (nodup_passed_iff.mp hnodup)]

/-- **A run finishes** once the keys it draws let it count to its target, if the server carries out
    its statements. -/
theorem seedPrices_isOk {env : Env} {catalogue : Catalogue} {outside : SeedWorld} {target : Int}
    (htarget : 0 ≤ target) (hserver : ∀ n, outside.batchError n = none)
    (hanalyze : outside.analyzeError = none) {db : Database} {draws : List PriceDraw}
    {keys : List NaturalKey} (hdraws : ∀ d ∈ draws, d.Storable env catalogue outside.now db)
    (hfresh : db.FreshIds) (hroom : db.lastPriceId + target < 9223372036854775808)
    (hkeys : draws.mapM (PriceDraw.natural catalogue outside.now) = .ok keys)
    (henough : target ≤ (passed 2025000 keys).length) :
    ∃ db' rest, seedPrices env catalogue outside target db draws = .ok (db', rest) := by
  obtain ⟨⟨db', rest⟩, hrun⟩ :
    ∃ left, seedBatches env catalogue outside 25000 2000000 target 0 0 ∅ db draws = .ok left := by
    refine seedBatches_isOk (by decide) hserver (atHead_start htarget) hdraws hfresh ?_ hkeys ?_
    · rw [Nat.cast_zero, Int.sub_zero]
      exact hroom
    · rw [seenRoom_of_script, Nat.zero_add]
      exact henough
  refine ⟨db', rest, ?_⟩
  rw [seedPrices, hrun]
  simp only [hanalyze]

end GpuIndex
