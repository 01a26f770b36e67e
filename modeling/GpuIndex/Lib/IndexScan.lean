/-
  Reading sorted rows off an index.

  An index keeps a leaf for each row it covers, and keeps the leaves in its own order; leaves that
  tie may stand in any order (`Index.Built`).  A query that filters and sorts rows may scan the
  leaves instead when the index covers every row the filter passes and orders the leaves as the
  query does (`Index.Serves`).

  The crux is **`Index.Serves.scan_iff`**: what such a scan can read is exactly what the sort can
  give, whatever order the rows are met in.  The index leaves the sort out and changes no answer.
-/
import GpuIndex.Lib.Selection

namespace OrderBy

variable {α β : Type}

/-! ## Rearrangements of given rows -/

/-- A permutation of a column is the column of a permutation. -/
theorem exists_perm_of_map {f : α → β} {rows : List α} {leaves : List β}
    (h : leaves.Perm (rows.map f)) : ∃ met : List α, met.Perm rows ∧ met.map f = leaves := by
  generalize hmapped : rows.map f = mapped at h
  induction h generalizing rows with
  | nil => exact ⟨[], by rw [List.map_eq_nil_iff.mp hmapped], rfl⟩
  | cons b _ ih =>
    obtain ⟨a, rest, rfl, rfl, hrest⟩ := List.map_eq_cons_iff.mp hmapped
    obtain ⟨met, hmet, hmap⟩ := ih hrest
    exact ⟨a :: met, hmet.cons a, by rw [List.map_cons, hmap]⟩
  | swap b c l =>
    obtain ⟨a, rest, rfl, rfl, hrest⟩ := List.map_eq_cons_iff.mp hmapped
    obtain ⟨a', rest', rfl, rfl, hrest'⟩ := List.map_eq_cons_iff.mp hrest
    exact ⟨a' :: a :: rest', List.Perm.swap a a' rest', by
      rw [List.map_cons, List.map_cons, hrest']⟩
  | trans _ _ ih₁ ih₂ =>
    obtain ⟨met, hmet, hmap⟩ := ih₂ hmapped
    obtain ⟨met', hmet', hmap'⟩ := ih₁ hmap
    exact ⟨met', hmet'.trans hmet, hmap'⟩

section Meeting

variable [DecidableEq α]

/-- Meet these rows in this order, and all others as they are stored. -/
def Shuffle.meeting {rows met : List α} (h : met.Perm rows) : Shuffle α where
  apply l := if l = rows then met else l
  perm l := by
    split
    · rename_i heq
      exact heq ▸ h
    · exact List.Perm.refl l

@[simp] theorem Shuffle.meeting_apply {rows met : List α} (h : met.Perm rows) :
    (Shuffle.meeting h).apply rows = met := if_pos rfl

/-- Rows and what is shown of them can be rearranged alike. -/
theorem exists_shuffle_map [DecidableEq β] {f : α → β} {rows : List α} {leaves : List β} :
    (∃ s : Shuffle β, s.apply (rows.map f) = leaves)
      ↔ ∃ s : Shuffle α, (s.apply rows).map f = leaves := by
  constructor
  · rintro ⟨s, rfl⟩
    obtain ⟨met, hmet, hmap⟩ := exists_perm_of_map (s.perm (rows.map f))
    exact ⟨.meeting hmet, by rw [Shuffle.meeting_apply, hmap]⟩
  · rintro ⟨s, rfl⟩
    exact ⟨.meeting ((s.perm rows).map f), Shuffle.meeting_apply _⟩

end Meeting

/-! ## Sorts and filters -/

namespace Order

variable (o o' : Order α)

/-- Rows that are sorted already stay as they are. -/
theorem sort_eq_self {rows : List α} (h : rows.Pairwise o.le) : o.sort rows = rows :=
  List.Pairwise.insertionSort_eq h

/-- Where the first order ties the second decides. -/
theorem thenBy_of_tie {a b : α} (hab : o.le a b) (hba : o.le b a) :
    (o.thenBy o').le a b ↔ o'.le a b := ⟨fun h => h.2 hba, fun h => ⟨hab, fun _ => h⟩⟩

/-- Orders that agree on the rows sort them alike. -/
theorem sort_congr {rows : List α} (h : ∀ a ∈ rows, ∀ b ∈ rows, o.le a b ↔ o'.le a b) :
    o.sort rows = o'.sort rows := by
  have hmap := List.map_insertionSort o.le o'.le id rows h
  rwa [List.map_id, List.map_id] at hmap

/-- Where only equal rows tie, the sort does not depend on the order the rows are met in. -/
theorem sort_perm {rows rows' : List α} (hanti : ∀ a b, o.le a b → o.le b a → a = b)
    (h : rows.Perm rows') : o.sort rows = o.sort rows' := by
  have hperm : (o.sort rows).Perm (o.sort rows') :=
    ((o.perm_sort rows).trans h).trans (o.perm_sort rows').symm
  exact hperm.eq_of_pairwise (fun a b _ _ => hanti a b) (o.pairwise_sort _) (o.pairwise_sort _)

/-- A row in front of all others. -/
theorem orderedInsert_of_le {a : α} {rows : List α} (h : ∀ b ∈ rows, o.le a b) :
    rows.orderedInsert o.le a = a :: rows := by
  cases rows with
  | nil => rfl
  | cons b rows => exact List.orderedInsert_cons_of_le o.le rows (h b List.mem_cons_self)

/-- Inserting a row, then filtering. -/
theorem filter_orderedInsert (P : α → Bool) (a : α) {sorted : List α}
    (hsorted : sorted.Pairwise o.le) : (sorted.orderedInsert o.le a).filter P
      = if P a then (sorted.filter P).orderedInsert o.le a else sorted.filter P := by
  induction sorted with
  | nil => cases hP : P a <;> simp [hP]
  | cons b sorted ih =>
    rw [List.orderedInsert_cons]
    split
    · -- `a` goes in front of `b`, hence in front of whatever passes the filter
      rename_i hab
      rw [List.filter_cons]
      refine if_congr Iff.rfl (o.orderedInsert_of_le fun c hc => ?_).symm rfl
      rcases List.mem_cons.mp (List.mem_of_mem_filter hc) with rfl | hc
      · exact hab
      · exact o.trans _ _ _ hab (List.rel_of_pairwise_cons hsorted hc)
    · rename_i hab
      cases hPb : P b
      · rw [List.filter_cons_of_neg (by simp [hPb]), List.filter_cons_of_neg (by simp [hPb]),
          ih hsorted.of_cons]
      · rw [List.filter_cons_of_pos hPb, List.filter_cons_of_pos hPb, ih hsorted.of_cons,
          List.orderedInsert_cons, if_neg hab]
        split <;> rfl

/-- A row that is filtered out takes no part in the sort. -/
theorem filter_sort (P : α → Bool) (rows : List α) :
    (o.sort rows).filter P = o.sort (rows.filter P) := by
  induction rows with
  | nil => rfl
  | cons a rows ih =>
    show ((o.sort rows).orderedInsert o.le a).filter P = _
    rw [o.filter_orderedInsert P a (o.pairwise_sort rows), ih, List.filter_cons]
    split <;> rfl

end Order

/-- `DISTINCT ON` looks at its keys alone. -/
theorem map_distinctOn {κ : Type} [DecidableEq κ] (key : β → κ) (f : α → β) (rows : List α) :
    (distinctOn (fun a => key (f a)) rows).map f = distinctOn key (rows.map f) := by
  induction rows with
  | nil => rfl
  | cons a rows ih =>
    rw [distinctOn, List.map_cons, List.map_cons, distinctOn, ← ih, List.filter_map]
    rfl

/-! ## Indexes -/

/-- Which rows an index has a leaf for, what the leaf holds, and how leaves are ordered. -/
structure Index (α β : Type) where
  covers : α → Bool
  leaf : α → β
  order : Order β

namespace Index

variable (ix : Index α β)

/-- The leaves of the index over a table. -/
structure Built (rows : List α) (leaves : List β) : Prop where
  perm : leaves.Perm ((rows.filter ix.covers).map ix.leaf)
  sorted : leaves.Pairwise ix.order.le

/-- A leaf goes where the order has it, before or after those it ties with. -/
def Inserted (leaves : List β) (a : α) (leaves' : List β) : Prop :=
  if ix.covers a then leaves'.Perm (ix.leaf a :: leaves) ∧ leaves'.Pairwise ix.order.le
  else leaves' = leaves

variable {ix} {rows : List α} {leaves leaves' : List β}

/-- An index can be built over every table, from its rows in any order. -/
theorem built_sort {met : List α} (hmet : met.Perm rows) :
    ix.Built rows (ix.order.sort ((met.filter ix.covers).map ix.leaf)) where
  perm := (ix.order.perm_sort _).trans ((hmet.filter _).map _)
  sorted := ix.order.pairwise_sort _

/-- **Maintenance**: the leaf of a new row keeps the index built. -/
theorem Built.insert (h : ix.Built rows leaves) {a : α} (hins : ix.Inserted leaves a leaves') :
    ix.Built (rows ++ [a]) leaves' := by
  unfold Inserted at hins
  split at hins
  · rename_i hcovers
    refine ⟨?_, hins.2⟩
    rw [List.filter_append, List.filter_cons_of_pos hcovers, List.map_append]
    exact hins.1.trans ((h.perm.cons _).trans (List.perm_append_singleton _ _).symm)
  · rename_i hcovers
    rw [hins]
    refine ⟨?_, h.sorted⟩
    rw [List.filter_append, List.filter_cons_of_neg hcovers, List.filter_nil, List.append_nil]
    exact h.perm

/-- The leaves of several rows go in, one after the other. -/
def InsertedAll (ix : Index α β) (leaves : List β) : List α → List β → Prop
  | [], leaves' => leaves' = leaves
  | a :: rows, leaves' => ∃ mid, ix.Inserted leaves a mid ∧ ix.InsertedAll mid rows leaves'

theorem Built.insertAll (h : ix.Built rows leaves) {added : List α}
    (hins : ix.InsertedAll leaves added leaves') : ix.Built (rows ++ added) leaves' := by
  induction added generalizing rows leaves with
  | nil =>
    rw [hins, List.append_nil]
    exact h
  | cons a added ih =>
    obtain ⟨mid, hmid, hrest⟩ := hins
    have hbuilt := ih (h.insert hmid) hrest
    rwa [List.append_assoc] at hbuilt

/-- A query that filters rows by `Q` and sorts them by `o` can be answered from the leaves that pass
    `P`. -/
structure Serves (ix : Index α β) (Q : α → Bool) (P : β → Bool) (o : Order β) : Prop where
  select : ∀ a, Q a = (ix.covers a && P (ix.leaf a))
  order : ∀ a b, P a → P b → (ix.order.le a b ↔ o.le a b)

section Serves

variable {Q : α → Bool} {P : β → Bool} {o : Order β}

/-- The leaves that pass are those of the rows that pass. -/
theorem Serves.filter_map (h : ix.Serves Q P o) (rows : List α) :
    ((rows.filter ix.covers).map ix.leaf).filter P = (rows.filter Q).map ix.leaf := by
  rw [List.filter_map, List.filter_filter]
  refine congrArg (List.map ix.leaf) (List.filter_congr fun a _ => ?_)
  rw [h.select a, Bool.and_comm]
  rfl

/-- **The scan is the sort**: what a scan of the leaves can read is exactly what filtering and
    sorting the rows can give. -/
theorem Serves.scan_iff [DecidableEq α] (h : ix.Serves Q P o) {scanned : List β} :
    (∃ leaves, ix.Built rows leaves ∧ leaves.filter P = scanned)
      ↔ ∃ s : Shuffle α, ((o.on ix.leaf).sort ((s.apply rows).filter Q)).map ix.leaf = scanned := by
  constructor
  · rintro ⟨leaves, hbuilt, rfl⟩
    -- the covered rows are met as the leaves stand, the others after them
    obtain ⟨met, hmet, rfl⟩ := exists_perm_of_map hbuilt.perm
    have hall : (met ++ rows.filter fun a => !ix.covers a).Perm rows :=
      (hmet.append_right _).trans (List.filter_append_perm ix.covers rows)
    refine ⟨.meeting hall, ?_⟩
    have hcovered (a : α) (ha : a ∈ met) : ix.covers a = true :=
      (List.mem_filter.mp (hmet.mem_iff.mp ha)).2
    have hQ : (met ++ rows.filter fun a => !ix.covers a).filter Q = met.filter Q := by
      rw [List.filter_append, List.append_right_eq_self, List.filter_eq_nil_iff]
      intro a ha
      have huncovered := (List.mem_filter.mp ha).2
      rw [h.select a]
      simp_all
    rw [Shuffle.meeting_apply, hQ, Order.map_sort_on, ← h.filter_map,
      List.filter_eq_self.mpr hcovered]
    refine o.sort_eq_self (List.Pairwise.imp_of_mem (fun {a b} ha hb hab => ?_)
      (hbuilt.sorted.filter P))
    exact (h.order a b (List.mem_filter.mp ha).2 (List.mem_filter.mp hb).2).mp hab
  · rintro ⟨s, rfl⟩
    refine ⟨_, built_sort (s.perm rows), ?_⟩
    rw [Order.filter_sort, h.filter_map, Order.map_sort_on]
    refine ix.order.sort_congr o fun a ha b hb => ?_
    rw [← h.filter_map] at ha hb
    exact h.order a b (List.mem_filter.mp ha).2 (List.mem_filter.mp hb).2

end Serves

/-! ## Seeking -/

/-- The leaves from the first that has come to the position. -/
def seek (reached : β → Bool) (leaves : List β) : List β := leaves.dropWhile fun b => !reached b

/-- **Seeking is filtering**, where the leaves after one that has come to the position have come to
    it too. -/
theorem seek_eq_filter {reached : β → Bool} {o : Order β} (hsorted : leaves.Pairwise o.le)
    (hup : ∀ a b, reached a → o.le a b → reached b) :
    seek reached leaves = leaves.filter reached := by
  induction leaves with
  | nil => rfl
  | cons a leaves ih =>
    cases ha : reached a
    · rw [List.filter_cons_of_neg (by simp [ha]), ← ih hsorted.of_cons, seek, seek,
        List.dropWhile_cons_of_pos (by simp [ha])]
    · rw [List.filter_cons_of_pos ha, seek, List.dropWhile_cons_of_neg (by simp [ha])]
      refine congrArg (a :: ·) (List.filter_eq_self.mpr fun b hb => ?_).symm
      exact hup a b ha (List.rel_of_pairwise_cons hsorted hb)

/-- A scan that stops at the first leaf out of range has read all in range, where the leaves after
    one out of range are out of range too. -/
theorem takeWhile_eq_filter {inRange : β → Bool} {o : Order β} (hsorted : leaves.Pairwise o.le)
    (hdown : ∀ a ∈ leaves, ∀ b, inRange b → o.le a b → inRange a) :
    leaves.takeWhile inRange = leaves.filter inRange := by
  induction leaves with
  | nil => rfl
  | cons a leaves ih =>
    cases ha : inRange a
    · rw [List.takeWhile_cons_of_neg (by simp [ha])]
      refine (List.filter_eq_nil_iff.mpr fun b hb hb' => ?_).symm
      rcases List.mem_cons.mp hb with rfl | hb
      · exact absurd hb' (by simp [ha])
      · have := hdown a List.mem_cons_self b hb' (List.rel_of_pairwise_cons hsorted hb)
        exact absurd this (by simp [ha])
    · rw [List.takeWhile_cons_of_pos ha, List.filter_cons_of_pos ha,
        ih hsorted.of_cons fun b hb => hdown b (List.mem_cons_of_mem a hb)]

end Index

end OrderBy
