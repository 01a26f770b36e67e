/-
  Keyed insertion where the first writer wins.

  A row is appended unless its key is taken.  Read as a map from keys to rows, a table after any
  number of insertions holds what it held before, and for every new key the first row that was
  offered (`find_insertAll`).  How the offers were split into batches does not show
  (`insertAll_append`).  The rows appended are one for each new key (`length_winners`), so all
  offers are appended exactly if no two of them compete and none meets a row
  (`length_winners_eq_iff`).
-/
import Mathlib.Data.List.Dedup
import Mathlib.Data.List.Nodup

namespace FirstWins

variable {α κ : Type} [DecidableEq κ] (key : α → κ)

/-- Append a row unless its key is taken. -/
def insert (rows : List α) (a : α) : List α :=
  if key a ∈ rows.map key then rows else rows ++ [a]

/-- Offer rows one after the other. -/
def insertAll (rows new : List α) : List α := new.foldl (insert key) rows

/-- The row of a key. -/
def find (rows : List α) (k : κ) : Option α := rows.find? fun a => key a = k

theorem insertAll_append (rows new more : List α) :
    insertAll key rows (new ++ more) = insertAll key (insertAll key rows new) more :=
  List.foldl_append

theorem find_eq_none {rows : List α} {k : κ} : find key rows k = none ↔ k ∉ rows.map key := by
  simp [find]

theorem find_append (rows new : List α) (k : κ) :
    find key (rows ++ new) k = (find key rows k).or (find key new k) := List.find?_append

/-- One insertion: a key that is there keeps its row, the offered row fills its own key. -/
theorem find_insert (rows : List α) (a : α) (k : κ) :
    find key (insert key rows a) k = (find key rows k).or (find key [a] k) := by
  unfold insert
  split
  · rename_i hmem
    cases hrows : find key rows k with
    | some b => rfl
    | none =>
      have hne : key a ≠ k := by
        rintro rfl
        exact (find_eq_none key).mp hrows hmem
      simp [find, hne]
  · exact find_append key rows [a] k

/-- **First writer wins**: what was there stays, and a new key takes the first row offered. -/
theorem find_insertAll (rows new : List α) (k : κ) :
    find key (insertAll key rows new) k = (find key rows k).or (find key new k) := by
  induction new generalizing rows with
  | nil => simp [insertAll, find]
  | cons a new ih =>
    have hcons : find key (a :: new) k = (find key [a] k).or (find key new k) :=
      find_append key [a] new k
    rw [insertAll, List.foldl_cons]
    exact (ih _).trans (by rw [find_insert, Option.or_assoc, ← hcons])

/-- The keys that are taken when all have been offered. -/
theorem mem_map_insertAll {rows new : List α} {k : κ} :
    k ∈ (insertAll key rows new).map key ↔ k ∈ rows.map key ∨ k ∈ new.map key := by
  rw [← not_iff_not, not_or, ← find_eq_none, ← find_eq_none, ← find_eq_none, find_insertAll,
    Option.or_eq_none_iff]

/-- Keys stay distinct. -/
theorem nodup_insert {rows : List α} (h : (rows.map key).Nodup) (a : α) :
    ((insert key rows a).map key).Nodup := by
  unfold insert
  split
  · exact h
  · rename_i hmem
    rw [List.map_append]
    exact h.append (List.nodup_singleton _) (by simpa using hmem)

theorem nodup_insertAll {rows : List α} (h : (rows.map key).Nodup) (new : List α) :
    ((insertAll key rows new).map key).Nodup := by
  induction new generalizing rows with
  | nil => exact h
  | cons a new ih => exact ih (nodup_insert key h a)

/-- Where keys are distinct, a row is what its key finds. -/
theorem mem_iff_find {rows : List α} (h : (rows.map key).Nodup) {a : α} :
    a ∈ rows ↔ find key rows (key a) = some a := by
  constructor
  · intro ha
    cases hfind : find key rows (key a) with
    | none => exact absurd (List.mem_map_of_mem ha) ((find_eq_none key).mp hfind)
    | some b =>
      have hb : key b = key a := by simpa using List.find?_some hfind
      rw [List.inj_on_of_nodup_map h (List.mem_of_find?_eq_some hfind) ha hb]
  · exact List.mem_of_find?_eq_some

/-- The rows of a table that was empty: of every key the first row offered. -/
theorem mem_insertAll_nil {new : List α} {a : α} :
    a ∈ insertAll key [] new ↔ ∃ before after, new = before ++ a :: after
      ∧ ∀ b ∈ before, key b ≠ key a := by
  have hnodup : ((insertAll key [] new).map key).Nodup := nodup_insertAll key (by simp) new
  have hnil : find key [] (key a) = none := rfl
  rw [mem_iff_find key hnodup, find_insertAll, hnil, Option.none_or, find,
    List.find?_eq_some_iff_append]
  simp only [decide_true, true_and, Bool.not_eq_true', decide_eq_false_iff_not, ne_eq]

/-! ## The rows that are appended -/

/-- The offered rows that win their keys. -/
def winners (rows : List α) : List α → List α
  | [] => []
  | a :: new => if key a ∈ rows.map key then winners rows new else a :: winners (rows ++ [a]) new

/-- Insertion appends the winners. -/
theorem insertAll_eq_append (rows new : List α) :
    insertAll key rows new = rows ++ winners key rows new := by
  induction new generalizing rows with
  | nil => exact (List.append_nil rows).symm
  | cons a new ih =>
    rw [insertAll, List.foldl_cons, insert, winners]
    split
    · exact ih rows
    · exact (ih (rows ++ [a])).trans (List.append_assoc rows [a] _)

theorem winners_sublist (rows new : List α) : (winners key rows new).Sublist new := by
  induction new generalizing rows with
  | nil => exact List.Sublist.refl _
  | cons a new ih =>
    rw [winners]
    split
    · exact (ih rows).cons a
    · exact (ih (rows ++ [a])).cons_cons a

/-- The new keys are the offered ones that are not taken. -/
theorem mem_map_winners {rows new : List α} {k : κ} :
    k ∈ (winners key rows new).map key ↔ k ∈ new.map key ∧ k ∉ rows.map key := by
  induction new generalizing rows with
  | nil => simp [winners]
  | cons a new ih =>
    rw [winners, List.map_cons, List.mem_cons]
    split
    · rename_i htaken
      rw [ih]
      refine and_congr_left fun hk => (or_iff_right ?_).symm
      rintro rfl
      exact hk htaken
    · rename_i hfree
      rw [List.map_cons, List.mem_cons, ih, List.map_append, List.mem_append, not_or,
        List.map_singleton, List.mem_singleton]
      by_cases hk : k = key a
      · simp only [hk, true_or, hfree, not_false_eq_true, and_self]
      · simp only [hk, false_or, not_false_eq_true, and_true]

theorem nodup_map_winners (rows new : List α) : ((winners key rows new).map key).Nodup := by
  induction new generalizing rows with
  | nil => exact List.nodup_nil
  | cons a new ih =>
    rw [winners]
    split
    · exact ih rows
    · rw [List.map_cons, List.nodup_cons]
      refine ⟨fun hmem => ?_, ih (rows ++ [a])⟩
      -- the key of a row that was appended is taken from then on
      refine ((mem_map_winners key).mp hmem).2 (List.mem_map_of_mem ?_)
      exact List.mem_append_right rows (List.mem_singleton_self a)

/-- **One row for every new key** is appended. -/
theorem length_winners (rows new : List α) : (winners key rows new).length
    = ((new.map key).filter fun k => k ∉ rows.map key).dedup.length := by
  rw [← List.length_map key]
  refine ((List.perm_ext_iff_of_nodup (nodup_map_winners key rows new)
    (List.nodup_dedup _)).mpr fun k => ?_).length_eq
  rw [mem_map_winners, List.mem_dedup, List.mem_filter, decide_eq_true_iff]

/-- Every offered row is appended exactly if no two of them have one key and no key is taken. -/
theorem length_winners_eq_iff {rows new : List α} : (winners key rows new).length = new.length
    ↔ (new.map key).Nodup ∧ ∀ a ∈ new, key a ∉ rows.map key := by
  constructor
  · intro hlength
    have hall := (winners_sublist key rows new).eq_of_length hlength
    refine ⟨hall ▸ nodup_map_winners key rows new, fun a ha => ?_⟩
    exact ((mem_map_winners key).mp (hall.symm ▸ List.mem_map_of_mem ha)).2
  · rintro ⟨hnodup, hfree⟩
    have hkept : (new.map key).filter (fun k => k ∉ rows.map key) = new.map key := by
      refine List.filter_eq_self.mpr fun k hk => ?_
      obtain ⟨a, ha, rfl⟩ := List.mem_map.mp hk
      exact decide_eq_true (hfree a ha)
    rw [length_winners, hkept, hnodup.dedup, List.length_map]

end FirstWins
