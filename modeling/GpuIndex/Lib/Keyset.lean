/-
  Keyset paging over a table that grows.

  Rows are read from the largest key down.  A page is the first rows below a cursor, the next
  cursor is the key of the page's last row, and a page that is not full ends the walk.

  `Walked` is the invariant of a walk: the rows returned so far are strictly descending, none is
  below the cursor, and every row the walk started with has been returned or is still below it.
  Rows that appear during the walk may be missed or met; they never disturb the others.  Hence
  **a finished walk** has returned every row it started with, and none twice (`Walked.short_page`).

  On a table that stays as it is, seeking below a row is counting off the rows up to it
  (`Descending.seek_eq_drop`), and pages one row apart are never the same
  (`Descending.page_ne_next`).
-/
import Mathlib.Order.Basic
import Mathlib.Data.Set.Basic
import Mathlib.Data.List.Nodup
import Mathlib.Data.List.Pairwise

namespace Keyset

variable {α κ : Type} [LinearOrder κ] (key : α → κ)

/-- Rows from the largest key down, no key twice. -/
def Descending (rows : List α) : Prop := rows.Pairwise fun a b => key b < key a

/-- Below the cursor; without a cursor everything is. -/
def Below (before : Option κ) (a : α) : Prop := ∀ c ∈ before, key a < c

/-- The cursor after the first `k` rows: the key of the last of them. -/
def after (ordered : List α) (k : Nat) : Option κ := if k = 0 then none else ordered[k - 1]?.map key

/-- The first `limit` rows of a table below a cursor. -/
structure IsPage (table : Set α) (before : Option κ) (limit : Nat) (page : List α) : Prop where
  descending : Descending key page
  mem : ∀ a ∈ page, a ∈ table ∧ Below key before a
  length_le : page.length ≤ limit
  /-- What was left out is below a page that is full. -/
  top : ∀ a ∈ table, Below key before a → a ∉ page →
    page.length = limit ∧ ∀ b ∈ page, key a < key b

/-- The invariant of a walk. -/
structure Walked (start : Set α) (before : Option κ) (rows : List α) : Prop where
  descending : Descending key rows
  fresh : before = none → rows = []
  above : ∀ a ∈ rows, ∀ c ∈ before, c ≤ key a
  covered : ∀ a ∈ start, a ∈ rows ∨ Below key before a

variable {key} {start table : Set α} {before : Option κ} {rows page : List α} {limit : Nat}

/-- Nothing returned, everything to come. -/
theorem walked_start (start : Set α) : Walked key start none [] where
  descending := List.Pairwise.nil
  fresh _ := rfl
  above _ h := absurd h List.not_mem_nil
  covered _ _ := .inr fun _ h => nomatch h

/-- A page goes below everything returned before. -/
theorem Walked.descending_append (h : Walked key start before rows)
    (hp : IsPage key table before limit page) : Descending key (rows ++ page) := by
  refine List.pairwise_append.mpr ⟨h.descending, hp.descending, fun a ha b hb => ?_⟩
  cases before with
  | none =>
    rw [h.fresh rfl] at ha
    exact absurd ha List.not_mem_nil
  | some c => exact lt_of_lt_of_le ((hp.mem b hb).2 c rfl) (h.above a ha c rfl)

/-- The last row of a page has its smallest key. -/
theorem Descending.last_le {c : α} (h : Descending key page) (hc : page.getLast? = some c) {a : α}
    (ha : a ∈ page) : key c ≤ key a := by
  obtain ⟨init, rfl⟩ := List.getLast?_eq_some_iff.mp hc
  rcases List.mem_append.mp ha with ha | ha
  · exact ((List.pairwise_append.mp h).2.2 a ha c (List.mem_singleton_self c)).le
  · rw [List.mem_singleton.mp ha]

/-- **A full page** keeps the invariant, with the key of its last row as the cursor. -/
theorem Walked.full_page (h : Walked key start before rows)
    (hp : IsPage key table before limit page) (hsub : start ⊆ table) {c : α}
    (hc : page.getLast? = some c) : Walked key start (some (key c)) (rows ++ page) where
  descending := h.descending_append hp
  fresh h := nomatch h
  above a ha k hk := by
    cases hk
    rcases List.mem_append.mp ha with ha | ha
    · have hlast := List.mem_of_getLast? hc
      have hdesc := List.pairwise_append.mp (h.descending_append hp)
      exact (hdesc.2.2 a ha c hlast).le
    · exact hp.descending.last_le hc ha
  covered a ha := by
    rcases h.covered a ha with hmem | hbelow
    · exact .inl (List.mem_append_left _ hmem)
    · by_cases hpage : a ∈ page
      · exact .inl (List.mem_append_right _ hpage)
      · refine .inr fun k hk => ?_
        cases hk
        exact (hp.top a (hsub ha) hbelow hpage).2 c (List.mem_of_getLast? hc)

/-- **The last page**: when it is not full, every row of the start has been returned. -/
theorem Walked.short_page (h : Walked key start before rows)
    (hp : IsPage key table before limit page) (hsub : start ⊆ table) (hshort : page.length ≠ limit)
    {a : α} (ha : a ∈ start) : a ∈ rows ++ page := by
  rcases h.covered a ha with hmem | hbelow
  · exact List.mem_append_left _ hmem
  · by_contra hpage
    rw [List.mem_append, not_or] at hpage
    exact hshort (hp.top a (hsub ha) hbelow hpage.2).1

/-- A descending list has no row twice. -/
theorem Descending.nodup (h : Descending key rows) : rows.Nodup :=
  List.Pairwise.imp (fun hab => fun heq => absurd hab (heq ▸ lt_irrefl _)) h

/-- The first rows of a sorted selection are a page. -/
theorem isPage_take {selected : List α} (hdesc : Descending key selected)
    (hmem : ∀ a, a ∈ selected ↔ a ∈ table ∧ Below key before a) (limit : Nat) :
    IsPage key table before limit (selected.take limit) where
  descending := List.Pairwise.sublist (List.take_sublist limit selected) hdesc
  mem a ha := (hmem a).mp (List.mem_of_mem_take ha)
  length_le := List.length_take_le limit selected
  top a hta hbelow hnot := by
    have hsel : a ∈ selected := (hmem a).mpr ⟨hta, hbelow⟩
    have hdrop : a ∈ selected.drop limit := by
      rw [← List.take_append_drop limit selected, List.mem_append] at hsel
      exact hsel.resolve_left hnot
    refine ⟨?_, fun b hb => ?_⟩
    · have hlt : limit < selected.length := by
        by_contra hle
        rw [List.drop_eq_nil_of_le (by omega)] at hdrop
        exact absurd hdrop List.not_mem_nil
      rw [List.length_take, Nat.min_eq_left hlt.le]
    · have hsplit : Descending key (selected.take limit ++ selected.drop limit) := by
        rw [List.take_append_drop]
        exact hdesc
      exact (List.pairwise_append.mp hsplit).2.2 b hb a hdrop

/-! ## Counting rows off -/

section Offset

variable {ordered selected : List α} {k : Nat}

/-- A descending list is determined by its rows. -/
theorem Descending.eq_of_mem_iff (h : Descending key rows) (h' : Descending key page)
    (hmem : ∀ a, a ∈ rows ↔ a ∈ page) : rows = page := by
  have hperm := (List.perm_ext_iff_of_nodup h.nodup h'.nodup).mpr hmem
  exact hperm.eq_of_pairwise (fun a b _ _ hab hba => absurd hab (lt_asymm hba)) h h'

/-- Below the cursor after `k` rows are the rows that `k` leaves. -/
theorem Descending.below_after_iff (h : Descending key ordered) (hk : k ≤ ordered.length) {a : α}
    (ha : a ∈ ordered) : Below key (after key ordered k) a ↔ a ∈ ordered.drop k := by
  cases k with
  | zero => exact ⟨fun _ => ha, fun _ _ hc => nomatch hc⟩
  | succ k =>
    have hlast : (ordered.take (k + 1)).getLast? = ordered[k]? := by
      rw [List.getLast?_eq_getElem?, List.length_take, Nat.min_eq_left hk, Nat.add_sub_cancel,
        List.getElem?_take_of_lt (Nat.lt_succ_self k)]
    have hafter : after key ordered (k + 1) = ordered[k]?.map key := rfl
    have hc : ordered[k]? = some ordered[k] := List.getElem?_eq_getElem hk
    have hsplit : Descending key (ordered.take (k + 1) ++ ordered.drop (k + 1)) := by
      rwa [List.take_append_drop]
    rw [hafter, hc]
    rw [hc] at hlast
    constructor
    · -- a row that was counted off has a key no smaller than the last of them
      intro hbelow
      have htaken : Descending key (ordered.take (k + 1)) := (List.pairwise_append.mp hsplit).1
      have hnot : a ∉ ordered.take (k + 1) := fun htake =>
        not_lt_of_ge (htaken.last_le hlast htake) (hbelow _ rfl)
      rw [← List.take_append_drop (k + 1) ordered, List.mem_append] at ha
      exact ha.resolve_left hnot
    · rintro hdrop c ⟨⟩
      exact (List.pairwise_append.mp hsplit).2.2 _ (List.mem_of_getLast? hlast) a hdrop

/-- **Seeking is counting**: the rows of a table below the cursor after its first `k` rows are what
    dropping `k` rows leaves. -/
theorem Descending.seek_eq_drop (h : Descending key ordered) (hk : k ≤ ordered.length)
    (hselected : Descending key selected)
    (hmem : ∀ a, a ∈ selected ↔ a ∈ ordered ∧ Below key (after key ordered k) a) :
    selected = ordered.drop k := by
  refine hselected.eq_of_mem_iff (List.Pairwise.sublist (List.drop_sublist k ordered) h) fun a => ?_
  rw [hmem]
  constructor
  · exact fun ⟨ha, hbelow⟩ => (h.below_after_iff hk ha).mp hbelow
  · exact fun hdrop => ⟨List.mem_of_mem_drop hdrop,
      (h.below_after_iff hk (List.mem_of_mem_drop hdrop)).mpr hdrop⟩

/-- A page and the page one row further on are two pages: the second leaves out the first row. -/
theorem Descending.page_ne_next (h : Descending key ordered) (hk : k < ordered.length)
    (hlimit : 1 ≤ limit) :
    ((ordered.drop k).take limit).map key ≠ ((ordered.drop (k + 1)).take limit).map key := by
  intro heq
  have hdrop : ordered.drop k = ordered[k] :: ordered.drop (k + 1) := List.drop_eq_getElem_cons hk
  have hfirst : key ordered[k] ∈ ((ordered.drop k).take limit).map key := by
    rw [hdrop, List.take_cons hlimit]
    exact List.mem_cons_self
  rw [heq] at hfirst
  obtain ⟨a, ha, hkey⟩ := List.mem_map.mp hfirst
  have hcons : Descending key (ordered[k] :: ordered.drop (k + 1)) :=
    hdrop ▸ List.Pairwise.sublist (List.drop_sublist k ordered) h
  exact ((List.pairwise_cons.mp hcons).1 a (List.mem_of_mem_take ha)).ne hkey

end Offset

end Keyset
