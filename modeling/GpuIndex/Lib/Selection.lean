/-
  Selections that are free to break ties.

  A query that takes the first row of each key and then the first rows of those is not determined
  by its rows: rows that tie may come in any order.  This file says what every such selection has in
  common (`FirstOfEach`, `TopRows`), and exactly when there is only one (`selected_unique`,
  `exists_selected_ne`) or when every selection shows each value of an attribute
  (`shown_of_firstRows`, `exists_selected_hiding`).

  A tie can be broken in every way: a shuffle that sorts by a preference in front of a stable sort
  makes the sort follow the preference wherever rows tie.
-/
import GpuIndex.Lib.OrderBy
import Mathlib.Data.List.Dedup
import Mathlib.Data.Rat.Defs

namespace OrderBy

/-! ## Sorted lists -/

section Take

variable {α : Type} {R : α → α → Prop} {P : α → Prop} [DecidablePred P] {rows : List α} {a : α}
  {k : Nat}

/-- A row is among the first `k` when fewer than `k` rows can come before it. -/
theorem mem_take_of_count (hsorted : rows.Pairwise R) (hnodup : rows.Nodup) (ha : a ∈ rows)
    (hbefore : ∀ b ∈ rows, b ≠ a → R b a → P b) (hcount : (rows.filter (P ·)).length < k) :
    a ∈ rows.take k := by
  obtain ⟨front, back, rfl⟩ := List.append_of_mem ha
  have hfront : ∀ b ∈ front, P b := by
    intro b hb
    have hne : b ≠ a := by
      rintro rfl
      exact (List.nodup_append.mp hnodup).2.2 b hb b List.mem_cons_self rfl
    have hR : R b a := (List.pairwise_append.mp hsorted).2.2 b hb a List.mem_cons_self
    exact hbefore b (List.mem_append_left _ hb) hne hR
  have hlength : front.length ≤ ((front ++ a :: back).filter (P ·)).length := by
    rw [List.filter_append, List.filter_eq_self.mpr fun b hb => decide_eq_true (hfront b hb),
      List.length_append]
    omega
  rw [List.take_append]
  refine List.mem_append_right _ ?_
  obtain ⟨n, hn⟩ : ∃ n, k - front.length = n + 1 := ⟨k - front.length - 1, by omega⟩
  rw [hn, List.take_succ_cons]
  exact List.mem_cons_self

/-- A row is not among the first `k` when `k` rows must come before it. -/
theorem not_mem_take_of_count (hsorted : rows.Pairwise R) (hself : ¬ P a)
    (hafter : ∀ b ∈ rows, P b → ¬ R a b) (hcount : k ≤ (rows.filter (P ·)).length) :
    a ∉ rows.take k := by
  intro ha
  obtain ⟨front, back, hsplit⟩ := List.append_of_mem ha
  have hrows : rows = front ++ a :: (back ++ rows.drop k) := by
    conv_lhs => rw [← List.take_append_drop k rows, hsplit]
    rw [List.append_assoc, List.cons_append]
  have hback : ∀ b ∈ a :: (back ++ rows.drop k), ¬ P b := by
    intro b hb hP
    rcases List.mem_cons.mp hb with rfl | hb
    · exact hself hP
    · rw [hrows] at hsorted
      have hR := List.rel_of_pairwise_cons (List.pairwise_append.mp hsorted).2.1 hb
      have hmem : b ∈ rows := by
        rw [hrows]
        exact List.mem_append_right _ (List.mem_cons_of_mem _ hb)
      exact hafter b hmem hP hR
  have hlength : front.length < k := by
    have htake := congrArg List.length hsplit
    rw [List.length_append, List.length_cons] at htake
    have := List.length_take_le k rows
    omega
  have hnone : (a :: (back ++ rows.drop k)).filter (P ·) = [] :=
    List.filter_eq_nil_iff.mpr fun b hb => by simpa using hback b hb
  rw [hrows, List.filter_append, hnone, List.append_nil] at hcount
  have := List.length_filter_le (P ·) front
  omega

end Take

/-! ## Sorts and ties -/

namespace Order

variable {α β : Type} (o p : Order α)

theorem refl (a : α) : o.le a a := (o.total a a).elim id id

/-- **A stable sort** keeps rows that tie in the order it meets them. -/
theorem pairwise_sort_thenBy {rows : List α} (h : rows.Pairwise p.le) :
    (o.sort rows).Pairwise (o.thenBy p).le := by
  induction rows with
  | nil => exact List.Pairwise.nil
  | cons a rows ih =>
    have ha : ∀ b ∈ rows, p.le a b := fun b hb => List.rel_of_pairwise_cons h hb
    have hsorted := ih h.of_cons
    rw [sort, List.insertionSort_cons]
    have hmem : ∀ b ∈ rows.insertionSort o.le, p.le a b := fun b hb =>
      ha b ((List.mem_insertionSort o.le).mp hb)
    change (List.orderedInsert o.le a (rows.insertionSort o.le)).Pairwise (o.thenBy p).le
    change (rows.insertionSort o.le).Pairwise (o.thenBy p).le at hsorted
    generalize rows.insertionSort o.le = sorted at hsorted hmem
    induction sorted with
    | nil => exact List.pairwise_singleton _ _
    | cons b sorted ih' =>
      rw [List.orderedInsert_cons]
      split
      · -- `a` comes first, also among the rows it ties with
        rename_i hab
        refine List.pairwise_cons.mpr ⟨fun c hc => ?_, hsorted⟩
        have hac : o.le a c := by
          rcases List.mem_cons.mp hc with rfl | hc
          · exact hab
          · exact o.trans _ _ _ hab (List.rel_of_pairwise_cons hsorted hc).1
        exact ⟨hac, fun _ => hmem c hc⟩
      · rename_i hab
        refine List.pairwise_cons.mpr ⟨fun c hc => ?_, ih' hsorted.of_cons
          fun c hc => hmem c (List.mem_cons_of_mem _ hc)⟩
        rcases (List.mem_orderedInsert o.le).mp hc with rfl | hc
        · exact ⟨(o.total _ _).resolve_left hab, fun h => absurd h hab⟩
        · exact List.rel_of_pairwise_cons hsorted hc

/-- Sorting by a column, then reading the column. -/
theorem map_sort_on (f : β → α) (rows : List β) :
    ((o.on f).sort rows).map f = o.sort (rows.map f) :=
  List.map_insertionSort (o.on f).le o.le f rows fun _ _ _ _ => Iff.rfl

/-- Preferred rows first. -/
def preferring (P : α → Bool) : Order α := Order.asc fun a => !P a

theorem preferring_le {P : α → Bool} {a b : α} : (preferring P).le a b ↔ (P b → P a) := by
  show (!P a) ≤ (!P b) ↔ _
  cases P a <;> cases P b <;> decide

/-- Some row of a list comes first. -/
theorem exists_least {rows : List α} (h : rows ≠ []) : ∃ a ∈ rows, ∀ b ∈ rows, o.le a b := by
  have hsorted := o.pairwise_sort rows
  cases hrows : o.sort rows with
  | nil => exact absurd (o.sort_eq_nil.mp hrows) h
  | cons a sorted =>
    rw [hrows] at hsorted
    refine ⟨a, o.mem_sort.mp (hrows ▸ List.mem_cons_self), fun b hb => ?_⟩
    rcases List.mem_cons.mp (hrows ▸ o.mem_sort.mpr hb : b ∈ a :: sorted) with rfl | hb
    · exact o.refl b
    · exact List.rel_of_pairwise_cons hsorted hb

end Order

/-- The rows as a preference orders them. -/
def Shuffle.ordered {α : Type} (p : Order α) : Shuffle α := ⟨p.sort, p.perm_sort⟩

/-! ## One row of each key -/

section FirstOfEach

variable {α κ : Type} [DecidableEq κ] (key : α → κ) (o : Order α)

/-- The rows no row of their key comes before. -/
def firstRows (rows : List α) : List α :=
  rows.filter fun a => ∀ b ∈ rows, key b = key a → o.le a b

/-- One row of each key, none before it. -/
structure FirstOfEach (rows picked : List α) : Prop where
  distinct : (picked.map key).Nodup
  first : ∀ a ∈ picked, a ∈ firstRows key o rows
  covers : ∀ a ∈ rows, ∃ b ∈ picked, key b = key a

variable {key o} {rows picked : List α} {a b : α}

theorem mem_firstRows :
    a ∈ firstRows key o rows ↔ a ∈ rows ∧ ∀ b ∈ rows, key b = key a → o.le a b := by
  simp [firstRows]

/-- No key is kept twice. -/
theorem nodup_distinctOn (rows : List α) : ((distinctOn key rows).map key).Nodup := by
  induction rows with
  | nil => exact List.nodup_nil
  | cons a rows ih =>
    rw [distinctOn, List.map_cons, List.nodup_cons]
    constructor
    · intro ha
      obtain ⟨b, hb, hkey⟩ := List.mem_map.mp ha
      exact absurd hkey (by simpa using (List.mem_filter.mp hb).2)
    · exact ih.sublist (List.filter_sublist.map key)

/-- Of sorted rows the first of each key is kept. -/
theorem le_of_mem_distinctOn (hsorted : rows.Pairwise o.le) (ha : a ∈ distinctOn key rows)
    (hb : b ∈ rows) (hkey : key b = key a) : o.le a b := by
  induction rows with
  | nil => exact absurd hb List.not_mem_nil
  | cons c rows ih =>
    rw [distinctOn, List.mem_cons, List.mem_filter] at ha
    rcases ha with rfl | ⟨ha, hne⟩
    · rcases List.mem_cons.mp hb with rfl | hb
      · exact o.refl b
      · exact List.rel_of_pairwise_cons hsorted hb
    · rcases List.mem_cons.mp hb with rfl | hb
      · exact absurd hkey.symm (by simpa using hne)
      · exact ih hsorted.of_cons ha hb

/-- **`DISTINCT ON`**, whatever order the rows are met in. -/
theorem firstOfEach_distinctOn {met : List α} (hmet : met.Perm rows) :
    FirstOfEach key o rows (distinctOn key (o.sort met)) where
  distinct := nodup_distinctOn _
  first a ha := by
    have hmem (c : α) : c ∈ o.sort met ↔ c ∈ rows := o.mem_sort.trans hmet.mem_iff
    refine mem_firstRows.mpr ⟨(hmem a).mp (mem_of_mem_distinctOn key ha), fun b hb hkey => ?_⟩
    exact le_of_mem_distinctOn (o.pairwise_sort _) ha ((hmem b).mpr hb) hkey
  covers a ha := exists_mem_distinctOn key (o.mem_sort.mpr (hmet.mem_iff.mpr ha))

theorem FirstOfEach.mem (h : FirstOfEach key o rows picked) (ha : a ∈ picked) : a ∈ rows :=
  (mem_firstRows.mp (h.first a ha)).1

theorem FirstOfEach.nodup (h : FirstOfEach key o rows picked) : picked.Nodup :=
    h.distinct.of_map key

/-- Orders that agree on the rows of each key have the same first rows. -/
theorem firstRows_congr {o' : Order α}
    (h : ∀ a b, key b = key a → (o.le a b ↔ o'.le a b)) (rows : List α) :
    firstRows key o rows = firstRows key o' rows := by
  refine List.filter_congr fun a _ => ?_
  rw [decide_eq_decide]
  exact forall₂_congr fun b _ => imp_congr_right fun hkey => h a b hkey

theorem FirstOfEach.congr {o' : Order α} (hrows : firstRows key o rows = firstRows key o' rows)
    (h : FirstOfEach key o rows picked) : FirstOfEach key o' rows picked :=
  ⟨h.distinct, fun a ha => hrows ▸ h.first a ha, h.covers⟩

/-- A row that is first and has no rival is picked. -/
theorem FirstOfEach.mem_of_alone (h : FirstOfEach key o rows picked)
    (ha : a ∈ firstRows key o rows) (halone : ∀ b ∈ firstRows key o rows, key b = key a → b = a) :
    a ∈ picked := by
  obtain ⟨b, hb, hkey⟩ := h.covers a (mem_firstRows.mp ha).1
  rwa [halone b (h.first b hb) hkey] at hb

/-- As many rows are picked as there are keys. -/
theorem FirstOfEach.perm_keys (h : FirstOfEach key o rows picked) :
    (picked.map key).Perm (rows.map key).dedup := by
  refine (List.perm_ext_iff_of_nodup h.distinct (List.nodup_dedup _)).mpr fun k => ?_
  rw [List.mem_dedup]
  constructor
  · intro hk
    obtain ⟨a, ha, rfl⟩ := List.mem_map.mp hk
    exact List.mem_map_of_mem (h.mem ha)
  · intro hk
    obtain ⟨a, ha, rfl⟩ := List.mem_map.mp hk
    obtain ⟨b, hb, hkey⟩ := h.covers a ha
    exact hkey ▸ List.mem_map_of_mem hb

theorem FirstOfEach.length_eq (h : FirstOfEach key o rows picked) :
    picked.length = (rows.map key).dedup.length := by
  rw [← h.perm_keys.length_eq, List.length_map]

/-- A preference decides which of the first rows of a key is picked. -/
theorem preferred_of_mem_distinctOn {P : α → Bool} {met : List α} (hmet : met.Perm rows)
    (hmetP : met.Pairwise (Order.preferring P).le) (ha : a ∈ distinctOn key (o.sort met))
    (hb : b ∈ firstRows key o rows) (hkey : key b = key a) (hP : P b) : P a := by
  have hsorted := o.pairwise_sort_thenBy (Order.preferring P) hmetP
  have hmem : b ∈ o.sort met := o.mem_sort.mpr (hmet.mem_iff.mpr (mem_firstRows.mp hb).1)
  have hle := le_of_mem_distinctOn hsorted ha hmem hkey
  have hamem : a ∈ rows := hmet.mem_iff.mp (o.mem_sort.mp (mem_of_mem_distinctOn key ha))
  exact Order.preferring_le.mp (hle.2 ((mem_firstRows.mp hb).2 a hamem hkey.symm)) hP

end FirstOfEach

/-! ## The first rows of all -/

/-- `top` is a way to take the first `limit` rows. -/
structure TopRows {α : Type} (o : Order α) (limit : Nat) (rows top : List α) : Prop where
  sorted : top.Pairwise o.le
  length : top.length = min limit rows.length
  /-- What is left out, and it does not come before what is taken. -/
  omitted : ∃ omitted, rows.Perm (top ++ omitted) ∧ ∀ a ∈ top, ∀ b ∈ omitted, o.le a b

/-- `ORDER BY ... LIMIT`, whatever order the rows are met in. -/
theorem topRows_take {α : Type} (o : Order α) (limit : Nat) {rows met : List α}
    (hmet : met.Perm rows) : TopRows o limit rows ((o.sort met).take limit) where
  sorted := (o.pairwise_sort met).take
  length := by rw [List.length_take, (o.perm_sort met).length_eq, hmet.length_eq]
  omitted := by
    refine ⟨(o.sort met).drop limit, ?_, fun a ha b hb => ?_⟩
    · rw [List.take_append_drop]
      exact ((o.perm_sort met).trans hmet).symm
    · have hsorted := o.pairwise_sort met
      rw [← List.take_append_drop limit (o.sort met)] at hsorted
      exact (List.pairwise_append.mp hsorted).2.2 a ha b hb

theorem TopRows.mem {α : Type} {o : Order α} {limit : Nat} {rows top : List α} {a : α}
    (h : TopRows o limit rows top) (ha : a ∈ top) : a ∈ rows := by
  obtain ⟨omitted, hperm, -⟩ := h.omitted
  exact hperm.mem_iff.mpr (List.mem_append_left _ ha)

theorem TopRows.length_le {α : Type} {o : Order α} {limit : Nat} {rows top : List α}
    (h : TopRows o limit rows top) : top.length ≤ limit := by
  rw [h.length]
  exact Nat.min_le_left _ _

/-- A row that is left out does not come before the `limit` rows that are taken. -/
theorem TopRows.of_not_mem {α : Type} {o : Order α} {limit : Nat} {rows top : List α} {a : α}
    (h : TopRows o limit rows top) (ha : a ∈ rows) (hout : a ∉ top) :
    top.length = limit ∧ ∀ b ∈ top, o.le b a := by
  obtain ⟨omitted, hperm, hle⟩ := h.omitted
  have hin : a ∈ omitted := (List.mem_append.mp (hperm.mem_iff.mp ha)).resolve_left hout
  constructor
  · have hlength := hperm.length_eq
    have := List.length_pos_of_mem hin
    rw [List.length_append] at hlength
    have := h.length
    omega
  · exact fun b hb => hle b hb a hin

/-! ### All ways of taking the first rows -/

section TopRows

variable {α : Type} (o : Order α)

/-- Rows that are sorted and come before all others stay in front. -/
theorem Order.sort_append {top rest : List α} (hsorted : top.Pairwise o.le)
    (hbefore : ∀ a ∈ top, ∀ b ∈ rest, o.le a b) : o.sort (top ++ rest) = top ++ o.sort rest := by
  induction top with
  | nil => rfl
  | cons a top ih =>
    obtain ⟨ha, htop⟩ := List.pairwise_cons.mp hsorted
    have hrest := ih htop fun b hb => hbefore b (List.mem_cons_of_mem _ hb)
    have hsort :
        o.sort (a :: (top ++ rest)) = List.orderedInsert o.le a (o.sort (top ++ rest)) := rfl
    rw [List.cons_append, hsort, hrest]
    -- nothing comes before `a`
    have hle : ∀ b ∈ top ++ o.sort rest, o.le a b := fun b hb => by
      rcases List.mem_append.mp hb with hb | hb
      · exact ha b hb
      · exact hbefore a List.mem_cons_self b (o.mem_sort.mp hb)
    cases hall : top ++ o.sort rest with
    | nil =>
      rw [List.cons_append, hall]
      rfl
    | cons b l =>
      rw [List.cons_append, hall, List.orderedInsert_cons,
        if_pos (hle b (hall ▸ List.mem_cons_self))]

variable {o} {limit : Nat} {P : α → Bool} {rows top : List α}

/-- The rows taken are the first ones of any list that goes on with the others. -/
theorem TopRows.take_append (h : TopRows o limit rows top) {rest : List α}
    (hlength : (top ++ rest).length = rows.length) : (top ++ rest).take limit = top := by
  have htop := h.length
  rw [← hlength, List.length_append] at htop
  rcases Nat.lt_or_ge top.length limit with hlt | hge
  · -- no rows are left out
    have hnil : rest = [] := List.eq_nil_of_length_eq_zero (by omega)
    rw [hnil, List.append_nil, List.take_of_length_le hlt.le]
  · rw [List.take_append_of_le_length hge, List.take_of_length_le (by omega)]

/-- **Completeness**: every way to take the first rows is one a plan may take. -/
theorem TopRows.exists_shuffle [DecidableEq α] (h : TopRows o limit (rows.filter P) top) :
    ∃ f : Shuffle α, (o.sort ((f.apply rows).filter P)).take limit = top := by
  obtain ⟨omitted, hperm, hbefore⟩ := h.omitted
  have hkept : ∀ a ∈ top ++ omitted, P a = true := fun a ha =>
    (List.mem_filter.mp (hperm.mem_iff.mpr ha)).2
  have hall : (top ++ omitted ++ rows.filter fun a => !P a).Perm rows :=
    (hperm.symm.append_right _).trans (List.filter_append_perm P rows)
  refine ⟨⟨fun l => if l = rows then top ++ omitted ++ rows.filter fun a => !P a else l,
    fun l => ?_⟩, ?_⟩
  · split
    · rename_i hl
      exact hl ▸ hall
    · exact .refl _
  · have hfilter : (top ++ omitted ++ rows.filter fun a => !P a).filter P = top ++ omitted := by
      rw [List.filter_append, List.filter_eq_self.mpr hkept, List.filter_filter,
        List.filter_eq_nil_iff.mpr fun a _ => by simp, List.append_nil]
    show (o.sort (List.filter P (if rows = rows then _ else rows))).take limit = top
    rw [if_pos rfl, hfilter, o.sort_append h.sorted hbefore]
    refine h.take_append ?_
    rw [hperm.length_eq, List.length_append, List.length_append, (o.perm_sort omitted).length_eq]

end TopRows

/-! ## Selections -/

section Selected

variable {α κ : Type} [DecidableEq κ] (key : α → κ) (o final : Order α) (limit : Nat)

/-- `top` is a way to pick a first row of each key and to take the first `limit` of those. -/
def Selected (rows top : List α) : Prop :=
  ∃ picked, FirstOfEach key o rows picked ∧ TopRows final limit picked top

/-- A selection whose ties are broken by two preferences: rows that tie in the first sort are met
    in the order of `P`, rows that tie in the second in the order of `Q`. -/
def Favours (P Q : α → Bool) (rows top : List α) : Prop :=
  ∃ met found, met.Perm rows ∧ met.Pairwise (Order.preferring P).le
    ∧ found.Perm (distinctOn key (o.sort met)) ∧ found.Pairwise (Order.preferring Q).le
    ∧ top = (final.sort found).take limit

variable {key o final limit} {rows top : List α} {c : α}

theorem Selected.nodup_keys (h : Selected key o final limit rows top) : (top.map key).Nodup := by
  obtain ⟨picked, hpicked, htop⟩ := h
  obtain ⟨omitted, hperm, -⟩ := htop.omitted
  have hnodup := (hperm.map key).nodup_iff.mp hpicked.distinct
  rw [List.map_append] at hnodup
  exact (List.nodup_append.mp hnodup).1

/-- With no more keys than the limit nothing is left out. -/
theorem Selected.firstOfEach (h : Selected key o final limit rows top)
    (hle : (rows.map key).dedup.length ≤ limit) : FirstOfEach key o rows top := by
  have hnodup := h.nodup_keys
  obtain ⟨picked, hpicked, htop⟩ := h
  have hkeep : ∀ a ∈ picked, a ∈ top := by
    obtain ⟨omitted, hperm, -⟩ := htop.omitted
    have hlength := hperm.length_eq
    rw [List.length_append, htop.length, hpicked.length_eq, Nat.min_eq_right hle] at hlength
    have hnone : omitted = [] := List.length_eq_zero_iff.mp (by omega)
    intro a ha
    have hmem := hperm.mem_iff.mp ha
    rwa [hnone, List.append_nil] at hmem
  refine ⟨hnodup, fun a ha => hpicked.first a (htop.mem ha), fun a ha => ?_⟩
  obtain ⟨b, hb, hkey⟩ := hpicked.covers a ha
  exact ⟨b, hkeep b hb, hkey⟩

theorem Selected.first (h : Selected key o final limit rows top) (hc : c ∈ top) :
    c ∈ firstRows key o rows := by
  obtain ⟨picked, hpicked, htop⟩ := h
  exact hpicked.first c (htop.mem hc)

/-- A duplicate-free list inside another is no longer. -/
theorem length_le_of_subset {β : Type} {l₁ l₂ : List β} (hnodup : l₁.Nodup) (h : l₁ ⊆ l₂) :
    l₁.length ≤ l₂.length := (List.subperm_of_subset hnodup h).length_le

/-! ### When there is only one -/

variable (key o final limit)

/-- The number of keys all of whose first rows come strictly before `c`. -/
def keysAhead (rows : List α) (c : α) : Nat :=
  ((rows.map key).dedup.filter fun k =>
    ∀ d ∈ firstRows key o rows, key d = k → ¬ final.le c d).length

/-- A row that can be selected has no rival: no other first row of its key, and none of another key
    that ties with it. -/
def Determined (rows : List α) : Prop :=
  ∀ c ∈ firstRows key o rows, keysAhead key o final rows c < limit →
    ∀ d ∈ firstRows key o rows, d ≠ c → key d ≠ key c ∧ ¬ (final.le c d ∧ final.le d c)

variable {key o final limit}

theorem determined_congr {o' : Order α} (hrows : firstRows key o rows = firstRows key o' rows) :
    Determined key o final limit rows ↔ Determined key o' final limit rows := by
  simp only [Determined, keysAhead, hrows]

/-- A row that is selected has fewer than `limit` keys ahead. -/
theorem Selected.keysAhead_lt (h : Selected key o final limit rows top) (hc : c ∈ top) :
    keysAhead key o final rows c < limit := by
  obtain ⟨picked, hpicked, htop⟩ := h
  have hsubset : ((rows.map key).dedup.filter fun k =>
      ∀ d ∈ firstRows key o rows, key d = k → ¬ final.le c d)
      ⊆ (top.filter fun b => ¬ final.le c b).map key := by
    intro k hk
    obtain ⟨hk, hahead⟩ := List.mem_filter.mp hk
    obtain ⟨a, ha, rfl⟩ := List.mem_map.mp (List.mem_dedup.mp hk)
    obtain ⟨b, hb, hkey⟩ := hpicked.covers a ha
    have hbefore : ¬ final.le c b := of_decide_eq_true hahead b (hpicked.first b hb) hkey
    -- the row picked for the key comes before `c`, so it is not left out
    have hbtop : b ∈ top := by
      by_contra hout
      exact hbefore ((htop.of_not_mem hb hout).2 c hc)
    exact List.mem_map.mpr ⟨b, List.mem_filter.mpr ⟨hbtop, decide_eq_true hbefore⟩, hkey⟩
  have hcount := length_le_of_subset ((List.nodup_dedup _).filter _) hsubset
  have hless : (top.filter fun b => ¬ final.le c b).length < top.length :=
    List.length_filter_lt_length_iff_exists.mpr ⟨c, hc, by simpa using final.refl c⟩
  rw [List.length_map] at hcount
  exact (hcount.trans_lt hless).trans_le htop.length_le

/-- Without rivals every row that can be selected is. -/
theorem Selected.mem_of_determined (hdet : Determined key o final limit rows)
    (h : Selected key o final limit rows top) (hc : c ∈ firstRows key o rows)
    (hcount : keysAhead key o final rows c < limit) : c ∈ top := by
  have hselected := h
  obtain ⟨picked, hpicked, htop⟩ := h
  have hpick : c ∈ picked := hpicked.mem_of_alone hc fun d hd hkey => by
    by_contra hne
    exact (hdet c hc hcount d hd hne).1 hkey
  by_contra hout
  obtain ⟨hlength, hle⟩ := htop.of_not_mem hpick hout
  -- every row taken instead comes strictly before `c`, and so does its whole key
  have hsubset : top.map key ⊆ (rows.map key).dedup.filter fun k =>
      ∀ d ∈ firstRows key o rows, key d = k → ¬ final.le c d := by
    intro k hk
    obtain ⟨a, ha, rfl⟩ := List.mem_map.mp hk
    have hafirst := hselected.first ha
    have hrival := hdet a hafirst (hselected.keysAhead_lt ha)
    refine List.mem_filter.mpr ⟨List.mem_dedup.mpr (List.mem_map_of_mem
      (mem_firstRows.mp hafirst).1), decide_eq_true fun d hd hkey hcd => ?_⟩
    have hda : d = a := by
      by_contra hne
      exact (hrival d hd hne).1 hkey
    have hca : c ≠ a := fun h => hout (h ▸ ha)
    exact (hrival c hc hca).2 ⟨hle a ha, hda ▸ hcd⟩
  have hmany := length_le_of_subset hselected.nodup_keys hsubset
  rw [List.length_map, hlength] at hmany
  exact absurd hcount (not_lt.mpr hmany)

/-- **Only one selection**, when no row that can be selected has a rival. -/
theorem selected_unique (hdet : Determined key o final limit rows) {top₁ top₂ : List α}
    (h₁ : Selected key o final limit rows top₁) (h₂ : Selected key o final limit rows top₂) :
    top₁ = top₂ := by
  have hperm : top₁.Perm top₂ := by
    refine (List.perm_ext_iff_of_nodup (h₁.nodup_keys.of_map key) (h₂.nodup_keys.of_map key)).mpr
      fun c => ⟨fun hc => ?_, fun hc => ?_⟩
    · exact h₂.mem_of_determined hdet (h₁.first hc) (h₁.keysAhead_lt hc)
    · exact h₁.mem_of_determined hdet (h₂.first hc) (h₂.keysAhead_lt hc)
  obtain ⟨_, _, htop₁⟩ := id h₁
  obtain ⟨_, _, htop₂⟩ := id h₂
  refine hperm.eq_of_pairwise (fun a b ha hb hab hba => ?_) htop₁.sorted htop₂.sorted
  by_contra hne
  exact (hdet a (h₁.first ha) (h₁.keysAhead_lt ha) b (h₂.first hb) (Ne.symm hne)).2 ⟨hab, hba⟩

/-! ### When there are several -/

/-- A row with fewer than `limit` keys ahead is selected by preferences that favour it: it is picked
    for its key, rows of other keys are picked so as not to come before it, and it comes first among
    those it ties with. -/
theorem Favours.mem {P Q : α → Bool} (h : Favours key o final limit P Q rows top)
    (hc : c ∈ firstRows key o rows) (hcount : keysAhead key o final rows c < limit) (hself : P c)
    (halone : ∀ e, P e → key e = key c → e = c) (hbehind : ∀ e, P e → final.le c e)
    (hsome : ∀ d ∈ firstRows key o rows, final.le c d →
      ∃ e ∈ firstRows key o rows, key e = key d ∧ P e)
    (hQ : ∀ e, Q e ↔ e = c) : c ∈ top := by
  obtain ⟨met, found, hmet, hmetP, hfound, hfoundQ, rfl⟩ := h
  have hpicked : FirstOfEach key o rows (distinctOn key (o.sort met)) :=
    firstOfEach_distinctOn hmet
  have hpreferred {a b : α} (ha : a ∈ distinctOn key (o.sort met)) (hb : b ∈ firstRows key o rows)
      (hkey : key b = key a) (hP : P b) : P a :=
    preferred_of_mem_distinctOn hmet hmetP ha hb hkey hP
  have hpick : c ∈ distinctOn key (o.sort met) := by
    obtain ⟨a, ha, hkey⟩ := hpicked.covers c (mem_firstRows.mp hc).1
    rwa [halone a (hpreferred ha hc hkey.symm hself) hkey] at ha
  have hperm : (final.sort found).Perm (distinctOn key (o.sort met)) :=
    (final.perm_sort _).trans hfound
  refine mem_take_of_count (P := fun b => ¬ final.le c b)
    (final.pairwise_sort_thenBy (.preferring Q) hfoundQ) (hperm.nodup_iff.mpr hpicked.nodup)
    (hperm.mem_iff.mpr hpick) (fun b hb hne hle hcb => ?_) ?_
  · -- a row that ties with `c` comes after it
    exact hne ((hQ b).mp (Order.preferring_le.mp (hle.2 hcb) ((hQ c).mpr rfl)))
  · rw [(hperm.filter _).length_eq]
    refine lt_of_le_of_lt ?_ hcount
    rw [← List.length_map (f := key)]
    refine length_le_of_subset (hpicked.distinct.sublist (List.filter_sublist.map key)) ?_
    intro k hk
    obtain ⟨b, hb, rfl⟩ := List.mem_map.mp hk
    obtain ⟨hb, hbefore⟩ := List.mem_filter.mp hb
    refine List.mem_filter.mpr ⟨List.mem_dedup.mpr (List.mem_map_of_mem (hpicked.mem hb)),
      decide_eq_true fun d hd hkey hcd => ?_⟩
    obtain ⟨e, he, hekey, hP⟩ := hsome d hd hcd
    have hPb : P b := hpreferred hb he (hekey.trans hkey) hP
    exact of_decide_eq_true hbefore (hbehind b hPb)

theorem Favours.pairwise {P Q : α → Bool} (h : Favours key o final limit P Q rows top) :
    top.Pairwise (final.thenBy (.preferring Q)).le := by
  obtain ⟨met, found, -, -, -, hfoundQ, rfl⟩ := h
  exact (final.pairwise_sort_thenBy _ hfoundQ).take

/-- A row that has a preferred rival is not selected. -/
theorem Favours.preferred {P Q : α → Bool} (h : Favours key o final limit P Q rows top)
    (hc : c ∈ top) {d : α} (hd : d ∈ firstRows key o rows) (hkey : key d = key c) (hP : P d) :
    P c := by
  obtain ⟨met, found, hmet, hmetP, hfound, -, rfl⟩ := h
  have hpick := hfound.mem_iff.mp (final.mem_sort.mp (List.mem_of_mem_take hc))
  exact preferred_of_mem_distinctOn hmet hmetP hpick hd hkey hP

/-- Two rows of one sorted list, when each order puts its own one first. -/
theorem not_both_first {l : List α} {R₁ R₂ : α → α → Prop} {a b : α} (h₁ : l.Pairwise R₁)
    (h₂ : l.Pairwise R₂) (ha : a ∈ l) (hb : b ∈ l) (hne : b ≠ a) (hba : ¬ R₁ b a) (hab : ¬ R₂ a b) :
    False := by
  obtain ⟨front, back, rfl⟩ := List.append_of_mem ha
  rcases List.mem_append.mp hb with hb | hb
  · exact hba ((List.pairwise_append.mp h₁).2.2 b hb a List.mem_cons_self)
  · have hback := (List.mem_cons.mp hb).resolve_left hne
    exact hab (List.rel_of_pairwise_cons (List.pairwise_append.mp h₂).2.1 hback)

section Rivals

variable [DecidableEq α] {d : α}

/-- Rivals of one key: pick the one, or pick the other. -/
theorem selected_ne_of_key (hc : c ∈ firstRows key o rows)
    (hcount : keysAhead key o final rows c < limit) (hd : d ∈ firstRows key o rows) (hne : d ≠ c)
    (hkey : key d = key c) : ∃ P₁ Q₁ P₂ Q₂, ∀ top, Favours key o final limit P₁ Q₁ rows top →
      ¬ Favours key o final limit P₂ Q₂ rows top := by
  refine ⟨fun e => e = c ∨ (key e ≠ key c ∧ final.le c e), fun e => e = c, fun e => e = d,
    fun _ => false, fun top h₁ h₂ => ?_⟩
  have hctop : c ∈ top := by
    refine h₁.mem hc hcount (by simp) (fun e he hk => ?_) (fun e he => ?_)
      (fun x hx hcx => ?_) (fun e => by simp)
    · rcases of_decide_eq_true he with rfl | ⟨hk', -⟩
      · rfl
      · exact absurd hk hk'
    · rcases of_decide_eq_true he with rfl | ⟨-, hce⟩
      · exact final.refl e
      · exact hce
    · by_cases hk : key x = key c
      · exact ⟨c, hc, hk.symm, by simp⟩
      · exact ⟨x, hx, rfl, by simp [hk, hcx]⟩
  exact hne (of_decide_eq_true (h₂.preferred hctop hd hkey (by simp))).symm

/-- Rivals of two keys that tie: put the one first, or put the other first. -/
theorem selected_ne_of_tie (hc : c ∈ firstRows key o rows)
    (hcount : keysAhead key o final rows c < limit) (hd : d ∈ firstRows key o rows) (hne : d ≠ c)
    (hkey : key d ≠ key c) (hcd : final.le c d) (hdc : final.le d c) :
    ∃ P₁ Q₁ P₂ Q₂, ∀ top, Favours key o final limit P₁ Q₁ rows top →
      ¬ Favours key o final limit P₂ Q₂ rows top := by
  have hiff (x : α) : final.le c x ↔ final.le d x :=
    ⟨final.trans _ _ _ hdc, final.trans _ _ _ hcd⟩
  have hcount' : keysAhead key o final rows d < limit := by
    simpa only [keysAhead, hiff] using hcount
  -- prefer the two rivals, and of every other group a row behind them
  let P : α → Bool := fun e => e = c ∨ e = d ∨ (key e ≠ key c ∧ key e ≠ key d ∧ final.le c e)
  have hP (e : α) : P e ↔ e = c ∨ e = d ∨ (key e ≠ key c ∧ key e ≠ key d ∧ final.le c e) :=
    decide_eq_true_iff
  have hbehind (e : α) (he : P e) : final.le c e := by
    rcases (hP e).mp he with rfl | rfl | ⟨-, -, hce⟩
    · exact final.refl e
    · exact hcd
    · exact hce
  have hsome (x : α) (hx : x ∈ firstRows key o rows) (hcx : final.le c x) :
      ∃ e ∈ firstRows key o rows, key e = key x ∧ P e := by
    by_cases hxc : key x = key c
    · exact ⟨c, hc, hxc.symm, (hP c).mpr (.inl rfl)⟩
    · by_cases hxd : key x = key d
      · exact ⟨d, hd, hxd.symm, (hP d).mpr (.inr (.inl rfl))⟩
      · exact ⟨x, hx, rfl, (hP x).mpr (.inr (.inr ⟨hxc, hxd, hcx⟩))⟩
  refine ⟨P, fun e => e = c, P, fun e => e = d, fun top h₁ h₂ => ?_⟩
  have hctop : c ∈ top := by
    refine h₁.mem hc hcount ((hP c).mpr (.inl rfl)) (fun e he hk => ?_) hbehind hsome
      (fun e => by simp)
    rcases (hP e).mp he with rfl | rfl | ⟨hk', -, -⟩
    · rfl
    · exact absurd hk hkey
    · exact absurd hk hk'
  have hdtop : d ∈ top := by
    refine h₂.mem hd hcount' ((hP d).mpr (.inr (.inl rfl))) (fun e he hk => ?_)
      (fun e he => (hiff e).mp (hbehind e he)) (fun x hx hdx => hsome x hx ((hiff x).mpr hdx))
      (fun e => by simp)
    rcases (hP e).mp he with rfl | rfl | ⟨-, hk', -⟩
    · exact absurd hk.symm hkey
    · rfl
    · exact absurd hk hk'
  refine not_both_first h₁.pairwise h₂.pairwise hctop hdtop hne (fun hle => ?_) (fun hle => ?_)
  · have hdpref := (Order.preferring_le (P := fun e => decide (e = c))).mp (hle.2 hcd)
    exact hne (of_decide_eq_true (hdpref (decide_eq_true rfl)))
  · have hcpref := (Order.preferring_le (P := fun e => decide (e = d))).mp (hle.2 hdc)
    exact hne (of_decide_eq_true (hcpref (decide_eq_true rfl))).symm

/-- **Several selections**, when a row that can be selected has a rival. -/
theorem exists_selected_ne (h : ¬ Determined key o final limit rows) :
    ∃ P₁ Q₁ P₂ Q₂, ∀ top, Favours key o final limit P₁ Q₁ rows top →
      ¬ Favours key o final limit P₂ Q₂ rows top := by
  simp only [Determined, not_forall] at h
  obtain ⟨c, hc, hcount, d, hd, hne, hrival⟩ := h
  by_cases hkey : key d = key c
  · exact selected_ne_of_key hc hcount hd hne hkey
  · have htie : final.le c d ∧ final.le d c := by
      by_contra hno
      exact hrival ⟨hkey, hno⟩
    exact selected_ne_of_tie hc hcount hd hne hkey htie.1 htie.2

end Rivals

/-! ### What every selection shows -/

section Shown

variable {γ : Type} [DecidableEq γ]

variable (key o final limit) (attr : α → γ)

/-- The number of keys that have another attribute than `c` and a first row not after `c`. -/
def rivalKeys (rows : List α) (c : α) : Nat :=
  ((rows.map key).dedup.filter fun k =>
    ∃ d ∈ firstRows key o rows, key d = k ∧ attr d ≠ attr c ∧ final.le d c).length

/-- Each value of the attribute has a key each of whose first rows has fewer than `limit` rivals. -/
def Shown (rows : List α) : Prop :=
  ∀ a ∈ rows, ∃ b ∈ rows, attr b = attr a
    ∧ ∀ c ∈ firstRows key o rows, key c = key b → rivalKeys key o final attr rows c < limit

variable {key o final limit attr}

theorem shown_congr {o' : Order α} (hrows : firstRows key o rows = firstRows key o' rows) :
    Shown key o final limit attr rows ↔ Shown key o' final limit attr rows := by
  simp only [Shown, rivalKeys, hrows]

/-- **Every selection shows every value**, when each value has a key without too many rivals. -/
theorem Selected.shows (hattr : ∀ a b, key a = key b → attr a = attr b)
    (hshown : Shown key o final limit attr rows) (h : Selected key o final limit rows top) {a : α}
    (ha : a ∈ rows) : ∃ t ∈ top, attr t = attr a := by
  obtain ⟨b, hb, hba, hfew⟩ := hshown a ha
  have hnodup := h.nodup_keys
  have hfirst (t : α) (ht : t ∈ top) : t ∈ firstRows key o rows := h.first ht
  obtain ⟨picked, hpicked, htop⟩ := h
  obtain ⟨c, hc, hcb⟩ := hpicked.covers b hb
  have hca : attr c = attr a := (hattr c b hcb).trans hba
  by_contra hnone
  simp only [not_exists, not_and] at hnone
  -- all `limit` rows that are taken have another attribute and are rivals of `c`
  obtain ⟨hlength, hle⟩ := htop.of_not_mem hc fun hctop => hnone c hctop hca
  have hsubset : top.map key ⊆ (rows.map key).dedup.filter fun k =>
      ∃ d ∈ firstRows key o rows, key d = k ∧ attr d ≠ attr c ∧ final.le d c := by
    intro k hk
    obtain ⟨t, ht, rfl⟩ := List.mem_map.mp hk
    have htfirst := hfirst t ht
    refine List.mem_filter.mpr ⟨List.mem_dedup.mpr (List.mem_map_of_mem
      (mem_firstRows.mp htfirst).1), decide_eq_true ⟨t, htfirst, rfl, fun hne => ?_, hle t ht⟩⟩
    exact hnone t ht (hne.trans hca)
  have hmany := length_le_of_subset hnodup hsubset
  rw [List.length_map, hlength] at hmany
  exact absurd (hfew c (hpicked.first c hc) hcb) (not_lt.mpr hmany)

/-- Of each rival key a rival is picked, where the picked row is early if any first row is. -/
theorem rivalKeys_le_picked (hattr : ∀ a b, key a = key b → attr a = attr b) {picked : List α}
    {c : α} (hpicked : FirstOfEach key o rows picked)
    (hearly : ∀ b ∈ picked, ∀ d ∈ firstRows key o rows, key d = key b → attr d ≠ attr c →
      final.le d c → final.le b c) :
    rivalKeys key o final attr rows c
      ≤ (picked.filter fun b => attr b ≠ attr c ∧ final.le b c).length := by
  rw [rivalKeys, ← List.length_map (f := key)]
  refine length_le_of_subset ((List.nodup_dedup _).filter _) fun k hk => ?_
  obtain ⟨-, hrival⟩ := List.mem_filter.mp hk
  obtain ⟨d, hd, hkey, hda, hdc⟩ := of_decide_eq_true hrival
  obtain ⟨b, hb, hbkey⟩ := hpicked.covers d (mem_firstRows.mp hd).1
  have hbc : attr b ≠ attr c := fun hbc => hda ((hattr d b hbkey.symm).trans hbc)
  have hle : final.le b c := hearly b hb d hd hbkey.symm hda hdc
  exact List.mem_map.mpr
    ⟨b, List.mem_filter.mpr ⟨hb, decide_eq_true ⟨hbc, hle⟩⟩, hbkey.trans hkey⟩

/-- **A selection that hides a value**, when each of its keys has a first row with too many
    rivals. -/
theorem exists_selected_hiding (hattr : ∀ a b, key a = key b → attr a = attr b)
    (h : ¬ Shown key o final limit attr rows) :
    ∃ a ∈ rows, ∃ P Q, ∀ top, Favours key o final limit P Q rows top →
      ∀ t ∈ top, attr t ≠ attr a := by
  simp only [Shown, not_forall, not_exists, not_and, not_lt] at h
  obtain ⟨a, ha, hmany⟩ := h
  let crowded := (firstRows key o rows).filter fun c =>
    attr c = attr a ∧ limit ≤ rivalKeys key o final attr rows c
  have hcrowded (c : α) : c ∈ crowded ↔ c ∈ firstRows key o rows ∧ attr c = attr a
      ∧ limit ≤ rivalKeys key o final attr rows c := by simp [crowded]
  have hkeys (b : α) (hb : b ∈ rows) (hba : attr b = attr a) : ∃ c ∈ crowded, key c = key b := by
    obtain ⟨c, hc, hkey, hle⟩ := hmany b hb hba
    exact ⟨c, (hcrowded c).mpr ⟨hc, (hattr c b hkey).trans hba, hle⟩, hkey⟩
  -- the earliest of the crowded rows has too many rivals, and they are rivals of all of them
  obtain ⟨c, hc, hleast⟩ := @Order.exists_least _ final crowded (by
    obtain ⟨c, hc, -⟩ := hkeys a ha rfl
    exact List.ne_nil_of_mem hc)
  obtain ⟨-, hca, hrivals⟩ := (hcrowded c).mp hc
  -- prefer the crowded rows of the value, and of the other groups the rivals of the earliest
  let P : α → Bool := fun e => (attr e = attr a ∧ limit ≤ rivalKeys key o final attr rows e)
    ∨ (attr e ≠ attr a ∧ final.le e c)
  have hP (e : α) : P e ↔ (attr e = attr a ∧ limit ≤ rivalKeys key o final attr rows e)
      ∨ (attr e ≠ attr a ∧ final.le e c) := decide_eq_true_iff
  refine ⟨a, ha, P, fun e => attr e ≠ attr a, ?_⟩
  rintro top ⟨met, found, hmet, hmetP, hfound, hfoundQ, rfl⟩ t ht hta
  have hpicked : FirstOfEach key o rows (distinctOn key (o.sort met)) :=
    firstOfEach_distinctOn hmet
  have hpreferred {x b : α} (hx : x ∈ distinctOn key (o.sort met)) (hb : b ∈ firstRows key o rows)
      (hkey : key b = key x) (hPb : P b) : P x :=
    preferred_of_mem_distinctOn hmet hmetP hx hb hkey hPb
  have hperm : (final.sort found).Perm (distinctOn key (o.sort met)) :=
    (final.perm_sort _).trans hfound
  have htpick := hperm.mem_iff.mp (List.mem_of_mem_take ht)
  have hct : final.le c t := by
    obtain ⟨e, he, hkey⟩ := hkeys t (hpicked.mem htpick) hta
    obtain ⟨hefirst, hea, hecount⟩ := (hcrowded e).mp he
    rcases (hP t).mp (hpreferred htpick hefirst hkey ((hP e).mpr (.inl ⟨hea, hecount⟩)))
      with ⟨-, hcount⟩ | ⟨hne, -⟩
    · exact hleast t ((hcrowded t).mpr ⟨hpicked.first t htpick, hta, hcount⟩)
    · exact absurd hta hne
  refine not_mem_take_of_count (P := fun b => attr b ≠ attr a ∧ final.le b c)
    (final.pairwise_sort_thenBy _ hfoundQ) (fun h => h.1 hta) (fun b hb hPb hle => ?_) ?_ ht
  · have hbt : final.le b t := final.trans _ _ _ hPb.2 hct
    have hpref := Order.preferring_le.mp (hle.2 hbt) (decide_eq_true hPb.1)
    exact of_decide_eq_true hpref hta
  · rw [(hperm.filter _).length_eq, ← hca]
    refine hrivals.trans (rivalKeys_le_picked hattr hpicked fun b hb d hd hkey hda hdc => ?_)
    rw [hca] at hda
    -- the picked row of a rival's key is preferred as the rival is, and cannot be crowded
    have hba : attr b ≠ attr a := fun hba => hda ((hattr d b hkey).trans hba)
    have hPb : P b := hpreferred hb hd hkey ((hP d).mpr (.inr ⟨hda, hdc⟩))
    exact (((hP b).mp hPb).resolve_left fun h => hba h.1).2

end Shown

end Selected

/-! ## Selections of rows since some time -/

section Since

variable {α κ τ : Type} [DecidableEq κ] [LinearOrder τ] {key : α → κ} {time : α → τ}
  {rows narrow wide : List α}

/-- The newest of the rows since some time are the newest rows that are not older. -/
theorem mem_firstRows_since {since : τ} {a : α} :
    a ∈ firstRows key (Order.desc time) (rows.filter fun a => since ≤ time a)
      ↔ a ∈ firstRows key (Order.desc time) rows ∧ since ≤ time a := by
  rw [mem_firstRows, mem_firstRows, List.mem_filter, decide_eq_true_iff]
  constructor
  · rintro ⟨⟨ha, hsince⟩, hfirst⟩
    refine ⟨⟨ha, fun b hb hkey => ?_⟩, hsince⟩
    by_cases hbsince : since ≤ time b
    · exact hfirst b (List.mem_filter.mpr ⟨hb, decide_eq_true hbsince⟩) hkey
    · exact (lt_of_not_ge hbsince).le.trans hsince
  · rintro ⟨⟨ha, hfirst⟩, hsince⟩
    exact ⟨⟨ha, hsince⟩, fun b hb hkey => hfirst b (List.mem_filter.mp hb).1 hkey⟩

/-- **The crux**: of rows since some time the newest of each key are those of all rows, where these
    are not older. -/
theorem FirstOfEach.since {since : τ} (h : FirstOfEach key (Order.desc time) rows wide) :
    FirstOfEach key (Order.desc time) (rows.filter fun a => since ≤ time a)
      (wide.filter fun a => since ≤ time a) where
  distinct := h.distinct.sublist (List.filter_sublist.map key)
  first a ha := by
    obtain ⟨hwide, hsince⟩ := List.mem_filter.mp ha
    exact mem_firstRows_since.mpr ⟨h.first a hwide, of_decide_eq_true hsince⟩
  covers a ha := by
    obtain ⟨hrows, hsince⟩ := List.mem_filter.mp ha
    obtain ⟨b, hb, hkey⟩ := h.covers a hrows
    -- what is picked of the key is as new as the row, so it is inside too
    have hnewer : time a ≤ time b := (mem_firstRows.mp (h.first b hb)).2 a hrows hkey.symm
    have hbsince : since ≤ time b := (of_decide_eq_true hsince).trans hnewer
    exact ⟨b, List.mem_filter.mpr ⟨hb, decide_eq_true hbsince⟩, hkey⟩

/-- Two choices of newest rows agree on keys and times. -/
theorem FirstOfEach.perm_times (h : FirstOfEach key (Order.desc time) rows narrow)
    (h' : FirstOfEach key (Order.desc time) rows wide) :
    (narrow.map fun a => (key a, time a)).Perm (wide.map fun a => (key a, time a)) := by
  have hmem {as bs : List α} (has : FirstOfEach key (Order.desc time) rows as)
      (hbs : FirstOfEach key (Order.desc time) rows bs) {e : κ × τ}
      (he : e ∈ as.map fun a => (key a, time a)) : e ∈ bs.map fun a => (key a, time a) := by
    obtain ⟨a, ha, rfl⟩ := List.mem_map.mp he
    obtain ⟨b, hb, hkey⟩ := hbs.covers a (has.mem ha)
    have hab := (mem_firstRows.mp (has.first a ha)).2 b (hbs.mem hb) hkey
    have hba := (mem_firstRows.mp (hbs.first b hb)).2 a (has.mem ha) hkey.symm
    exact List.mem_map.mpr ⟨b, hb, Prod.ext hkey (le_antisymm hab hba)⟩
  have hnodup {as : List α} (has : FirstOfEach key (Order.desc time) rows as) :
      (as.map fun a => (key a, time a)).Nodup :=
    List.Nodup.of_map Prod.fst (by rw [List.map_map]; exact has.distinct)
  exact (List.perm_ext_iff_of_nodup (hnodup h) (hnodup h')).mpr fun _ => ⟨hmem h h', hmem h' h⟩

/-- Where no first row has a rival there is one choice, up to its order. -/
theorem FirstOfEach.perm_of_alone {o : Order α} (h : FirstOfEach key o rows narrow)
    (h' : FirstOfEach key o rows wide)
    (halone : ∀ a ∈ firstRows key o rows, ∀ b ∈ firstRows key o rows, key b = key a → b = a) :
    narrow.Perm wide :=
  (List.perm_ext_iff_of_nodup h.nodup h'.nodup).mpr fun a =>
    ⟨fun ha => h'.mem_of_alone (h.first a ha) (halone a (h.first a ha)),
      fun ha => h.mem_of_alone (h'.first a ha) (halone a (h'.first a ha))⟩

/-- A selection shorter than its limit leaves nothing out. -/
theorem Selected.keys_le {o final : Order α} {limit : Nat} {top : List α}
    (h : Selected key o final limit rows top) (hshort : top.length < limit) :
    (rows.map key).dedup.length ≤ limit := by
  obtain ⟨picked, hpicked, htop⟩ := h
  have hlength := htop.length
  rw [hpicked.length_eq] at hlength
  omega

/-- Fewer rows have no more keys. -/
theorem keys_length_le (key : α → κ) {fewer rows : List α} (h : fewer ⊆ rows) :
    (fewer.map key).dedup.length ≤ (rows.map key).dedup.length :=
  length_le_of_subset (List.nodup_dedup _) fun _ hk =>
    List.mem_dedup.mpr (List.map_subset key h (List.mem_dedup.mp hk))

/-- The first row of a selection comes before what is picked. -/
theorem TopRows.head_le {o : Order α} {limit : Nat} {c a : α} {picked top : List α}
    (h : TopRows o limit picked (c :: top)) (ha : a ∈ picked) : o.le c a := by
  obtain ⟨omitted, hperm, hafter⟩ := h.omitted
  rcases List.mem_append.mp (hperm.mem_iff.mp ha) with hin | hout
  · rcases List.mem_cons.mp hin with rfl | hin
    · exact o.refl a
    · exact List.rel_of_pairwise_cons h.sorted hin
  · exact hafter c List.mem_cons_self a hout

/-- The first row of a selection comes before some first row of each key. -/
theorem Selected.head_le {o final : Order α} {limit : Nat} {c : α} {top : List α}
    (h : Selected key o final limit rows (c :: top)) {a : α} (ha : a ∈ rows) :
    ∃ b ∈ firstRows key o rows, key b = key a ∧ final.le c b := by
  obtain ⟨picked, hpicked, htop⟩ := h
  obtain ⟨b, hb, hkey⟩ := hpicked.covers a ha
  exact ⟨b, hpicked.first b hb, hkey, htop.head_le hb⟩

/-- If a first row of its key is preferred, the first row of a selection comes before a preferred
    one. -/
theorem Favours.head_le {o final : Order α} {limit : Nat} {P Q : α → Bool} {c : α} {top : List α}
    (h : Favours key o final limit P Q rows (c :: top)) {d : α} (hd : d ∈ firstRows key o rows)
    (hP : P d) : ∃ b, P b ∧ final.le c b := by
  obtain ⟨met, found, hmet, hmetP, hfound, -, htop⟩ := h
  have hpicked : FirstOfEach key o rows (distinctOn key (o.sort met)) := firstOfEach_distinctOn hmet
  obtain ⟨b, hb, hkey⟩ := hpicked.covers d (mem_firstRows.mp hd).1
  have hfirst : TopRows final limit (distinctOn key (o.sort met)) (c :: top) := by
    rw [htop]
    exact topRows_take final limit hfound
  exact ⟨b, preferred_of_mem_distinctOn hmet hmetP hb hd hkey.symm hP, hfirst.head_le hb⟩

end Since

/-! ## Two rankings -/

section Rankings

variable {α κ β : Type} [LinearOrder β] {name : α → κ} {cost : α → β}
  {ranked ranked' : List α}

/-- What costs less than the `i`-th is ahead of it. -/
theorem mem_take_of_lt (hsorted : ranked'.Pairwise fun a b => cost a ≤ cost b) {i : Nat} {e : α}
    (hi : i < ranked'.length) (he : e ∈ ranked') (hlt : cost e < cost ranked'[i]) :
    e ∈ ranked'.take i := by
  rw [← List.take_append_drop i ranked', List.drop_eq_getElem_cons hi] at he hsorted
  rcases List.mem_append.mp he with he | he
  · exact he
  · have hrest := List.pairwise_cons.mp (List.pairwise_append.mp hsorted).2.1
    rcases List.mem_cons.mp he with rfl | he
    · exact absurd hlt (lt_irrefl _)
    · exact absurd (hrest.1 e he) (not_le_of_gt hlt)

/-- **A ranking that got no dearer**: if all that was ranked is ranked at no more than it cost, or
    left out where nothing costs more, then every place costs no more than it did. -/
theorem getElem_cost_le (hsorted : ranked.Pairwise fun a b => cost a ≤ cost b)
    (hsorted' : ranked'.Pairwise fun a b => cost a ≤ cost b) (hnodup : (ranked.map name).Nodup)
    (hcheaper : ∀ e ∈ ranked, (∃ e' ∈ ranked', name e' = name e ∧ cost e' ≤ cost e)
      ∨ ∀ e' ∈ ranked', cost e' ≤ cost e) {i : Nat} (hi : i < ranked.length)
    (hi' : i < ranked'.length) : cost ranked'[i] ≤ cost ranked[i] := by
  by_contra hdearer
  have hdearer := lt_of_not_ge hdearer
  have hahead : ((ranked.take (i + 1)).map name) ⊆ (ranked'.take i).map name := by
    rintro k hk
    obtain ⟨e, he, rfl⟩ := List.mem_map.mp hk
    -- it costs no more than the `i`-th did
    have hle : cost e ≤ cost ranked[i] := by
      obtain ⟨j, hj, rfl⟩ := List.mem_iff_getElem.mp he
      rw [List.length_take] at hj
      rw [List.getElem_take]
      rcases Nat.lt_or_ge j i with hlt | hge
      · exact List.pairwise_iff_getElem.mp hsorted j i _ hi hlt
      · obtain rfl : j = i := by omega
        exact le_refl _
    rcases hcheaper e (List.mem_of_mem_take he) with ⟨e', he', hname, hcost⟩ | hall
    · rw [← hname]
      exact List.mem_map_of_mem
        (mem_take_of_lt hsorted' hi' he' (lt_of_le_of_lt (hcost.trans hle) hdearer))
    · exact absurd (hall _ (List.getElem_mem hi')) (not_le_of_gt (lt_of_le_of_lt hle hdearer))
  have hcount := length_le_of_subset (hnodup.sublist ((List.take_sublist _ _).map name)) hahead
  rw [List.length_map, List.length_map, List.length_take, List.length_take] at hcount
  omega

end Rankings

/-! ## Medians -/

/-- The continuous median: the middle value, or the mean of the two middle values. -/
def IsMedian (values : List ℚ) (m : ℚ) : Prop :=
  ∃ sorted : List ℚ, sorted.Perm values ∧ sorted.Pairwise (· ≤ ·)
    ∧ (values.length % 2 = 1 → sorted[values.length / 2]? = some m)
    ∧ (values.length % 2 = 0 → ∃ lo hi, sorted[values.length / 2 - 1]? = some lo
        ∧ sorted[values.length / 2]? = some hi ∧ m = (lo + hi) / 2)

end OrderBy
