/-
  Ordered selection over rows in no particular order.

  A query reads rows in whatever order the engine finds them, so everything it does between two
  sorts is up to a `Shuffle`: a rearrangement that neither adds nor loses rows.  A sort is stable
  on what it is given, so a shuffle in front of it stands for every way of breaking ties.

  `distinctOn` keeps the first row of each key, as `DISTINCT ON` does on sorted rows.
-/
import Mathlib.Data.List.Sort

namespace OrderBy

/-- A rearrangement of rows. -/
structure Shuffle (α : Type) where
  apply : List α → List α
  perm : ∀ rows, (apply rows).Perm rows

/-- Rows in the order they are stored in. -/
def Shuffle.stored (α : Type) : Shuffle α := ⟨id, fun _ => List.Perm.refl _⟩

instance (α : Type) : Inhabited (Shuffle α) := ⟨Shuffle.stored α⟩

section Shuffle

variable {α : Type} (f : Shuffle α)

@[simp] theorem Shuffle.mem_apply {rows : List α} {a : α} : a ∈ f.apply rows ↔ a ∈ rows :=
  (f.perm rows).mem_iff

@[simp] theorem Shuffle.apply_nil : f.apply [] = [] := (f.perm []).eq_nil

@[simp] theorem Shuffle.apply_singleton (a : α) : f.apply [a] = [a] :=
  List.perm_singleton.mp (f.perm [a])

@[simp] theorem Shuffle.apply_eq_nil {rows : List α} : f.apply rows = [] ↔ rows = [] :=
  ⟨fun h => (h ▸ f.perm rows).nil_eq.symm, fun h => by rw [h, f.apply_nil]⟩

end Shuffle

/-! ## First row of each key -/

section DistinctOn

variable {α κ : Type} [DecidableEq κ] (key : α → κ)

/-- The first row of each key. -/
def distinctOn : List α → List α
  | [] => []
  | a :: rows => a :: (distinctOn rows).filter fun b => key b ≠ key a

theorem mem_of_mem_distinctOn {rows : List α} {a : α} (h : a ∈ distinctOn key rows) : a ∈ rows := by
  induction rows with
  | nil => exact h
  | cons b rows ih =>
    rw [distinctOn, List.mem_cons, List.mem_filter] at h
    rcases h with rfl | ⟨h, -⟩
    · exact List.mem_cons_self
    · exact List.mem_cons_of_mem _ (ih h)

/-- Every key that occurs is kept. -/
theorem exists_mem_distinctOn {rows : List α} {a : α} (h : a ∈ rows) :
    ∃ b ∈ distinctOn key rows, key b = key a := by
  induction rows with
  | nil => exact absurd h List.not_mem_nil
  | cons c rows ih =>
    by_cases hc : key c = key a
    · exact ⟨c, List.mem_cons_self, hc⟩
    · rcases List.mem_cons.mp h with rfl | h
      · exact absurd rfl hc
      · obtain ⟨b, hb, hkey⟩ := ih h
        refine ⟨b, List.mem_cons_of_mem _ (List.mem_filter.mpr ⟨hb, ?_⟩), hkey⟩
        simpa [hkey] using Ne.symm hc

theorem distinctOn_eq_nil {rows : List α} : distinctOn key rows = [] ↔ rows = [] := by
  cases rows with
  | nil => exact Iff.rfl
  | cons a rows => simp [distinctOn]

end DistinctOn

/-! ## Sorting -/

/-- A sort order: a total preorder that can be decided. -/
structure Order (α : Type) where
  le : α → α → Prop
  dec : DecidableRel le
  total : ∀ a b, le a b ∨ le b a
  trans : ∀ a b c, le a b → le b c → le a c

namespace Order

variable {α κ : Type}

instance (o : Order α) : DecidableRel o.le := o.dec

/-- Smallest key first. -/
def asc [LinearOrder κ] (key : α → κ) : Order α where
  le a b := key a ≤ key b
  dec _ _ := inferInstance
  total _ _ := le_total _ _
  trans _ _ _ := le_trans

/-- Largest key first. -/
def desc [LinearOrder κ] (key : α → κ) : Order α where
  le a b := key b ≤ key a
  dec _ _ := inferInstance
  total _ _ := le_total _ _
  trans _ _ _ h₁ h₂ := le_trans h₂ h₁

/-- Order rows by a column. -/
def on (o : Order κ) (key : α → κ) : Order α where
  le a b := o.le (key a) (key b)
  dec a b := o.dec (key a) (key b)
  total _ _ := o.total _ _
  trans _ _ _ := o.trans _ _ _

/-- The second order decides where the first does not. -/
def thenBy (o p : Order α) : Order α where
  le a b := o.le a b ∧ (o.le b a → p.le a b)
  dec a b := inferInstanceAs (Decidable (o.le a b ∧ (o.le b a → p.le a b)))
  total a b := by
    rcases o.total a b with h | h <;> rcases p.total a b with h' | h'
    · exact .inl ⟨h, fun _ => h'⟩
    · by_cases hb : o.le b a
      · exact .inr ⟨hb, fun _ => h'⟩
      · exact .inl ⟨h, fun hb' => absurd hb' hb⟩
    · by_cases hb : o.le a b
      · exact .inl ⟨hb, fun _ => h'⟩
      · exact .inr ⟨h, fun hb' => absurd hb' hb⟩
    · exact .inr ⟨h, fun _ => h'⟩
  trans a b c h₁ h₂ := by
    refine ⟨o.trans _ _ _ h₁.1 h₂.1, fun hca => ?_⟩
    have hba : o.le b a := o.trans _ _ _ h₂.1 hca
    have hcb : o.le c b := o.trans _ _ _ hca h₁.1
    exact p.trans _ _ _ (h₁.2 hba) (h₂.2 hcb)

variable (o : Order α)

/-- Stable sort. -/
def sort (rows : List α) : List α := rows.insertionSort o.le

theorem perm_sort (rows : List α) : (o.sort rows).Perm rows := List.perm_insertionSort o.le rows

@[simp] theorem mem_sort {rows : List α} {a : α} : a ∈ o.sort rows ↔ a ∈ rows :=
  (o.perm_sort rows).mem_iff

theorem pairwise_sort (rows : List α) : (o.sort rows).Pairwise o.le := by
  have : Std.Total o.le := ⟨o.total⟩
  have : IsTrans α o.le := ⟨o.trans⟩
  exact List.pairwise_insertionSort o.le rows

@[simp] theorem sort_nil : o.sort [] = [] := rfl

@[simp] theorem sort_singleton (a : α) : o.sort [a] = [a] := rfl

@[simp] theorem sort_eq_nil {rows : List α} : o.sort rows = [] ↔ rows = [] :=
  ⟨fun h => (h ▸ o.perm_sort rows).nil_eq.symm, fun h => by rw [h, o.sort_nil]⟩

end Order

end OrderBy
