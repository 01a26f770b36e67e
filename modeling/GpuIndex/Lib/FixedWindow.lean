/-
  Counting in fixed windows.

  Time is cut into windows of one length, and an attempt is admitted while fewer than `limit`
  attempts came before it in its window (`Counts`).  What follows holds for any attempts with a
  time: a window admits at most `limit`, an interval as long as a window meets two windows and so
  admits at most twice that, and an attempt that comes a window's length after all others is
  admitted.

  Histories are lists, the latest attempt first.
-/
import Mathlib.Algebra.Order.Floor.Ring
import Mathlib.Algebra.Order.Floor.Semiring
import Mathlib.Data.Rat.Floor
import Mathlib.Tactic.Linarith
import Mathlib.Tactic.Positivity

namespace FixedWindow

/-! ## Windows -/

/-- The window of a time. -/
def index (width t : ℚ) : Int := ⌊t / width⌋

section Index

variable {width s t : ℚ}

theorem index_mono (hwidth : 0 < width) (h : s ≤ t) : index width s ≤ index width t :=
  Int.floor_le_floor (div_le_div_of_nonneg_right h hwidth.le)

/-- Two times of one window are less than its length apart. -/
theorem lt_add_of_index_eq (hwidth : 0 < width) (h : index width s = index width t) :
    t < s + width := by
  have hlow : (index width s : ℚ) ≤ s / width := Int.floor_le _
  have hhigh : t / width < index width t + 1 := Int.lt_floor_add_one _
  rw [← h] at hhigh
  have hlt : t / width < (s + width) / width := by
    rw [add_div, div_self hwidth.ne']
    linarith
  exact (div_lt_div_iff_of_pos_right hwidth).mp hlt

/-- A time that is a window's length later lies in a later window. -/
theorem index_lt_of_add_le (hwidth : 0 < width) (h : s + width ≤ t) :
    index width s < index width t := by
  refine lt_of_le_of_ne (index_mono hwidth (by linarith)) fun heq => ?_
  exact absurd (lt_add_of_index_eq hwidth heq) (not_lt.mpr h)

/-- An interval as long as a window meets the window it starts in and the next one. -/
theorem index_of_mem_interval (hwidth : 0 < width) (hs : s ≤ t) (ht : t < s + width) :
    index width t = index width s ∨ index width t = index width s + 1 := by
  have hlow := index_mono hwidth hs
  have hhigh : index width t ≤ index width s + 1 := by
    have hnext : index width (s + width) = index width s + 1 := by
      rw [index, add_div, div_self hwidth.ne', Int.floor_add_one, index]
    rw [← hnext]
    exact index_mono hwidth ht.le
  omega

end Index

/-! ## Histories -/

variable {α : Type} (width : ℚ) (limit : Int) (time : α → ℚ) (admitted : α → Bool)

/-- The attempts of a window. -/
def within (hist : List α) (k : Int) : List α := hist.filter fun a => index width (time a) = k

/-- Every attempt was admitted exactly if fewer than `limit` came before it in its window. -/
def Counts (hist : List α) : Prop :=
  ∀ later a earlier, hist = later ++ a :: earlier →
    (admitted a = true ↔ ((within width time earlier (index width (time a))).length : Int) < limit)

variable {width limit time admitted} {hist : List α}

theorem within_cons_of_eq {a : α} {k : Int} (h : index width (time a) = k) :
    within width time (a :: hist) k = a :: within width time hist k :=
  List.filter_cons_of_pos (decide_eq_true h)

theorem within_cons_of_ne {a : α} {k : Int} (h : index width (time a) ≠ k) :
    within width time (a :: hist) k = within width time hist k :=
  List.filter_cons_of_neg (by simpa using h)

theorem Counts.tail {a : α} (h : Counts width limit time admitted (a :: hist)) :
    Counts width limit time admitted hist :=
  fun later b earlier heq => h (a :: later) b earlier (by rw [heq]; rfl)

theorem counts_nil : Counts width limit time admitted [] :=
  fun later a earlier h =>
    absurd h.symm (List.append_ne_nil_of_right_ne_nil later (List.cons_ne_nil a earlier))

/-- One more attempt, decided by the attempts before it. -/
theorem Counts.cons (h : Counts width limit time admitted hist) {a : α}
    (hdecided : admitted a = true
      ↔ ((within width time hist (index width (time a))).length : Int) < limit) :
    Counts width limit time admitted (a :: hist) := by
  intro later b earlier heq
  cases later with
  | nil =>
    obtain ⟨rfl, rfl⟩ := List.cons.inj heq
    exact hdecided
  | cons c later => exact h later b earlier (List.cons.inj heq).2

/-- **One window**: of its attempts the first `limit` were admitted. -/
theorem Counts.window (hlimit : 0 ≤ limit) (h : Counts width limit time admitted hist) (k : Int) :
    (((within width time hist k).filter admitted).length : Int)
      = min limit (within width time hist k).length := by
  induction hist with
  | nil =>
    show (0 : Int) = min limit 0
    omega
  | cons a hist ih =>
    have hrest := ih h.tail
    have hhead := h [] a hist rfl
    by_cases hk : index width (time a) = k
    · rw [hk] at hhead
      rw [within_cons_of_eq hk, List.filter_cons]
      split
      · rename_i hadmitted
        have hroom := hhead.mp hadmitted
        rw [List.length_cons, List.length_cons]
        push_cast
        omega
      · rename_i hrefused
        have hfull : ¬ ((within width time hist k).length : Int) < limit :=
          fun hroom => hrefused (hhead.mpr hroom)
        rw [List.length_cons]
        push_cast
        omega
    · rw [within_cons_of_ne hk]
      exact hrest

theorem Counts.window_le (hlimit : 0 ≤ limit)
    (h : Counts width limit time admitted hist) (k : Int) :
    (((within width time hist k).filter admitted).length : Int) ≤ limit := by
  rw [h.window hlimit k]
  exact min_le_left _ _

/-- **Any interval**: as long as a window, it admits at most twice the limit. -/
theorem Counts.interval_le (hwidth : 0 < width) (hlimit : 0 ≤ limit)
    (h : Counts width limit time admitted hist) (start : ℚ) :
    ((hist.filter fun a => admitted a ∧ start ≤ time a ∧ time a < start + width).length : Int)
      ≤ 2 * limit := by
  have hsplit (l : List α) :
      (l.filter fun a => admitted a ∧ start ≤ time a ∧ time a < start + width).length
        ≤ ((within width time l (index width start)).filter admitted).length
          + ((within width time l (index width start + 1)).filter admitted).length := by
    induction l with
    | nil => exact le_refl 0
    | cons a l ih =>
      have hgrows (k : Int) : ((within width time l k).filter admitted).length
          ≤ ((within width time (a :: l) k).filter admitted).length :=
        (((List.sublist_cons_self a l).filter _).filter _).length_le
      have hfirst := hgrows (index width start)
      have hsecond := hgrows (index width start + 1)
      rw [List.filter_cons]
      split
      · rename_i hin
        obtain ⟨hadmitted, hs, ht⟩ := of_decide_eq_true hin
        rw [List.length_cons]
        rcases index_of_mem_interval hwidth hs ht with hk | hk
        · rw [within_cons_of_eq hk, List.filter_cons_of_pos hadmitted, List.length_cons]
          omega
        · rw [within_cons_of_eq hk, List.filter_cons_of_pos hadmitted, List.length_cons]
          omega
      · omega
  have hfirst := h.window_le hlimit (index width start)
  have hsecond := h.window_le hlimit (index width start + 1)
  have := hsplit hist
  omega

/-- **After a pause**: an attempt a window's length after the latest one is admitted. -/
theorem Counts.after_pause (hwidth : 0 < width) (hlimit : 1 ≤ limit) {later earlier : List α}
    {next last : α} (h : Counts width limit time admitted hist)
    (hhist : hist = later ++ next :: last :: earlier)
    (hordered : hist.Pairwise fun a b => time b ≤ time a) (hpause : time last + width ≤ time next) :
    admitted next = true := by
  refine (h later next (last :: earlier) hhist).mpr ?_
  have hnone : within width time (last :: earlier) (index width (time next)) = [] := by
    rw [within, List.filter_eq_nil_iff]
    intro b hb
    have hlast : time b ≤ time last := by
      rw [hhist, List.pairwise_append] at hordered
      have htail := (List.pairwise_cons.mp (List.pairwise_cons.mp hordered.2.1).2).1
      rcases List.mem_cons.mp hb with rfl | hb
      · exact le_rfl
      · exact htail b hb
    have hlt := index_lt_of_add_le hwidth (s := time b) (t := time next) (by linarith)
    simp only [decide_eq_true_eq]
    omega
  rw [hnone]
  show (0 : Int) < limit
  omega

end FixedWindow
