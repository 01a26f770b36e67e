/-
  The proleptic Gregorian calendar, day numbers and back.

  A date is a triple `(year, month, day)`; its ORDINAL counts days with `0001-01-01` as day 1.
  `ymd2ord` adds up the days before the year, the days before the month and the day itself;
  `ord2ymd` runs the usual 400/100/4/1-year cycle division and then guesses the month from
  `(n + 50) / 32`, correcting the guess when it is one too high.

  The two facts every user of the module needs are at the end: `ord2ymd` always lands on a real
  date (`ord2ymd_valid`) and `ymd2ord` takes it back to the same ordinal (`ymd2ord_ord2ymd`).
-/
import Mathlib.Tactic.IntervalCases
import Mathlib.Data.Nat.Notation

namespace Calendar

/-! ## Years and months -/

/-- Gregorian leap years. -/
def isLeap (y : Nat) : Bool := y % 4 == 0 && (y % 100 != 0 || y % 400 == 0)

/-- Number of days before January 1st of year `y`. -/
def daysBeforeYear (y : Nat) : Nat := (y - 1) * 365 + (y - 1) / 4 - (y - 1) / 100 + (y - 1) / 400

/-- Days in a month of a common year (`0` outside `1..12`). -/
def commonDaysInMonth : Nat → Nat
  | 1 => 31 | 2 => 28 | 3 => 31 | 4 => 30 | 5 => 31 | 6 => 30
  | 7 => 31 | 8 => 31 | 9 => 30 | 10 => 31 | 11 => 30 | 12 => 31
  | _ => 0

/-- Days before a month of a common year (`0` outside `1..12`). -/
def commonDaysBeforeMonth : Nat → Nat
  | 1 => 0 | 2 => 31 | 3 => 59 | 4 => 90 | 5 => 120 | 6 => 151
  | 7 => 181 | 8 => 212 | 9 => 243 | 10 => 273 | 11 => 304 | 12 => 334
  | _ => 0

/-- Days in month `m`, given whether February has 29 days. -/
def monthLength (leap : Bool) (m : Nat) : Nat :=
  commonDaysInMonth m + if m = 2 ∧ leap = true then 1 else 0

/-- Days before month `m`, given whether February has 29 days. -/
def preceding (leap : Bool) (m : Nat) : Nat :=
  commonDaysBeforeMonth m + if 2 < m ∧ leap = true then 1 else 0

/-- Days in month `m` of year `y`. -/
def daysInMonth (y m : Nat) : Nat := monthLength (isLeap y) m

/-! ## Ordinals -/

/-- The ordinal of a date, with `0001-01-01` as day 1. -/
def ymd2ord (y m d : Nat) : Nat := daysBeforeYear y + preceding (isLeap y) m + d

/-- Position inside a year: the month guessed from the zero-based day number `n`, corrected when
    `n` comes before it, and the day inside that month. -/
def splitYearDay (leap : Bool) (n : Nat) : Nat × Nat :=
  let month := (n + 50) / 32
  if n < preceding leap month then (month - 1, n - preceding leap (month - 1) + 1)
  else (month, n - preceding leap month + 1)

/-- The date of an ordinal. -/
def ord2ymd (ordinal : Nat) : Nat × Nat × Nat :=
  let n := ordinal - 1
  let n400 := n / 146097
  let r400 := n % 146097
  let n100 := r400 / 36524
  let r100 := r400 % 36524
  let n4 := r100 / 1461
  let r4 := r100 % 1461
  let n1 := r4 / 365
  let r1 := r4 % 365
  let year := n400 * 400 + 1 + n100 * 100 + n4 * 4 + n1
  -- The last day of a 4-year or 400-year cycle overflows the division by 365 or 36524.
  if n1 = 4 ∨ n100 = 4 then (year - 1, 12, 31)
  else
    let md := splitYearDay (n1 == 3 && (n4 != 24 || n100 == 3)) r1
    (year, md.1, md.2)

/-! ## Round trip -/

/-- The guess never falls short: month `m` starts at most one day after `32 m - 51` and the next
    one starts after every day number that guesses `m`. -/
theorem month_guess (leap : Bool) (n m : Nat) (hn : n < 365 + if leap then 1 else 0)
    (hm : m = (n + 50) / 32) :
    1 ≤ m ∧ m ≤ 12 ∧ n < preceding leap m + monthLength leap m
      ∧ (n < preceding leap m → 2 ≤ m ∧ preceding leap (m - 1) ≤ n
          ∧ preceding leap (m - 1) + monthLength leap (m - 1) = preceding leap m) := by
  have hm1 : 1 ≤ m := by omega
  have hm12 : m ≤ 12 := by split at hn <;> omega
  interval_cases m <;> cases leap <;>
    simp [preceding, monthLength, commonDaysBeforeMonth, commonDaysInMonth] at hn ⊢ <;> omega

/-- The split is a real month and day, and adding the days before the month gives the day number
    back. -/
theorem splitYearDay_spec (leap : Bool) (n : Nat) (hn : n < 365 + if leap then 1 else 0) :
    1 ≤ (splitYearDay leap n).1 ∧ (splitYearDay leap n).1 ≤ 12 ∧ 1 ≤ (splitYearDay leap n).2
      ∧ (splitYearDay leap n).2 ≤ monthLength leap (splitYearDay leap n).1
      ∧ preceding leap (splitYearDay leap n).1 + (splitYearDay leap n).2 = n + 1 := by
  obtain ⟨h1, h12, hnext, hprev⟩ := month_guess leap n _ hn rfl
  unfold splitYearDay
  by_cases hlt : n < preceding leap ((n + 50) / 32)
  · obtain ⟨h2, hle, heq⟩ := hprev hlt
    rw [if_pos hlt]
    dsimp only
    exact ⟨by omega, by omega, by omega, by omega, by omega⟩
  · rw [if_neg hlt]
    dsimp only
    exact ⟨h1, h12, by omega, by omega, by omega⟩

/-- Leap years in the cycle coordinates `ord2ymd` computes: the last year of a 4-year group,
    unless it closes a century that does not close a 400-year cycle. -/
theorem isLeap_cycle (n400 n100 n4 n1 : Nat) (h100 : n100 < 4) (h4 : n4 < 25) (h1 : n1 < 4) :
    isLeap (n400 * 400 + 1 + n100 * 100 + n4 * 4 + n1)
      = (n1 == 3 && (n4 != 24 || n100 == 3)) := by
  rw [Bool.eq_iff_iff]
  simp only [isLeap, Bool.and_eq_true, Bool.or_eq_true, beq_iff_eq, bne_iff_ne, ne_eq]
  omega

/-- Days before a year in cycle coordinates. -/
theorem daysBeforeYear_cycle (n400 n100 n4 n1 : Nat) (h100 : n100 < 4) (h4 : n4 < 25)
    (h1 : n1 < 4) :
    daysBeforeYear (n400 * 400 + 1 + n100 * 100 + n4 * 4 + n1)
      = n400 * 146097 + n100 * 36524 + n4 * 1461 + n1 * 365 := by
  unfold daysBeforeYear
  omega

/-- What `ord2ymd` returns: a real date whose ordinal is the one we started from. -/
theorem ord2ymd_spec (ordinal : Nat) (h : 1 ≤ ordinal) :
    let ymd := ord2ymd ordinal
    1 ≤ ymd.1 ∧ 1 ≤ ymd.2.1 ∧ ymd.2.1 ≤ 12 ∧ 1 ≤ ymd.2.2
      ∧ ymd.2.2 ≤ daysInMonth ymd.1 ymd.2.1 ∧ ymd2ord ymd.1 ymd.2.1 ymd.2.2 = ordinal := by
  -- the quotients are named, so that the arithmetic below is linear in them
  obtain ⟨a, ha⟩ : ∃ a, a = (ordinal - 1) / 146097 := ⟨_, rfl⟩
  obtain ⟨ra, hra⟩ : ∃ ra, ra = (ordinal - 1) % 146097 := ⟨_, rfl⟩
  obtain ⟨b, hb⟩ : ∃ b, b = ra / 36524 := ⟨_, rfl⟩
  obtain ⟨rb, hrb⟩ : ∃ rb, rb = ra % 36524 := ⟨_, rfl⟩
  obtain ⟨c, hc⟩ : ∃ c, c = rb / 1461 := ⟨_, rfl⟩
  obtain ⟨rc, hrc⟩ : ∃ rc, rc = rb % 1461 := ⟨_, rfl⟩
  obtain ⟨e, he⟩ : ∃ e, e = rc / 365 := ⟨_, rfl⟩
  obtain ⟨re, hre⟩ : ∃ re, re = rc % 365 := ⟨_, rfl⟩
  have hc25 : c < 25 := by omega
  simp only [ord2ymd, ← ha, ← hra, ← hb, ← hrb, ← hc, ← hrc, ← he, ← hre]
  split
  · -- December 31st of a leap year that closes its cycle
    rename_i hcase
    rcases hcase with he4 | hb4
    · have hb3 : b < 4 := by omega
      have hyear : a * 400 + 1 + b * 100 + c * 4 + e - 1 = a * 400 + 1 + b * 100 + c * 4 + 3 := by
        omega
      have hleap := isLeap_cycle a b c 3 hb3 hc25 (by omega)
      have hday := daysBeforeYear_cycle a b c 3 hb3 hc25 (by omega)
      have hl : (c != 24 || b == 3) = true := by
        simp only [Bool.or_eq_true, bne_iff_ne, ne_eq, beq_iff_eq]; omega
      simp only [hyear, ymd2ord, daysInMonth, hday, hleap, hl]
      simp [preceding, monthLength, commonDaysBeforeMonth, commonDaysInMonth]
      omega
    · have hc0 : c = 0 := by omega
      have he0 : e = 0 := by omega
      have hyear : a * 400 + 1 + b * 100 + c * 4 + e - 1 = a * 400 + 1 + 3 * 100 + 24 * 4 + 3 := by
        omega
      have hleap := isLeap_cycle a 3 24 3 (by omega) (by omega) (by omega)
      have hday := daysBeforeYear_cycle a 3 24 3 (by omega) (by omega) (by omega)
      simp only [hyear, ymd2ord, daysInMonth, hday, hleap]
      simp [preceding, monthLength, commonDaysBeforeMonth, commonDaysInMonth]
      omega
  · -- any other day: split the position inside the year
    rename_i hcase
    have hb3 : b < 4 := by omega
    have he3 : e < 4 := by omega
    have hleap := isLeap_cycle a b c e hb3 hc25 he3
    have hday := daysBeforeYear_cycle a b c e hb3 hc25 he3
    have hsplit := splitYearDay_spec (e == 3 && (c != 24 || b == 3)) re (by split <;> omega)
    simp only [ymd2ord, daysInMonth, hday, hleap]
    obtain ⟨h1, h2, h3, h4, h5⟩ := hsplit
    exact ⟨by omega, h1, h2, h3, h4, by omega⟩

/-- `ord2ymd` lands on a real date. -/
theorem ord2ymd_valid (ordinal : Nat) (h : 1 ≤ ordinal) :
    1 ≤ (ord2ymd ordinal).1 ∧ 1 ≤ (ord2ymd ordinal).2.1 ∧ (ord2ymd ordinal).2.1 ≤ 12
      ∧ 1 ≤ (ord2ymd ordinal).2.2
      ∧ (ord2ymd ordinal).2.2 ≤ daysInMonth (ord2ymd ordinal).1 (ord2ymd ordinal).2.1 := by
  obtain ⟨h1, h2, h3, h4, h5, -⟩ := ord2ymd_spec ordinal h
  exact ⟨h1, h2, h3, h4, h5⟩

/-- **Round trip**: the date of an ordinal has that ordinal. -/
theorem ymd2ord_ord2ymd (ordinal : Nat) (h : 1 ≤ ordinal) :
    ymd2ord (ord2ymd ordinal).1 (ord2ymd ordinal).2.1 (ord2ymd ordinal).2.2 = ordinal :=
  (ord2ymd_spec ordinal h).2.2.2.2.2

/-- Ordinals of the years `1..9999` stay inside those years. -/
theorem ord2ymd_year_le (ordinal : Nat) (h : 1 ≤ ordinal) (hmax : ordinal ≤ 3652059) :
    (ord2ymd ordinal).1 ≤ 9999 := by
  by_contra hy
  have hord := ymd2ord_ord2ymd ordinal h
  have hday : 1 ≤ (ord2ymd ordinal).2.2 := (ord2ymd_valid ordinal h).2.2.2.1
  simp only [ymd2ord, daysBeforeYear] at hord
  omega

example : ord2ymd (ymd2ord 2024 2 29) = (2024, 2, 29) := by decide
example : ymd2ord 9999 12 31 = 3652059 := by decide

end Calendar
