/-
  Date-times with an optional UTC offset, and the instants they denote.

  `Civil` is a wall-clock reading (year 1 to 9999, microsecond resolution) that carries the proof
  that its fields are in range, so no later function re-checks them.  `Datetime` adds the optional
  offset, `none` meaning a naive reading.  An `Instant` counts microseconds from
  `0001-01-01T00:00:00` UTC; `Datetime.toInstant?` subtracts the offset and fails when the result
  leaves the representable years, `utc` reads an instant back as fields with offset zero.
-/
import GpuIndex.Lib.Calendar
import Mathlib.Order.Basic

namespace Calendar

/-! ## Wall-clock readings -/

/-- The range of each field of a wall-clock reading. -/
def ValidCivil (year month day hour minute second micro : Nat) : Prop :=
  1 ≤ year ∧ year ≤ 9999 ∧ 1 ≤ month ∧ month ≤ 12 ∧ 1 ≤ day ∧ day ≤ daysInMonth year month
    ∧ hour < 24 ∧ minute < 60 ∧ second < 60 ∧ micro < 1000000

instance (year month day hour minute second micro : Nat) :
    Decidable (ValidCivil year month day hour minute second micro) :=
  inferInstanceAs (Decidable (_ ∧ _))

/-- A wall-clock reading with all fields in range. -/
structure Civil where
  year : Nat
  month : Nat
  day : Nat
  hour : Nat
  minute : Nat
  second : Nat
  micro : Nat
  valid : ValidCivil year month day hour minute second micro
  deriving DecidableEq

/-- Microseconds in a day. -/
def dayMicros : Nat := 86400000000

/-- One past the last representable microsecond, the end of year 9999. -/
def maxMicros : Nat := 3652059 * dayMicros

/-- Microseconds inside the day. -/
def clockMicros (hour minute second micro : Nat) : Nat :=
  ((hour * 60 + minute) * 60 + second) * 1000000 + micro

/-- Microseconds from `0001-01-01T00:00:00` to the reading. -/
def Civil.micros (c : Civil) : Nat :=
  (ymd2ord c.year c.month c.day - 1) * dayMicros + clockMicros c.hour c.minute c.second c.micro

/-! ## Offsets and date-times -/

/-- A UTC offset in microseconds, strictly between minus and plus 24 hours. -/
structure Offset where
  us : Int
  range : -86400000000 < us ∧ us < 86400000000
  deriving DecidableEq

/-- UTC itself. -/
def Offset.zero : Offset := ⟨0, by decide⟩

/-- A wall-clock reading with its UTC offset; `none` is a naive reading. -/
structure Datetime where
  civil : Civil
  offset : Option Offset
  deriving DecidableEq

/-! ## Instants -/

/-- A point in time, in microseconds from `0001-01-01T00:00:00` UTC to the end of year 9999. -/
structure Instant where
  us : Nat
  lt_max : us < maxMicros
  deriving DecidableEq

theorem Instant.us_injective : Function.Injective Instant.us := by
  rintro ⟨a, ha⟩ ⟨b, hb⟩ rfl
  rfl

instance : LinearOrder Instant := LinearOrder.lift' Instant.us Instant.us_injective

theorem Instant.le_iff {a b : Instant} : a ≤ b ↔ a.us ≤ b.us := Iff.rfl

/-- The wall-clock reading of an instant at offset zero. -/
def civilOf (i : Instant) : Civil :=
  let ymd := ord2ymd (i.us / dayMicros + 1)
  let t := i.us % dayMicros
  { year := ymd.1
    month := ymd.2.1
    day := ymd.2.2
    hour := t / 3600000000
    minute := t / 60000000 % 60
    second := t / 1000000 % 60
    micro := t % 1000000
    valid := by
      have hi := i.lt_max
      simp only [maxMicros, dayMicros] at hi
      have hday : i.us / dayMicros + 1 ≤ 3652059 := by simp only [dayMicros]; omega
      obtain ⟨h1, h2, h3, h4, h5⟩ := ord2ymd_valid _ (Nat.le_add_left 1 _)
      refine ⟨h1, ord2ymd_year_le _ (Nat.le_add_left 1 _) hday, h2, h3, h4, h5, ?_⟩
      have ht : i.us % dayMicros < 86400000000 := Nat.mod_lt _ (by decide)
      omega }

/-- An instant as a date-time at offset zero. -/
def utc (i : Instant) : Datetime := ⟨civilOf i, some Offset.zero⟩

/-- The instant a date-time denotes; `naive` gives the offset of a reading without one.  `none`
    when subtracting the offset leaves the years `1..9999`. -/
def Datetime.toInstant? (naive : Civil → Offset) (d : Datetime) : Option Instant :=
  let us : Int := d.civil.micros - (d.offset.getD (naive d.civil)).us
  if h : 0 ≤ us ∧ us < maxMicros then some ⟨us.toNat, by omega⟩ else none

/-! ## Round trip -/

/-- Reading an instant's fields back counts the same microseconds. -/
theorem civilOf_micros (i : Instant) : (civilOf i).micros = i.us := by
  have hord := ymd2ord_ord2ymd _ (Nat.le_add_left 1 (i.us / dayMicros))
  simp only [Civil.micros, civilOf, hord, clockMicros]
  simp only [dayMicros]
  omega

/-- **Round trip**: an instant read as a UTC date-time denotes that instant. -/
theorem toInstant?_utc (naive : Civil → Offset) (i : Instant) :
    (utc i).toInstant? naive = some i := by
  have hmicros := civilOf_micros i
  have hlt := i.lt_max
  have hus : ((utc i).civil.micros : Int)
      - ((utc i).offset.getD (naive (utc i).civil)).us = i.us := by
    simp only [utc, Option.getD_some, Offset.zero, hmicros]
    omega
  simp only [Datetime.toInstant?, hus]
  rw [dif_pos ⟨by omega, by exact_mod_cast hlt⟩]
  rfl

/-- Distinct instants have distinct UTC date-times. -/
theorem utc_injective : Function.Injective utc := by
  intro a b h
  have ha := toInstant?_utc (fun _ => Offset.zero) a
  rw [h, toInstant?_utc] at ha
  exact (Option.some.inj ha).symm

end Calendar
