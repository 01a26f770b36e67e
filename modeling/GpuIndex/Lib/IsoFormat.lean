/-
  ISO 8601 text of date-times, printed and read.

  `isoformat` prints `YYYY-MM-DD`, a separator, `HH:MM:SS` with the microseconds only when there
  are any, and the offset as `±HH:MM` with seconds and microseconds only when there are any.
  `fromIsoformat` reads the wider grammar of CPython 3.12: calendar and week dates, with or without
  dashes, any single separator character, reduced and basic times, a comma or point before the
  fraction, `Z` or a numeric offset, and what its reader passes over, a character behind a field or
  anything behind six digits of a fraction where an offset follows, and anything behind a NUL.
  Whatever it reads is a `Datetime`, so its fields are in range.

  **The round trip** `fromIsoformat_isoformat`: every date-time is read back from its text, for
  every separator and every offset of a second or more; a smaller offset is read as UTC.  Different
  date-times have different texts all the same (`isoformat_injective`).
-/
import GpuIndex.Lib.Datetime
import GpuIndex.Lib.Digits

namespace Calendar

open Digits

/-! ## Printing -/

/-- `YYYY-MM-DD`. -/
def dateText (c : Civil) : List Char :=
  pad 4 c.year ++ '-' :: (pad 2 c.month ++ '-' :: pad 2 c.day)

/-- `HH:MM:SS[.ffffff]`. -/
def clockText (hour minute second micro : Nat) : List Char :=
  pad 2 hour ++ ':' :: (pad 2 minute ++ ':' :: (pad 2 second
    ++ if micro = 0 then [] else '.' :: pad 6 micro))

/-- `±HH:MM[:SS[.ffffff]]`. -/
def offsetText (o : Offset) : List Char :=
  let n := o.us.natAbs
  let hour := n / 3600000000
  let minute := n / 60000000 % 60
  let second := n / 1000000 % 60
  let micro := n % 1000000
  (if o.us < 0 then '-' else '+') ::
    if second = 0 ∧ micro = 0 then pad 2 hour ++ ':' :: pad 2 minute
    else clockText hour minute second micro

/-- The offset text of a date-time, empty for a naive one. -/
def offsetSuffix : Option Offset → List Char
  | some o => offsetText o
  | none => []

/-- The text of a date-time, with `sep` between date and time. -/
def isoformat (sep : Char) (d : Datetime) : List Char :=
  dateText d.civil ++ sep :: (clockText d.civil.hour d.civil.minute d.civil.second d.civil.micro
    ++ offsetSuffix d.offset)

/-! ## Reading the date -/

/-- Where the date ends, when the text starts with one.  The week formats are ambiguous with a
    time that follows a digit separator; the count of digits after the week decides. -/
def dateEnd (s : List Char) : Option Nat :=
  if s.length < 7 then none
  else if s.length = 7 then some 7
  else match s[4]?, s[5]?, s[8]? with
  | some '-', some 'W', some '-' =>
    if s.length = 9 then none
    else if 10 < s.length ∧ s[10]?.any Char.isDigit = true then some 8
    else some 10
  | some '-', some 'W', _ => some 8
  | some '-', _, _ => some 10
  | some 'W', _, _ =>
    let idx := 7 + ((s.drop 7).takeWhile Char.isDigit).length
    if idx < 9 then some idx else if idx % 2 = 0 then some 7 else some 8
  | _, _, _ => some 8

/-- The calendar date of an ISO week date. -/
def ofWeek (year week day : Nat) : Option (Nat × Nat × Nat) :=
  let first := ymd2ord year 1 1
  let longYear := first % 7 = 4 ∨ first % 7 = 3 ∧ isLeap year = true
  if 1 ≤ year ∧ year ≤ 9999 ∧ 1 ≤ week ∧ (week < 53 ∨ week = 53 ∧ longYear) ∧ 1 ≤ day ∧ day < 8 then
    let monday := first + (if 3 < (first + 6) % 7 then 7 else 0) - (first + 6) % 7
    some (ord2ymd (monday + (week - 1) * 7 + (day - 1)))
  else none

/-- Read the date part: `YYYY-MM-DD`, `YYYYMMDD`, `YYYY-Www[-D]` or `YYYYWww[D]`. -/
def readDate (s : List Char) : Option (Nat × Nat × Nat) :=
  match takeDigits 4 0 s with
  | none => none
  | some (year, rest) =>
    let dashed := rest.head? = some '-'
    let rest := if dashed then rest.tail else rest
    match rest with
    | 'W' :: rest =>
      match takeDigits 2 0 rest with
      | none => none
      | some (week, []) => ofWeek year week 1
      | some (week, rest) =>
        if (rest.head? = some '-') = dashed then
          match takeDigits 1 0 (if dashed then rest.tail else rest) with
          | some (day, []) => ofWeek year week day
          | _ => none
        else none
    | rest =>
      match takeDigits 2 0 rest with
      | none => none
      | some (month, rest) =>
        if (rest.head? = some '-') = dashed then
          match takeDigits 2 0 (if dashed then rest.tail else rest) with
          | some (day, []) => some (year, month, day)
          | _ => none
        else none

/-! ## Reading the time -/

/-- Nothing is left of the text, or a NUL. -/
def endsText : List Char → Bool
  | [] => true
  | c :: _ => c = '\x00'

/-- Microseconds of a decimal fraction: six digits count, further digits are dropped.  With them,
    whether the text ends there. -/
def readFraction (s : List Char) : Option (Nat × Bool) :=
  let k := min s.length 6
  (takeDigits k 0 s).map fun r => (r.1 * 10 ^ (6 - k), endsText (r.2.dropWhile Char.isDigit))

/-- Read the fields that are left, two digits each, and the fraction.  The character after the
    first field decides whether there are colons.  One character after a field at the very end is
    passed over. -/
def readFields : Nat → Option Bool → List Char → Option (List Nat × Nat × Bool)
  | 0, _, s => (readFraction s).map fun r => ([], r)
  | left + 1, colons, s =>
    match takeDigits 2 0 s with
    | none => none
    | some (n, []) => some ([n], 0, true)
    | some (n, [c]) => if c.toNat < 128 then some ([n], 0, c = '\x00') else none
    | some (n, c :: rest@(_ :: _)) =>
      let colons := colons.getD (c = ':')
      if colons ∧ c = ':' then (readFields left (some colons) rest).map fun r => (n :: r.1, r.2)
      else if c = '.' ∨ c = ',' then (readFraction rest).map fun r => ([n], r)
      else if colons then none
      else (readFields left (some colons) (c :: rest)).map fun r => (n :: r.1, r.2)

/-- Read `HH[:?MM[:?SS]][{.,}f+]`, and whether the text ends there; the colons are all there or all
    missing. -/
def readClock (s : List Char) : Option ((Nat × Nat × Nat × Nat) × Bool) :=
  (readFields 3 none s).map fun r =>
  ((r.1[0]?.getD 0, r.1[1]?.getD 0, r.1[2]?.getD 0, r.2.1), r.2.2)

/-- The characters that start an offset. -/
def startsOffset (c : Char) : Bool := c == '-' || c == '+' || c == 'Z'

/-- Read an offset: nothing, `Z`, or a sign and a clock reading under 24 hours.  Less than a second
    is UTC, whatever the microseconds. -/
def readOffset : List Char → Option (Option Offset)
  | [] => some none
  | c :: rest =>
    if c = 'Z' then (if endsText rest then some (some Offset.zero) else none)
    else match readClock rest with
      | some ((hour, minute, second, micro), true) =>
        let n := clockMicros hour minute second micro
        let us : Int := if n < 1000000 then 0 else (if c = '-' then -1 else 1) * n
        if h : -86400000000 < us ∧ us < 86400000000 then some (some ⟨us, h⟩) else none
      | _ => none

/-- Read a date-time.  A text that ends with the date is midnight; what stands between the clock and
    an offset is not looked at, what stands after a clock without one has to end the text. -/
def fromIsoformat (s : List Char) : Option Datetime :=
  match dateEnd s with
  | none => none
  | some n =>
    match readDate (s.take n) with
    | none => none
    | some (year, month, day) =>
      let time := s.drop (n + 1)
      let clock := time.takeWhile fun c => !startsOffset c
      match (if s.length = n then some ((0, 0, 0, 0), true) else readClock clock),
        readOffset (time.drop clock.length) with
      | some ((hour, minute, second, micro), ended), some offset =>
        if h : ValidCivil year month day hour minute second micro then
          if ended ∨ offset.isSome then
            some ⟨⟨year, month, day, hour, minute, second, micro, h⟩, offset⟩
          else none
        else none
      | _, _ => none

/-! ## Round trip -/

/-- Four characters into a calendar date there is a dash, followed by a digit. -/
theorem dateEnd_dateText (c : Civil) (rest : List Char) :
    dateEnd (dateText c ++ rest) = some 10 := by
  obtain ⟨hy, hm, hd⟩ :
      (∃ a b c' d, pad 4 c.year = [a, b, c', d])
      ∧ (∃ a b, a.isDigit = true ∧ pad 2 c.month = [a, b])
        ∧ ∃ a b, pad 2 c.day = [a, b] := by
    refine ⟨⟨_, _, _, _, rfl⟩, ⟨_, _, ?_, rfl⟩, ⟨_, _, rfl⟩⟩
    rw [Nat.isDigit_digitChar, decide_eq_true_eq]
    exact Nat.mod_lt _ (by decide)
  obtain ⟨y1, y2, y3, y4, hy⟩ := hy
  obtain ⟨m1, m2, hdig, hm⟩ := hm
  obtain ⟨d1, d2, hd⟩ := hd
  have hW : m1 ≠ 'W' := by rintro rfl; revert hdig; decide
  simp only [dateEnd, dateText, hy, hm, hd]
  simp [hW]

/-- The date part is read back. -/
theorem readDate_dateText (c : Civil) : readDate (dateText c) = some (c.year, c.month, c.day) := by
  obtain ⟨h1, h2, h3, h4, h5, h6, -⟩ := c.valid
  have hlen : daysInMonth c.year c.month ≤ 31 := by
    have hm := h4
    generalize c.month = m at h3 hm
    simp only [daysInMonth, monthLength]
    interval_cases m <;> simp [commonDaysInMonth]
    split <;> omega
  unfold readDate dateText
  rw [takeDigits_pad 4 0 c.year _ (by omega)]
  simp only [List.head?_cons, if_pos, List.tail_cons, Nat.zero_mul, Nat.zero_add]
  split
  · rename_i heq
    exact absurd heq (pad_append_ne_cons (by decide) _ _)
  · rw [takeDigits_pad 2 0 c.month _ (by omega)]
    simp only [List.head?_cons, if_pos, List.tail_cons, Nat.zero_mul, Nat.zero_add]
    have hday := takeDigits_pad 2 0 c.day [] (by omega)
    rw [List.append_nil] at hday
    rw [hday]
    simp

/-- A last field is read back. -/
theorem readFields_pad {left n : Nat} {colons : Option Bool} (hn : n < 100) :
    readFields (left + 1) colons (pad 2 n) = some ([n], 0, true) := by
  have hread := takeDigits_pad 2 0 n [] (by omega)
  rw [List.append_nil] at hread
  rw [readFields, hread]
  simp

/-- A field with a colon behind it is read back. -/
theorem readFields_colon {left n : Nat} {colons : Option Bool} {rest : List Char} (hn : n < 100)
    (hcolons : colons = none ∨ colons = some true) (hrest : rest ≠ []) :
    readFields (left + 1) colons (pad 2 n ++ ':' :: rest)
      = (readFields left (some true) rest).map fun r => (n :: r.1, r.2) := by
  obtain ⟨c, t, rfl⟩ := List.exists_cons_of_ne_nil hrest
  rw [readFields, takeDigits_pad 2 0 n _ (by omega)]
  rcases hcolons with rfl | rfl <;> simp

/-- A field with a fraction behind it is read back. -/
theorem readFields_point {left n : Nat} {colons : Option Bool} {rest : List Char} (hn : n < 100)
    (hrest : rest ≠ []) : readFields (left + 1) colons (pad 2 n ++ '.' :: rest)
      = (readFraction rest).map fun r => ([n], r) := by
  obtain ⟨c, t, rfl⟩ := List.exists_cons_of_ne_nil hrest
  rw [readFields, takeDigits_pad 2 0 n _ (by omega)]
  simp

theorem readFraction_pad {micro : Nat} (hu : micro < 1000000) :
    readFraction (pad 6 micro) = some (micro, true) := by
  have hread := takeDigits_pad 6 0 micro [] (by omega)
  rw [List.append_nil] at hread
  simp [readFraction, length_pad, hread, endsText]

/-- A clock reading is read back, with or without a fraction. -/
theorem readClock_clockText {hour minute second micro : Nat} (hh : hour < 100) (hm : minute < 100)
    (hs : second < 100) (hu : micro < 1000000) :
    readClock (clockText hour minute second micro)
      = some ((hour, minute, second, micro), true) := by
  unfold readClock clockText
  rw [readFields_colon hh (.inl rfl) (by simp [pad]),
    readFields_colon hm (.inr rfl) (by simp [pad])]
  by_cases h0 : micro = 0
  · rw [if_pos h0, List.append_nil, readFields_pad hs, h0]
    rfl
  · rw [if_neg h0, readFields_point hs (by simp [pad]), readFraction_pad hu]
    rfl

/-- A reading without seconds is read back. -/
theorem readClock_minutes {hour minute : Nat} (hh : hour < 100) (hm : minute < 100) :
    readClock (pad 2 hour ++ ':' :: pad 2 minute) = some ((hour, minute, 0, 0), true) := by
  unfold readClock
  rw [readFields_colon hh (.inl rfl) (by simp [pad]), readFields_pad hm]
  rfl

/-- The clock of an offset text, behind its sign. -/
theorem readClock_offsetText (o : Offset) : ∃ hour minute second micro,
    readClock (offsetText o).tail = some ((hour, minute, second, micro), true)
      ∧ clockMicros hour minute second micro = o.us.natAbs := by
  obtain ⟨us, hlo, hhi⟩ := o
  refine ⟨us.natAbs / 3600000000, us.natAbs / 60000000 % 60, us.natAbs / 1000000 % 60,
    us.natAbs % 1000000, ?_, ?_⟩
  · simp only [offsetText, List.tail_cons]
    split
    · rename_i hz
      rw [readClock_minutes (by omega) (by omega), hz.1, hz.2]
    · exact readClock_clockText (by omega) (by omega) (by omega) (by omega)
  · simp only [clockMicros]
    omega

/-- What is read of an offset text: less than a second is lost. -/
def Offset.readBack (o : Offset) : Offset := if o.us.natAbs < 1000000 then .zero else o

/-- An offset is read back, unless it is less than a second. -/
theorem readOffset_offsetText (o : Offset) :
    readOffset (offsetText o) = some (some o.readBack) := by
  obtain ⟨hour, minute, second, micro, hread, hclock⟩ := readClock_offsetText o
  obtain ⟨us, hlo, hhi⟩ := o
  have htext : offsetText ⟨us, hlo, hhi⟩
      = (if us < 0 then '-' else '+') :: (offsetText ⟨us, hlo, hhi⟩).tail := rfl
  have hsigned : ((if us < 0 then -1 else 1) * us.natAbs : Int) = us := by
    split <;> omega
  have hsign : ¬ (if us < 0 then '-' else '+') = 'Z' := by
    split <;> decide
  rw [htext, readOffset, if_neg hsign, hread]
  dsimp only
  rw [hclock, Offset.readBack]
  by_cases hsmall : us.natAbs < 1000000
  · simp only [hsmall, if_true]
    rfl
  · have hus : (if (if us < 0 then '-' else '+') = '-' then -1 else 1 : Int) * us.natAbs = us := by
      by_cases hneg : us < 0
      · simpa [hneg] using hsigned
      · simpa [hneg] using hsigned
    simp only [hsmall, if_false, hus]
    rw [dif_pos ⟨hlo, hhi⟩]

/-- Offsets with the same text are the same, also where the text is not read back. -/
theorem offsetText_injective : Function.Injective offsetText := by
  intro o o' h
  obtain ⟨hour, minute, second, micro, hread, hclock⟩ := readClock_offsetText o
  obtain ⟨hour', minute', second', micro', hread', hclock'⟩ := readClock_offsetText o'
  rw [h, hread'] at hread
  simp only [Option.some.injEq, Prod.mk.injEq] at hread
  obtain ⟨⟨rfl, rfl, rfl, rfl⟩, -⟩ := hread
  have habs : o.us.natAbs = o'.us.natAbs := hclock.symm.trans hclock'
  have hsign : (if o.us < 0 then '-' else '+') = if o'.us < 0 then '-' else '+' :=
    (List.cons.inj h).1
  obtain ⟨us, hrange⟩ := o
  obtain ⟨us', hrange'⟩ := o'
  obtain rfl : us = us' := by
    dsimp only at habs hsign
    by_cases hneg : us < 0 <;> by_cases hneg' : us' < 0 <;> simp [hneg, hneg'] at hsign <;> omega
  rfl

/-- The clock text holds none of the characters that start an offset. -/
theorem clockText_not_startsOffset {hour minute second micro : Nat} :
    ∀ c ∈ clockText hour minute second micro, startsOffset c = false := by
  intro c hc
  have hdig : ∀ k n, c ∈ pad k n → startsOffset c = false := by
    intro k n h
    have hd := isDigit_of_mem_pad h
    simp only [startsOffset, Bool.or_eq_false_iff, beq_eq_false_iff_ne, ne_eq]
    refine ⟨⟨?_, ?_⟩, ?_⟩ <;> (rintro rfl; revert hd; decide)
  simp only [clockText, List.mem_append, List.mem_cons] at hc
  rcases hc with h | rfl | h | rfl | h | h
  · exact hdig _ _ h
  · rfl
  · exact hdig _ _ h
  · rfl
  · exact hdig _ _ h
  · split at h
    · simp at h
    · rcases List.mem_cons.mp h with rfl | h
      · rfl
      · exact hdig _ _ h

/-- An offset text starts with its sign. -/
theorem offsetText_head (o : Offset) : ∃ c t, offsetText o = c :: t ∧ startsOffset c = true := by
  refine ⟨_, _, rfl, ?_⟩
  split <;> rfl

/-- The clock text ends where the offset starts. -/
theorem takeWhile_clockText {hour minute second micro : Nat} (o : Option Offset) :
    ((clockText hour minute second micro ++ offsetSuffix o).takeWhile fun c => !startsOffset c)
      = clockText hour minute second micro := by
  rw [List.takeWhile_append_of_pos (fun c hc => by rw [clockText_not_startsOffset c hc]; rfl)]
  cases o with
  | none => simp [offsetSuffix]
  | some o =>
    obtain ⟨c, t, htext, hc⟩ := offsetText_head o
    simp [offsetSuffix, htext, hc]

/-- What is read of the text of a date-time: an offset of less than a second is lost. -/
def Datetime.readBack (d : Datetime) : Datetime := ⟨d.civil, d.offset.map Offset.readBack⟩

/-- **Round trip**: every date-time is read back from its text, whatever the separator, but for an
    offset of less than a second. -/
theorem fromIsoformat_isoformat (sep : Char) (d : Datetime) :
    fromIsoformat (isoformat sep d) = some d.readBack := by
  obtain ⟨c, o⟩ := d
  obtain ⟨h1, h2, h3, h4, h5, h6, h7, h8, h9, h10⟩ := c.valid
  have hlen : (dateText c).length = 10 := by simp [dateText, length_pad]
  have hend := dateEnd_dateText c (sep :: (clockText c.hour c.minute c.second c.micro
    ++ offsetSuffix o))
  have hclock : readClock (clockText c.hour c.minute c.second c.micro)
      = some ((c.hour, c.minute, c.second, c.micro), true) :=
    readClock_clockText (by omega) (by omega) (by omega) h10
  have hoff : readOffset (offsetSuffix o) = some (o.map Offset.readBack) := by
    cases o with
    | none => rfl
    | some o => exact readOffset_offsetText o
  -- the date takes ten characters, and the time begins after the separator
  have htake : (isoformat sep ⟨c, o⟩).take 10 = dateText c := by
    rw [isoformat, ← hlen, List.take_left]
  have hdrop : (isoformat sep ⟨c, o⟩).drop 11 = clockText c.hour c.minute c.second c.micro
      ++ offsetSuffix o := by
    rw [isoformat, show 11 = (dateText c).length + 1 from by rw [hlen], List.drop_append]
    simp
  have hlong : ¬ (isoformat sep ⟨c, o⟩).length = 10 := by
    rw [isoformat, List.length_append, hlen, List.length_cons]
    omega
  unfold fromIsoformat
  rw [show dateEnd (isoformat sep ⟨c, o⟩) = some 10 from hend]
  simp only [htake, readDate_dateText, Nat.reduceAdd, hdrop, takeWhile_clockText, List.drop_left]
  rw [if_neg hlong, hclock, hoff]
  simp [c.valid, Datetime.readBack]

/-- A date-time is read back unchanged exactly if its offset is zero or at least a second. -/
theorem readBack_eq_self {d : Datetime} :
    d.readBack = d ↔ ∀ o ∈ d.offset, o.us = 0 ∨ 1000000 ≤ o.us.natAbs := by
  obtain ⟨c, o⟩ := d
  cases o with
  | none => simp [Datetime.readBack]
  | some o =>
    obtain ⟨us, hrange⟩ := o
    simp only [Datetime.readBack, Offset.readBack, Offset.zero, Option.map_some, Datetime.mk.injEq,
      true_and, Option.some.injEq, Option.mem_def, forall_eq']
    split
    · rw [Offset.mk.injEq]
      omega
    · exact ⟨fun _ => by omega, fun _ => rfl⟩

theorem readBack_utc (i : Instant) : (utc i).readBack = utc i := rfl

/-- Date-times with the same text are the same. -/
theorem isoformat_injective (sep : Char) : Function.Injective (isoformat sep) := by
  rintro ⟨c, o⟩ ⟨c', o'⟩ h
  have hread := fromIsoformat_isoformat sep ⟨c, o⟩
  rw [h, fromIsoformat_isoformat] at hread
  obtain ⟨rfl, hback⟩ := Datetime.mk.inj (Option.some.inj hread)
  -- the fields are the same, so their texts can be taken off
  have hsuffix : offsetSuffix o = offsetSuffix o' :=
    List.append_cancel_left (List.cons.inj (List.append_cancel_left h)).2
  cases o with
  | none =>
    cases o' with
    | none => rfl
    | some o' => cases hsuffix
  | some o =>
    cases o' with
    | none => cases hsuffix
    | some o' => rw [offsetText_injective hsuffix]

end Calendar
