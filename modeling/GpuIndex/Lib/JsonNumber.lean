/-
  Numbers in JSON text.

  An integer prints as its decimal digits.  A double prints as a FLOAT TOKEN, digits with a point
  or an exponent, which is what tells the reader to build a double.  The double format itself is
  a parameter: `FloatFormat` bundles the rounding of an exact value to a double and the token a
  double prints as, with the one law the text format rests on, that the printed token rounds back
  to the double it came from.

  `readNumber` follows the grammar `-?(0|[1-9][0-9]*)(\.[0-9]+)?([eE][-+]?[0-9]+)?` greedily and
  is shown to undo both printers (`readNumber_int`, `readNumber_token`).
-/
import Mathlib.Data.Rat.Defs
import Mathlib.Tactic.IntervalCases

namespace JsonText

/-! ## Doubles and their tokens -/

/-- A double: a finite value, an infinity or not-a-number. -/
inductive FloatVal where
  | finite (q : ℚ)
  | infinity (neg : Bool)
  | nan
  deriving DecidableEq

/-- The text of a finite double, taken apart: sign, whole part, fraction digits and exponent. -/
structure FloatToken where
  neg : Bool
  whole : Nat
  frac : List Char
  exp : Option (Bool × List Char)
  frac_digits : ∀ c ∈ frac, c.isDigit = true
  exp_digits : ∀ e ∈ exp, e.2 ≠ [] ∧ ∀ c ∈ e.2, c.isDigit = true
  isFloat : frac ≠ [] ∨ exp ≠ none

/-- The exact value of decimal parts. -/
def decimalValue (neg : Bool) (whole : Nat) (frac : List Char) (exp : Option (Bool × List Char)) :
    ℚ :=
  let mantissa : ℚ := whole + (Nat.ofDigitChars 10 frac 0 : ℚ) / 10 ^ frac.length
  let scaled := match exp with
    | none => mantissa
    | some (true, ds) => mantissa / 10 ^ Nat.ofDigitChars 10 ds 0
    | some (false, ds) => mantissa * 10 ^ Nat.ofDigitChars 10 ds 0
  if neg then -scaled else scaled

/-- The exact value a token denotes. -/
def FloatToken.value (t : FloatToken) : ℚ := decimalValue t.neg t.whole t.frac t.exp

/-- The exponent part of a token's text. -/
def expText : Option (Bool × List Char) → List Char
  | none => []
  | some (neg, ds) => 'e' :: (if neg then '-' else '+') :: ds

/-- The fraction part of a token's text. -/
def fracText (frac : List Char) : List Char := if frac = [] then [] else '.' :: frac

/-- The text of a token. -/
def FloatToken.text (t : FloatToken) : List Char :=
  (if t.neg then ['-'] else []) ++ Nat.toDigits 10 t.whole ++ fracText t.frac ++ expText t.exp

/-- A double format: rounding of exact values and the token each finite double prints as. -/
structure FloatFormat where
  round : ℚ → FloatVal
  repr : ℚ → FloatToken
  /-- What a value rounds to is a double, and a double rounds to itself. -/
  round_round : ∀ x q, round x = .finite q → round q = .finite q
  /-- A printed double rounds back to itself. -/
  round_repr : ∀ q, round q = .finite q → round (repr q).value = .finite q

/-! ## Reading -/

/-- The number of decimal digits an integer text may have. -/
def maxIntDigits : Nat := 4300

/-- What a number text denotes. -/
inductive Number where
  | int (n : Int)
  | float (x : FloatVal)
  deriving DecidableEq

/-- An optional minus sign. -/
def readSign : List Char → Bool × List Char
  | '-' :: s => (true, s)
  | s => (false, s)

/-- The whole part: a single zero, or digits not starting with zero. -/
def readWhole (s : List Char) : Option (List Char × List Char) :=
  match s.takeWhile Char.isDigit with
  | [] => none
  | '0' :: _ => some (['0'], s.drop 1)
  | ds => some (ds, s.drop ds.length)

/-- The fraction digits, if a point is followed by at least one. -/
def readFrac : List Char → List Char × List Char
  | '.' :: s =>
    match s.takeWhile Char.isDigit with
    | [] => ([], '.' :: s)
    | ds => (ds, s.drop ds.length)
  | s => ([], s)

/-- An optional sign of an exponent. -/
def readExpSign : List Char → Bool × List Char
  | '-' :: s => (true, s)
  | '+' :: s => (false, s)
  | s => (false, s)

/-- The exponent, if its letter is followed by at least one digit. -/
def readExp : List Char → Option (Bool × List Char) × List Char
  | c :: s =>
    if c = 'e' ∨ c = 'E' then
      match (readExpSign s).2.takeWhile Char.isDigit with
      | [] => (none, c :: s)
      | ds => (some ((readExpSign s).1, ds), (readExpSign s).2.drop ds.length)
    else (none, c :: s)
  | [] => (none, [])

/-- Read a number off the front of a text. -/
def readNumber (fmt : FloatFormat) (s : List Char) : Option (Number × List Char) :=
  match readWhole (readSign s).2 with
  | none => none
  | some (whole, s₁) =>
    let frac := readFrac s₁
    let exp := readExp frac.2
    let n := Nat.ofDigitChars 10 whole 0
    if frac.1 = [] ∧ exp.1 = none then
      if whole.length ≤ maxIntDigits then
        some (.int (if (readSign s).1 then -(n : Int) else n), exp.2)
      else none
    else some (.float (fmt.round (decimalValue (readSign s).1 n frac.1 exp.1)), exp.2)

/-- The text after a number does not continue it. -/
def EndsNumber : List Char → Prop
  | [] => True
  | c :: _ => c.isDigit = false ∧ c ≠ '.' ∧ c ≠ 'e' ∧ c ≠ 'E'

/-! ## Printing and reading back -/

/-- A positive number's digits do not start with zero. -/
theorem toDigits_head_ne_zero (n : Nat) (hn : 0 < n) : (Nat.toDigits 10 n).head? ≠ some '0' := by
  induction n using Nat.strong_induction_on with
  | _ n ih =>
    rw [Nat.toDigits_eq_if (by decide)]
    split
    · rename_i hlt
      simp only [List.head?_cons, ne_eq, Option.some.injEq]
      interval_cases n <;> decide
    · have h := ih (n / 10) (by omega) (by omega)
      rw [List.head?_append]
      cases hd : Nat.toDigits 10 (n / 10) with
      | nil => exact absurd hd Nat.toDigits_ne_nil
      | cons c t => rw [hd] at h; simpa using h

theorem takeWhile_digits {ds rest : List Char} (hds : ∀ c ∈ ds, c.isDigit = true)
    (hrest : ∀ c t, rest = c :: t → c.isDigit = false) :
    (ds ++ rest).takeWhile Char.isDigit = ds := by
  rw [List.takeWhile_append_of_pos hds]
  cases rest with
  | nil => simp
  | cons c t => simp [hrest c t rfl]

theorem EndsNumber.not_digit {rest : List Char} (h : EndsNumber rest) :
    ∀ c t, rest = c :: t → c.isDigit = false := by
  rintro c t rfl
  exact h.1

/-- The whole part of a printed number is read back. -/
theorem readWhole_toDigits (n : Nat) {rest : List Char}
    (hrest : ∀ c t, rest = c :: t → c.isDigit = false) :
    readWhole (Nat.toDigits 10 n ++ rest) = some (Nat.toDigits 10 n, rest) := by
  have htake := takeWhile_digits
    (fun c hc => Nat.isDigit_of_mem_toDigits (by decide) (by decide) hc :
      ∀ c ∈ Nat.toDigits 10 n, _) hrest
  unfold readWhole
  rw [htake]
  rcases Nat.eq_zero_or_pos n with rfl | hn
  · simp [Nat.toDigits_zero]
  · have hhead := toDigits_head_ne_zero n hn
    split
    · rename_i h; exact absurd h Nat.toDigits_ne_nil
    · rename_i h; rw [h] at hhead; simp at hhead
    · simp

/-- The digits of a number never start with a minus sign. -/
theorem readSign_toDigits (n : Nat) (rest : List Char) :
    readSign (Nat.toDigits 10 n ++ rest) = (false, Nat.toDigits 10 n ++ rest) := by
  cases hd : Nat.toDigits 10 n with
  | nil => exact absurd hd Nat.toDigits_ne_nil
  | cons c t =>
    have hc : c.isDigit = true := Nat.isDigit_of_mem_toDigits (b := 10) (n := n) (by decide)
      (by decide) (by rw [hd]; exact List.mem_cons_self)
    unfold readSign
    split
    · rename_i s heq
      simp only [List.cons_append, List.cons.injEq] at heq
      rw [heq.1] at hc
      exact absurd hc (by decide)
    · rfl

theorem readFrac_ends {rest : List Char} (h : EndsNumber rest) : readFrac rest = ([], rest) := by
  unfold readFrac
  split
  · exact absurd rfl h.2.1
  · rfl

theorem readExp_ends {rest : List Char} (h : EndsNumber rest) : readExp rest = (none, rest) := by
  unfold readExp
  cases rest with
  | nil => rfl
  | cons c t => simp [h.2.2.1, h.2.2.2]

/-- The text of an integer. -/
def intText (n : Int) : List Char :=
  (if n < 0 then ['-'] else []) ++ Nat.toDigits 10 n.natAbs

/-- **Integers are read back**, as long as they have no more digits than the reader admits. -/
theorem readNumber_int (fmt : FloatFormat) (n : Int) {rest : List Char} (hrest : EndsNumber rest)
    (hlen : (Nat.toDigits 10 n.natAbs).length ≤ maxIntDigits) :
    readNumber fmt (intText n ++ rest) = some (.int n, rest) := by
  have hwhole := readWhole_toDigits n.natAbs hrest.not_digit
  have hsign :
      readSign (intText n ++ rest) = (decide (n < 0), Nat.toDigits 10 n.natAbs ++ rest) := by
    unfold intText
    by_cases hneg : n < 0
    · simp [hneg, readSign]
    · simp only [hneg, if_false, List.nil_append, decide_false]
      exact readSign_toDigits _ _
  have hval : (if decide (n < 0) = true then -(n.natAbs : Int) else n.natAbs) = n := by
    by_cases hneg : n < 0
    · rw [if_pos (by simpa using hneg)]; omega
    · rw [if_neg (by simpa using hneg)]; omega
  simp only [readNumber, hsign, hwhole, readFrac_ends hrest, readExp_ends hrest, and_self, if_true,
    hlen, Nat.ofDigitChars_ten_toDigits, hval]

/-- The exponent of a printed token is read back. -/
theorem readExp_expText {exp : Option (Bool × List Char)}
    (hexp : ∀ e ∈ exp, e.2 ≠ [] ∧ ∀ c ∈ e.2, c.isDigit = true) {rest : List Char}
    (hrest : EndsNumber rest) : readExp (expText exp ++ rest) = (exp, rest) := by
  cases exp with
  | none => exact readExp_ends hrest
  | some e =>
    obtain ⟨neg, ds⟩ := e
    obtain ⟨hne, hds⟩ := hexp _ rfl
    have htake := takeWhile_digits hds hrest.not_digit
    have hsign : readExpSign ((if neg then '-' else '+') :: (ds ++ rest)) = (neg, ds ++ rest) := by
      cases neg <;> rfl
    simp only [expText, List.cons_append, readExp, true_or, if_true, hsign, htake]
    simp

/-- The fraction of a printed token is read back, whatever exponent follows. -/
theorem readFrac_fracText {frac : List Char} (hfrac : ∀ c ∈ frac, c.isDigit = true)
    {exp : Option (Bool × List Char)} {rest : List Char} (hrest : EndsNumber rest) :
    readFrac (fracText frac ++ (expText exp ++ rest)) = (frac, expText exp ++ rest) := by
  have hnext : ∀ c t, expText exp ++ rest = c :: t → c.isDigit = false ∧ c ≠ '.' := by
    intro c t h
    cases exp with
    | none =>
        exact ⟨hrest.not_digit c t h, by rw [show rest = c :: t from h] at hrest; exact hrest.2.1⟩
    | some e =>
      simp only [expText, List.cons_append, List.cons.injEq] at h
      rw [← h.1]
      decide
  unfold fracText
  by_cases hnil : frac = []
  · simp only [hnil, if_true, List.nil_append]
    unfold readFrac
    split
    · rename_i s heq
      exact absurd rfl (hnext _ _ heq).2
    · rfl
  · have htake := takeWhile_digits hfrac (fun c t h => (hnext c t h).1)
    simp only [hnil, if_false, List.cons_append, readFrac, htake]
    simp

/-- **Float tokens are read back** as the double their value rounds to. -/
theorem readNumber_token (fmt : FloatFormat) (t : FloatToken) {rest : List Char}
    (hrest : EndsNumber rest) :
    readNumber fmt (t.text ++ rest) = some (.float (fmt.round t.value), rest) := by
  have hsign : readSign (t.text ++ rest)
      = (t.neg, Nat.toDigits 10 t.whole ++ (fracText t.frac ++ (expText t.exp ++ rest))) := by
    unfold FloatToken.text
    cases t.neg with
    | true => simp [readSign]
    | false =>
      simp only [Bool.false_eq_true, if_false, List.nil_append, List.append_assoc]
      exact readSign_toDigits _ _
  -- the whole part ends where a point, an exponent or the rest begins
  have hnext : ∀ c u, fracText t.frac ++ (expText t.exp ++ rest) = c :: u → c.isDigit = false := by
    intro c u h
    unfold fracText at h
    split at h
    · rw [List.nil_append] at h
      cases hexp : t.exp with
      | none => rw [hexp] at h; exact hrest.not_digit c u h
      | some e =>
        simp only [hexp, expText, List.cons_append, List.cons.injEq] at h
        rw [← h.1]
        decide
    · simp only [List.cons_append, List.cons.injEq] at h
      rw [← h.1]
      decide
  have hfloat : ¬ (t.frac = [] ∧ t.exp = none) := by
    rintro ⟨h1, h2⟩
    rcases t.isFloat with h | h
    · exact h h1
    · exact h h2
  simp only [readNumber, hsign, readWhole_toDigits _ hnext, readFrac_fracText t.frac_digits hrest,
    readExp_expText t.exp_digits hrest, hfloat, if_false, Nat.ofDigitChars_ten_toDigits,
    FloatToken.value]

/-- A text that starts with neither a digit nor a minus sign holds no number. -/
theorem readNumber_eq_none (fmt : FloatFormat) {c : Char} {s : List Char} (hd : c.isDigit = false)
    (hm : c ≠ '-') : readNumber fmt (c :: s) = none := by
  have hsign : readSign (c :: s) = (false, c :: s) := by
    unfold readSign
    split
    · rename_i heq; exact absurd (List.cons.inj heq).1 hm
    · rfl
  simp [readNumber, hsign, readWhole, hd]

end JsonText
