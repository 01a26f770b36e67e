/-
  Strings in JSON text, escaped down to printable ASCII.

  The printer leaves `' '..'~'` alone except for the quote and the backslash, uses the two-letter
  escapes where there is one, `\uXXXX` below `0x10000` and a surrogate pair above.  The reader
  takes every escape of the grammar and refuses control characters.  It gives code points, since a
  `\uXXXX` may name half a surrogate pair, for which there is no `Char`.
-/
import Mathlib.Data.Nat.Notation
import Mathlib.Tactic.IntervalCases

namespace JsonText

/-! ## Hexadecimal code units -/

/-- The value of a hexadecimal digit. -/
def hexVal? (c : Char) : Option Nat :=
  if '0' ≤ c ∧ c ≤ '9' then some (c.toNat - 48)
  else if 'a' ≤ c ∧ c ≤ 'f' then some (c.toNat - 87)
  else if 'A' ≤ c ∧ c ≤ 'F' then some (c.toNat - 55)
  else none

/-- Four hexadecimal digits. -/
def hex4 (n : Nat) : List Char :=
  [Nat.digitChar (n / 4096 % 16), Nat.digitChar (n / 256 % 16), Nat.digitChar (n / 16 % 16),
    Nat.digitChar (n % 16)]

/-- Read four hexadecimal digits. -/
def readHex4 : List Char → Option (Nat × List Char)
  | a :: b :: c :: d :: s =>
    match hexVal? a, hexVal? b, hexVal? c, hexVal? d with
    | some a, some b, some c, some d => some (((a * 16 + b) * 16 + c) * 16 + d, s)
    | _, _, _, _ => none
  | _ => none

/-- The characters of a string, if none of its code points is an unpaired surrogate. -/
def charsOf? : List Nat → Option (List Char)
  | [] => some []
  | n :: codes => if n.isValidChar then (charsOf? codes).map (Char.ofNat n :: ·) else none

/-! ## Printing -/

/-- The text of one character inside quotes. -/
def escapeChar (c : Char) : List Char :=
  if c = '"' then ['\\', '"']
  else if c = '\\' then ['\\', '\\']
  else if c = '\n' then ['\\', 'n']
  else if c = '\r' then ['\\', 'r']
  else if c = '\t' then ['\\', 't']
  else if c = '\u0008' then ['\\', 'b']
  else if c = '\u000c' then ['\\', 'f']
  else if 32 ≤ c.toNat ∧ c.toNat ≤ 126 then [c]
  else if c.toNat < 65536 then '\\' :: 'u' :: hex4 c.toNat
  else '\\' :: 'u' :: (hex4 (55296 + (c.toNat - 65536) / 1024)
    ++ '\\' :: 'u' :: hex4 (56320 + (c.toNat - 65536) % 1024))

/-- The text of a string, quotes included. -/
def stringText (s : List Char) : List Char := '"' :: (s.flatMap escapeChar ++ ['"'])

/-- The text of one code point inside quotes. -/
def escapeCode (n : Nat) : List Char :=
  if n.isValidChar then escapeChar (Char.ofNat n) else '\\' :: 'u' :: hex4 n

/-! ## Reading -/

/-- The second half of a surrogate pair, if one follows. -/
def readLow : List Char → Option (Option (Nat × List Char))
  | '\\' :: 'u' :: s =>
    match readHex4 s with
    | none => none
    | some (lo, s') => some (if 56320 ≤ lo ∧ lo < 57344 then some (lo, s') else none)
  | _ => some none

/-- Read what follows a backslash. -/
def readEscape : List Char → Option (Nat × List Char)
  | [] => none
  | c :: s =>
    if c = 'u' then
      match readHex4 s with
      | none => none
      | some (hi, s') =>
        if 55296 ≤ hi ∧ hi < 56320 then
          match readLow s' with
          | none => none
          | some (some (lo, s'')) => some (65536 + (hi - 55296) * 1024 + (lo - 56320), s'')
          | some none => some (hi, s')
        else some (hi, s')
    else if c = '"' ∨ c = '\\' ∨ c = '/' then some (c.toNat, s)
    else if c = 'n' then some (10, s)
    else if c = 'r' then some (13, s)
    else if c = 't' then some (9, s)
    else if c = 'b' then some (8, s)
    else if c = 'f' then some (12, s)
    else none

/-- Read code points up to the closing quote.  Every turn uses up a character, so the length of the
    text is enough fuel. -/
def scanString : Nat → List Char → Option (List Nat × List Char)
  | 0, _ => none
  | _ + 1, [] => none
  | fuel + 1, c :: s =>
    if c = '"' then some ([], s)
    else if c = '\\' then
      match readEscape s with
      | none => none
      | some (n, s') => (scanString fuel s').map fun r => (n :: r.1, r.2)
    else if c.toNat < 32 then none
    else (scanString fuel s).map fun r => (c.toNat :: r.1, r.2)

/-! ## Round trip -/

theorem hexVal?_digitChar : ∀ d : Nat, d < 16 → hexVal? (Nat.digitChar d) = some d := by
  intro d hd
  interval_cases d <;> decide

theorem readHex4_hex4 {n : Nat} (hn : n < 65536) (rest : List Char) :
    readHex4 (hex4 n ++ rest) = some (n, rest) := by
  simp only [hex4, List.cons_append, List.nil_append, readHex4,
    hexVal?_digitChar _ (Nat.mod_lt _ (by decide : 16 > 0))]
  congr 2
  omega

/-- The code points of characters are those characters. -/
theorem charsOf?_map_toNat (s : List Char) : charsOf? (s.map Char.toNat) = some s := by
  induction s with
  | nil => rfl
  | cons c s ih =>
    have hvalid : c.toNat.isValidChar := c.valid
    rw [List.map_cons, charsOf?, if_pos hvalid, ih, Option.map_some, Char.ofNat_toNat]

/-- No character has a surrogate for its code point. -/
theorem toNat_not_surrogate (c : Char) : ¬ (55296 ≤ c.toNat ∧ c.toNat < 57344) := by
  have hv : c.toNat.isValidChar := c.valid
  unfold Nat.isValidChar at hv
  omega

theorem toNat_lt (c : Char) : c.toNat < 1114112 := by
  have hv : c.toNat.isValidChar := c.valid
  unfold Nat.isValidChar at hv
  omega

/-- A code unit outside the surrogates reads back from its escape. -/
theorem readEscape_hex4 {n : Nat} (hn : n < 65536) (hsur : ¬ (55296 ≤ n ∧ n < 57344))
    (rest : List Char) : readEscape ('u' :: (hex4 n ++ rest)) = some (n, rest) := by
  have hhi : ¬ (55296 ≤ n ∧ n < 56320) := by omega
  simp only [readEscape, if_true, readHex4_hex4 hn, hhi, if_false]

/-- A surrogate pair reads back as the code point it splits. -/
theorem readEscape_pair {hi lo : Nat} (hhi : 55296 ≤ hi ∧ hi < 56320)
    (hlo : 56320 ≤ lo ∧ lo < 57344) (rest : List Char) :
    readEscape ('u' :: (hex4 hi ++ '\\' :: 'u' :: (hex4 lo ++ rest)))
      = some (65536 + (hi - 55296) * 1024 + (lo - 56320), rest) := by
  have hhi4 : hi < 65536 := by omega
  have hlo4 : lo < 65536 := by omega
  simp only [readEscape, if_true, readHex4_hex4 hhi4, hhi, and_self, readLow,
    readHex4_hex4 hlo4, hlo]

/-- A character either prints as itself, and is then neither quote, backslash nor control, or as
    an escape that reads back as its code point. -/
theorem escapeChar_cases (c : Char) :
    (escapeChar c = [c] ∧ c ≠ '"' ∧ c ≠ '\\' ∧ ¬ c.toNat < 32)
      ∨ ∃ e, escapeChar c = '\\' :: e ∧ ∀ rest, readEscape (e ++ rest) = some (c.toNat, rest) := by
  by_cases h1 : c = '"'
  · exact Or.inr ⟨['"'], by rw [h1]; rfl, fun rest => by rw [h1]; rfl⟩
  by_cases h2 : c = '\\'
  · exact Or.inr ⟨['\\'], by rw [h2]; rfl, fun rest => by rw [h2]; rfl⟩
  by_cases h3 : c = '\n'
  · exact Or.inr ⟨['n'], by rw [h3]; rfl, fun rest => by rw [h3]; rfl⟩
  by_cases h4 : c = '\r'
  · exact Or.inr ⟨['r'], by rw [h4]; rfl, fun rest => by rw [h4]; rfl⟩
  by_cases h5 : c = '\t'
  · exact Or.inr ⟨['t'], by rw [h5]; rfl, fun rest => by rw [h5]; rfl⟩
  by_cases h6 : c = '\u0008'
  · exact Or.inr ⟨['b'], by rw [h6]; rfl, fun rest => by rw [h6]; rfl⟩
  by_cases h7 : c = '\u000c'
  · exact Or.inr ⟨['f'], by rw [h7]; rfl, fun rest => by rw [h7]; rfl⟩
  -- printable ASCII stands as it is, the rest is hexadecimal, in two parts above 65535
  have hsur := toNat_not_surrogate c
  have hmax := toNat_lt c
  simp only [escapeChar, h1, h2, h3, h4, h5, h6, h7, if_false]
  generalize c.toNat = n at hsur hmax
  by_cases h8 : 32 ≤ n ∧ n ≤ 126
  · exact Or.inl ⟨by rw [if_pos h8], h1, h2, by omega⟩
  right
  rw [if_neg h8]
  by_cases h9 : n < 65536
  · refine ⟨'u' :: hex4 n, by rw [if_pos h9], fun rest => ?_⟩
    rw [List.cons_append, readEscape_hex4 h9 hsur]
  · refine ⟨_, by rw [if_neg h9], fun rest => ?_⟩
    have hjoin : 65536 + (55296 + (n - 65536) / 1024 - 55296) * 1024
        + (56320 + (n - 65536) % 1024 - 56320) = n := by omega
    simp only [List.cons_append, List.append_assoc]
    rw [readEscape_pair (by omega) (by omega), hjoin]

theorem length_escapeChar_pos (c : Char) : 0 < (escapeChar c).length := by
  rcases escapeChar_cases c with ⟨h, -⟩ | ⟨e, h, -⟩ <;> rw [h] <;> simp

/-- **Round trip** for string contents: the reader stops at the closing quote with the code points
    of the characters the printer started from. -/
theorem scanString_flatMap (s rest : List Char) : ∀ fuel, (s.flatMap escapeChar).length < fuel →
    scanString fuel (s.flatMap escapeChar ++ '"' :: rest) = some (s.map Char.toNat, rest) := by
  induction s with
  | nil =>
    intro fuel hf
    cases fuel with
    | zero => omega
    | succ fuel => simp [scanString]
  | cons c s ih =>
    intro fuel hf
    have hpos := length_escapeChar_pos c
    simp only [List.flatMap_cons, List.length_append] at hf
    cases fuel with
    | zero => omega
    | succ fuel =>
      have hrec := ih fuel (by omega)
      simp only [List.flatMap_cons, List.append_assoc]
      rcases escapeChar_cases c with ⟨htext, hq, hb, hctl⟩ | ⟨e, htext, hread⟩
      · rw [htext]
        simp [scanString, hq, hb, hctl, hrec]
      · rw [htext]
        simp [scanString, hread, hrec]

end JsonText
