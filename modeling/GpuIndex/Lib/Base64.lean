/-
  Base64 with the URL-safe alphabet, printed and read.

  The printer pads its last group with `'='`.  The reader is the lenient one: it reads character by
  character with the position inside the group as its state, takes both alphabets, passes over
  every character outside them, passes over padding that comes too early, and stops at the padding
  that completes a group.  A text that ends inside a group is refused.

  **The round trip** `b64decode_b64encode`: the bytes printed are the bytes read.
-/
import Mathlib.Data.Nat.Notation
import Mathlib.Tactic.IntervalCases

namespace Base64

/-! ## The alphabet -/

/-- The character of a six-bit digit. -/
def sextetChar (n : Nat) : Char :=
  if n < 26 then Char.ofNat (65 + n)
  else if n < 52 then Char.ofNat (71 + n)
  else if n < 62 then Char.ofNat (n - 4)
  else if n = 62 then '-' else '_'

/-- The six-bit digit of a character, in either alphabet. -/
def sextet? (c : Char) : Option Nat :=
  if 'A' ≤ c ∧ c ≤ 'Z' then some (c.toNat - 65)
  else if 'a' ≤ c ∧ c ≤ 'z' then some (c.toNat - 71)
  else if '0' ≤ c ∧ c ≤ '9' then some (c.toNat + 4)
  else if c = '-' ∨ c = '+' then some 62
  else if c = '_' ∨ c = '/' then some 63
  else none

theorem sextet?_sextetChar {n : Nat} (h : n < 64) : sextet? (sextetChar n) = some n := by
  interval_cases n <;> decide

theorem sextetChar_ne_pad {n : Nat} (h : n < 64) : sextetChar n ≠ '=' := by
  interval_cases n <;> decide

/-! ## Printing -/

/-- Four digits for every three bytes, the last group padded. -/
def b64encode : List UInt8 → List Char
  | [] => []
  | [a] =>
    [sextetChar (a.toNat / 4), sextetChar (a.toNat % 4 * 16), '=', '=']
  | [a, b] =>
    [sextetChar (a.toNat / 4), sextetChar (a.toNat % 4 * 16 + b.toNat / 16),
      sextetChar (b.toNat % 16 * 4), '=']
  | a :: b :: c :: rest =>
    sextetChar (a.toNat / 4) :: sextetChar (a.toNat % 4 * 16 + b.toNat / 16)
      :: sextetChar (b.toNat % 16 * 4 + c.toNat / 64) :: sextetChar (c.toNat % 64)
      :: b64encode rest

/-! ## Reading -/

/-- The position inside a group of four digits, with the bits left over from the digit before. -/
inductive Quad where
  | first
  | second (left : Nat)
  | third (left : Nat)
  | fourth (left : Nat)
  deriving DecidableEq

/-- The number of digits read of the group. -/
def Quad.pos : Quad → Nat
  | .first => 0
  | .second _ => 1
  | .third _ => 2
  | .fourth _ => 3

/-- Take a digit: the next position, and the byte that is complete now. -/
def Quad.push (t : Nat) : Quad → Quad × List UInt8
  | .first => (.second t, [])
  | .second left => (.third (t % 16), [UInt8.ofNat (left * 4 + t / 16)])
  | .third left => (.fourth (t % 4), [UInt8.ofNat (left * 16 + t / 4)])
  | .fourth left => (.first, [UInt8.ofNat (left * 64 + t)])

/-- Read from a position, with the padding characters counted since the last digit. -/
def a2b (quad : Quad) (pads : Nat) : List Char → Option (List UInt8)
  | [] => if quad = .first then some [] else none
  | c :: s =>
    if c = '=' then
      if 2 ≤ quad.pos then
        if 4 ≤ quad.pos + (pads + 1) then some [] else a2b quad (pads + 1) s
      else a2b quad pads s
    else match sextet? c with
      | none => a2b quad pads s
      | some t => (a2b (quad.push t).1 0 s).map ((quad.push t).2 ++ ·)

/-- Read a whole text. -/
def b64decode (s : List Char) : Option (List UInt8) := a2b .first 0 s

/-! ## Round trip -/

theorem a2b_sextetChar {n : Nat} (h : n < 64) (quad : Quad) (pads : Nat) (s : List Char) :
    a2b quad pads (sextetChar n :: s)
      = (a2b (quad.push n).1 0 s).map ((quad.push n).2 ++ ·) := by
  rw [a2b, if_neg (sextetChar_ne_pad h)]
  simp only [sextet?_sextetChar h]

/-- The padding of a group with one byte, and of a group with two. -/
theorem a2b_pad (left : Nat) :
    a2b (.third left) 0 ['=', '='] = some [] ∧ a2b (.fourth left) 0 ['='] = some [] :=
  ⟨rfl, rfl⟩

theorem ofNat_eq_of_toNat {n : Nat} {a : UInt8} (h : n = a.toNat) : UInt8.ofNat n = a := by
  rw [h, UInt8.ofNat_toNat]

/-- **Round trip**: what is printed is read back. -/
theorem b64decode_b64encode (bytes : List UInt8) : b64decode (b64encode bytes) = some bytes := by
  unfold b64decode
  -- by groups of three bytes; the last group may have one byte, or two
  induction bytes using b64encode.induct with
  | case1 => rfl
  | case2 a =>
    have ha := a.toNat_lt
    have hfst : UInt8.ofNat (a.toNat / 4 * 4 + a.toNat % 4 * 16 / 16) = a :=
      ofNat_eq_of_toNat (by omega)
    rw [b64encode, a2b_sextetChar (by omega), Quad.push, a2b_sextetChar (by omega), Quad.push]
    simp only [(a2b_pad _).1, Option.map_some, List.nil_append, List.append_nil, hfst]
  | case3 a b =>
    have ha := a.toNat_lt
    have hb := b.toNat_lt
    have hfst : UInt8.ofNat (a.toNat / 4 * 4 + (a.toNat % 4 * 16 + b.toNat / 16) / 16) = a :=
      ofNat_eq_of_toNat (by omega)
    have hsnd : UInt8.ofNat ((a.toNat % 4 * 16 + b.toNat / 16) % 16 * 16
        + b.toNat % 16 * 4 / 4) = b :=
      ofNat_eq_of_toNat (by omega)
    rw [b64encode, a2b_sextetChar (by omega), Quad.push, a2b_sextetChar (by omega), Quad.push,
      a2b_sextetChar (by omega), Quad.push]
    simp only [(a2b_pad _).2, Option.map_some, List.nil_append, List.cons_append, hfst, hsnd]
  | case4 a b c rest ih =>
    have ha := a.toNat_lt
    have hb := b.toNat_lt
    have hc := c.toNat_lt
    have hfst : UInt8.ofNat (a.toNat / 4 * 4 + (a.toNat % 4 * 16 + b.toNat / 16) / 16) = a :=
      ofNat_eq_of_toNat (by omega)
    have hsnd : UInt8.ofNat ((a.toNat % 4 * 16 + b.toNat / 16) % 16 * 16
        + (b.toNat % 16 * 4 + c.toNat / 64) / 4) = b :=
      ofNat_eq_of_toNat (by omega)
    have hthd : UInt8.ofNat ((b.toNat % 16 * 4 + c.toNat / 64) % 4 * 64 + c.toNat % 64) = c :=
      ofNat_eq_of_toNat (by omega)
    rw [b64encode, a2b_sextetChar (by omega), Quad.push, a2b_sextetChar (by omega), Quad.push,
      a2b_sextetChar (by omega), Quad.push, a2b_sextetChar (by omega), Quad.push]
    simp only [ih, Option.map_some, List.nil_append, List.cons_append, hfst, hsnd, hthd]

end Base64
