/-
  Fixed-width and free-width decimal digits in text.

  `pad k n` prints `n` modulo `10^k` with exactly `k` digits, `takeDigits` reads exactly `k` digits
  off the front of a text.  `takeDigits_pad` says the reader undoes the printer whatever follows;
  everything that prints dates, times and offsets is assembled from this one fact.
-/
import Mathlib.Data.Nat.Notation
import Mathlib.Tactic.Ring

namespace Digits

/-- The digit of a character. -/
def digitVal? (c : Char) : Option Nat := if c.isDigit then some (c.toNat - 48) else none

/-- Read exactly `k` digits, most significant first, onto an accumulator. -/
def takeDigits : Nat → Nat → List Char → Option (Nat × List Char)
  | 0, acc, cs => some (acc, cs)
  | _ + 1, _, [] => none
  | k + 1, acc, c :: cs =>
    match digitVal? c with
    | some d => takeDigits k (acc * 10 + d) cs
    | none => none

/-- `n` modulo `10^k`, zero-padded to `k` digits. -/
def pad : Nat → Nat → List Char
  | 0, _ => []
  | k + 1, n => Nat.digitChar (n / 10 ^ k % 10) :: pad k n

theorem digitVal?_digitChar : ∀ d : Nat, d < 10 → digitVal? (Nat.digitChar d) = some d := by
  intro d hd
  match d, hd with
  | 0, _ | 1, _ | 2, _ | 3, _ | 4, _ | 5, _ | 6, _ | 7, _ | 8, _ | 9, _ => decide

/-- **The reader undoes the printer**, whatever text follows. -/
theorem takeDigits_pad (k : Nat) : ∀ (acc n : Nat) (rest : List Char), n < 10 ^ k →
    takeDigits k acc (pad k n ++ rest) = some (acc * 10 ^ k + n, rest) := by
  suffices h : ∀ (acc n : Nat) (rest : List Char),
      takeDigits k acc (pad k n ++ rest) = some (acc * 10 ^ k + n % 10 ^ k, rest) by
    intro acc n rest hn
    rw [h, Nat.mod_eq_of_lt hn]
  induction k with
  | zero => intro acc n rest; simp [takeDigits, pad, Nat.mod_one]
  | succ k ih =>
    intro acc n rest
    have hsplit : n % 10 ^ (k + 1) = n % 10 ^ k + 10 ^ k * (n / 10 ^ k % 10) := by
      rw [Nat.pow_succ, Nat.mod_mul]
    simp only [pad, List.cons_append, takeDigits,
      digitVal?_digitChar _ (Nat.mod_lt _ (by decide : 10 > 0)), ih]
    rw [hsplit, Nat.pow_succ]
    congr 2
    ring

/-- The printer emits digits only. -/
theorem isDigit_of_mem_pad {k n : Nat} {c : Char} (h : c ∈ pad k n) : c.isDigit = true := by
  induction k with
  | zero => simp [pad] at h
  | succ k ih =>
    rcases List.mem_cons.mp h with h | h
    · rw [h]
      rw [Nat.isDigit_digitChar, decide_eq_true_eq]
      exact Nat.mod_lt _ (by decide)
    · exact ih h

/-- A printed number never starts with a non-digit. -/
theorem pad_append_ne_cons {k n : Nat} {c : Char} (hc : c.isDigit = false) (rest t : List Char) :
    pad (k + 1) n ++ rest ≠ c :: t := by
  intro h
  have hmem : c ∈ pad (k + 1) n := by
    rw [pad, List.cons_append, List.cons.injEq] at h
    rw [pad, h.1]
    exact List.mem_cons_self
  rw [isDigit_of_mem_pad hmem] at hc
  exact Bool.noConfusion hc

theorem length_pad (k n : Nat) : (pad k n).length = k := by
  induction k with
  | zero => rfl
  | succ k ih => simp [pad, ih]

end Digits
