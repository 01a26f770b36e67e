/-
  Column types.

  A stored value carries the proof that its column accepts it: integers fit their width, text fits
  its length and has no NUL, a `NUMERIC(p, s)` has at most `p` digits and is kept as the integer
  number of its last decimal place.  The functions `of…?` are what binding a value to a column does;
  `none` is a value the driver or the server refuses.
-/
import Mathlib.Algebra.Order.Floor.Ring
import Mathlib.Data.Rat.Floor
import Mathlib.Tactic.Linarith
import Mathlib.Tactic.FieldSimp

namespace GpuIndex

/-! ## Integers -/

/-- `INTEGER`: 32 bits, signed. -/
structure Integer where
  val : Int
  range : -2147483648 ≤ val ∧ val < 2147483648
  deriving DecidableEq

/-- `BIGINT`: 64 bits, signed. -/
structure BigInteger where
  val : Int
  range : -9223372036854775808 ≤ val ∧ val < 9223372036854775808
  deriving DecidableEq

theorem Integer.val_injective : Function.Injective Integer.val := by
  rintro ⟨a, ha⟩ ⟨b, hb⟩ rfl
  rfl

theorem BigInteger.val_injective : Function.Injective BigInteger.val := by
  rintro ⟨a, ha⟩ ⟨b, hb⟩ rfl
  rfl

instance : LinearOrder Integer := LinearOrder.lift' Integer.val Integer.val_injective

instance : LinearOrder BigInteger := LinearOrder.lift' BigInteger.val BigInteger.val_injective

/-- Bind an integer to an `INTEGER`. -/
def Integer.ofInt? (n : Int) : Option Integer :=
  if h : -2147483648 ≤ n ∧ n < 2147483648 then some ⟨n, h⟩ else none

/-- Bind an integer to a `BIGINT`. -/
def BigInteger.ofInt? (n : Int) : Option BigInteger :=
  if h : -9223372036854775808 ≤ n ∧ n < 9223372036854775808 then some ⟨n, h⟩ else none

@[simp] theorem Integer.ofInt?_val (n : Integer) : Integer.ofInt? n.val = some n := dif_pos n.range

@[simp] theorem BigInteger.ofInt?_val (n : BigInteger) : BigInteger.ofInt? n.val = some n :=
  dif_pos n.range

theorem Integer.ofInt?_eq_some {n : Int} {i : Integer} (h : Integer.ofInt? n = some i) :
    i.val = n := by
  unfold Integer.ofInt? at h
  split at h
  · exact congrArg Integer.val (Option.some.inj h).symm
  · cases h

/-! ## Text -/

/-- No NUL: the server refuses a text that has one. -/
def NoNul (s : String) : Prop := '\x00' ∉ s.toList

instance (s : String) : Decidable (NoNul s) := inferInstanceAs (Decidable ('\x00' ∉ s.toList))

/-- `VARCHAR(n)`. -/
structure Varchar (n : Nat) where
  val : String
  length_le : val.length ≤ n
  noNul : NoNul val
  deriving DecidableEq

theorem Varchar.val_injective {n : Nat} : Function.Injective (Varchar.val (n := n)) := by
  rintro ⟨a, ha, ha'⟩ ⟨b, hb, hb'⟩ rfl
  rfl

/-- Store a text in a `VARCHAR(n)`. -/
def Varchar.ofString? (n : Nat) (s : String) : Option (Varchar n) :=
  if h : s.length ≤ n ∧ NoNul s then some ⟨s, h.1, h.2⟩ else none

theorem Varchar.ofString?_eq_some {n : Nat} {s : String} {v : Varchar n}
    (h : Varchar.ofString? n s = some v) : v.val = s := by
  unfold Varchar.ofString? at h
  split at h
  · exact congrArg Varchar.val (Option.some.inj h).symm
  · cases h

/-! ## Fixed-point numbers -/

/-- `NUMERIC(precision, scale)`, counted in units of the last decimal place. -/
structure Numeric (precision scale : Nat) where
  scaled : Int
  range : scaled.natAbs < 10 ^ precision
  deriving DecidableEq

/-- The number itself. -/
def Numeric.value {precision scale : Nat} (x : Numeric precision scale) : ℚ :=
  (x.scaled : ℚ) / 10 ^ scale

/-- Nearest integer, halves away from zero. -/
def roundHalfAway (q : ℚ) : Int := if 0 ≤ q then ⌊q + 1 / 2⌋ else -⌊-q + 1 / 2⌋

/-- Store an exact number: round it to the scale, refuse it when it has too many digits then. -/
def Numeric.ofRat? (precision scale : Nat) (q : ℚ) : Option (Numeric precision scale) :=
  if h : (roundHalfAway (q * 10 ^ scale)).natAbs < 10 ^ precision
  then some ⟨roundHalfAway (q * 10 ^ scale), h⟩ else none

/-- A number rounds to zero or less exactly below one half. -/
theorem roundHalfAway_pos {q : ℚ} (hq : 0 ≤ q) : 0 < roundHalfAway q ↔ 1 / 2 ≤ q := by
  rw [roundHalfAway, if_pos hq, Int.floor_pos]
  constructor <;> intro h <;> linarith

/-- Rounding keeps an integer upper bound. -/
theorem roundHalfAway_le {q : ℚ} {n : Int} (hq : 0 ≤ q) (h : q ≤ n) : roundHalfAway q ≤ n := by
  have hlt : q + 1 / 2 < ((n + 1 : Int) : ℚ) := by
    push_cast
    linarith
  rw [roundHalfAway, if_pos hq]
  exact Int.lt_add_one_iff.mp (Int.floor_lt.mpr hlt)

theorem roundHalfAway_nonneg {q : ℚ} (hq : 0 ≤ q) : 0 ≤ roundHalfAway q := by
  rw [roundHalfAway, if_pos hq]
  exact Int.floor_nonneg.mpr (by linarith)

end GpuIndex
