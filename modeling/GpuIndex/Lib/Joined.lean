/-
  Fields joined by a separator.

  A joined text is taken apart again at its first separator when the first field has none, and at
  its last when the last field has none; without that knowledge a separator may have moved
  (`joined_eq_iff`).  The decimal text of an integer has no colon, and
  distinct integers have distinct texts.
-/
import Mathlib.Data.List.Basic

namespace Joined

variable {α : Type} {x : α} {a a' b b' : List α}

/-- Taken apart at the first separator. -/
theorem first_inj (ha : x ∉ a) (ha' : x ∉ a') (h : a ++ x :: b = a' ++ x :: b') :
    a = a' ∧ b = b' := by
  induction a generalizing a' with
  | nil =>
    cases a' with
    | nil => exact ⟨rfl, (List.cons.inj h).2⟩
    | cons c a' => exact absurd (List.cons.inj h).1 fun hc => ha' (hc ▸ List.mem_cons_self)
  | cons c a ih =>
    cases a' with
    | nil => exact absurd (List.cons.inj h).1 fun hc => ha (hc ▸ List.mem_cons_self)
    | cons c' a' =>
      obtain ⟨hc, htail⟩ := List.cons.inj h
      obtain ⟨haa, hbb⟩ := ih (fun hx => ha (List.mem_cons_of_mem _ hx))
        (fun hx => ha' (List.mem_cons_of_mem _ hx)) htail
      exact ⟨by rw [hc, haa], hbb⟩

/-- Taken apart at the last separator. -/
theorem last_inj (hb : x ∉ b) (hb' : x ∉ b') (h : a ++ x :: b = a' ++ x :: b') :
    a = a' ∧ b = b' := by
  have hrev : b.reverse ++ x :: a.reverse = b'.reverse ++ x :: a'.reverse := by
    simpa using congrArg List.reverse h
  obtain ⟨hbb, haa⟩ := first_inj (mt List.mem_reverse.mp hb) (mt List.mem_reverse.mp hb') hrev
  exact ⟨List.reverse_injective haa, List.reverse_injective hbb⟩

/-- The second text has its separator further right: part of its first field is in the second field
    of the first text. -/
def Shifted (x : α) (a b a' b' : List α) : Prop := ∃ c, a' = a ++ x :: c ∧ b = c ++ x :: b'

/-- **Two ways to join one text**: the same fields, or a separator that is part of a field. -/
theorem joined_eq_iff : a ++ x :: b = a' ++ x :: b'
    ↔ (a = a' ∧ b = b') ∨ Shifted x a b a' b' ∨ Shifted x a' b' a b := by
  rw [List.append_eq_append_iff]
  constructor
  · rintro (⟨c, ha, hb⟩ | ⟨c, ha, hb⟩)
    · cases c with
      | nil => exact .inl ⟨by simp [ha], (List.cons.inj hb).2⟩
      | cons y c =>
        obtain ⟨rfl, htail⟩ := List.cons.inj hb
        exact .inr (.inl ⟨c, ha, htail⟩)
    · cases c with
      | nil => exact .inl ⟨by simp [ha], (List.cons.inj hb).2.symm⟩
      | cons y c =>
        obtain ⟨rfl, htail⟩ := List.cons.inj hb
        exact .inr (.inr ⟨c, ha, htail⟩)
  · rintro (⟨rfl, rfl⟩ | ⟨c, rfl, rfl⟩ | ⟨c, rfl, rfl⟩)
    · exact .inl ⟨[], (List.append_nil _).symm, rfl⟩
    · exact .inl ⟨x :: c, rfl, rfl⟩
    · exact .inr ⟨x :: c, rfl, rfl⟩

/-! ## Decimal texts -/

theorem toDigits_injective : Function.Injective (Nat.toDigits 10) := by
  intro m n h
  have hm := Nat.ofDigitChars_ten_toDigits (n := m)
  rw [h, Nat.ofDigitChars_ten_toDigits] at hm
  exact hm.symm

/-- A digit is not any other character. -/
theorem not_mem_toDigits {c : Char} (hc : c.isDigit = false) (n : Nat) :
    c ∉ Nat.toDigits 10 n := by
  intro hmem
  have hdigit := Nat.isDigit_of_mem_toDigits (b := 10) (n := n) (by decide) (by decide) hmem
  rw [hc] at hdigit
  cases hdigit

theorem toList_toString_ofNat (n : Nat) : (toString (Int.ofNat n)).toList = Nat.toDigits 10 n :=
  Nat.toList_repr

theorem toList_toString_negSucc (n : Nat) :
    (toString (Int.negSucc n)).toList = '-' :: Nat.toDigits 10 (n + 1) := by
  show ("-" ++ Nat.repr (n + 1)).toList = _
  rw [String.toList_append, Nat.toList_repr]
  rfl

/-- The decimal text of an integer has only digits and a minus sign. -/
theorem not_mem_toString {c : Char} (hc : c.isDigit = false) (hm : c ≠ '-') (n : Int) :
    c ∉ (toString n).toList := by
  cases n with
  | ofNat n =>
    rw [toList_toString_ofNat]
    exact not_mem_toDigits hc n
  | negSucc n =>
    rw [toList_toString_negSucc, List.mem_cons, not_or]
    exact ⟨hm, not_mem_toDigits hc (n + 1)⟩

/-- Distinct integers have distinct texts. -/
theorem toString_injective : Function.Injective (toString : Int → String) := by
  intro m n h
  have htext := congrArg String.toList h
  cases m with
  | ofNat m =>
    cases n with
    | ofNat n =>
      rw [toList_toString_ofNat, toList_toString_ofNat] at htext
      rw [toDigits_injective htext]
    | negSucc n =>
      rw [toList_toString_ofNat, toList_toString_negSucc] at htext
      exact absurd (htext ▸ List.mem_cons_self) (not_mem_toDigits (c := '-') rfl m)
  | negSucc m =>
    cases n with
    | ofNat n =>
      rw [toList_toString_ofNat, toList_toString_negSucc] at htext
      exact absurd (htext ▸ List.mem_cons_self) (not_mem_toDigits (c := '-') rfl n)
    | negSucc n =>
      rw [toList_toString_negSucc, toList_toString_negSucc] at htext
      rw [Nat.succ.inj (toDigits_injective (List.cons.inj htext).2)]

end Joined
