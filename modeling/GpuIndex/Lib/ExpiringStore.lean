/-
  A keyed store whose entries expire.

  An entry carries the time it dies at; it is not removed then, it is just no longer seen
  (`peek`).  It also carries its `born` stamp, fresh whenever a key that was not there is put:
  two looks that find the same stamp know that the key has been there all the time between them,
  whatever was written to it.
-/
import Mathlib.Data.List.AList

namespace ExpiringStore

/-- A value, the time it dies at, and the stamp of when its key appeared. -/
structure Entry (ν : Type) where
  value : ν
  deadline : Nat
  born : Nat

/-- Entries by key, and the number of stamps given out. -/
structure Store (κ ν : Type) where
  entries : AList fun _ : κ => Entry ν
  births : Nat

variable {κ ν : Type} [DecidableEq κ]

/-- Nothing stored. -/
def empty : Store κ ν := ⟨∅, 0⟩

/-- The entry of a key, unless it has died. -/
def Store.peek (s : Store κ ν) (now : Nat) (k : κ) : Option (Entry ν) :=
  (s.entries.lookup k).filter fun e => now < e.deadline

/-- Write a key. -/
def Store.put (s : Store κ ν) (now : Nat) (k : κ) (v : ν) (deadline : Nat) : Store κ ν :=
  match s.peek now k with
  | some e => { s with entries := s.entries.insert k ⟨v, deadline, e.born⟩ }
  | none => ⟨s.entries.insert k ⟨v, deadline, s.births⟩, s.births + 1⟩

/-- Remove a key. -/
def Store.remove (s : Store κ ν) (k : κ) : Store κ ν := { s with entries := s.entries.erase k }

/-- The keys that are there. -/
def Store.liveKeys (s : Store κ ν) (now : Nat) : List κ :=
  s.entries.keys.filter fun k => (s.peek now k).isSome

section Peek

variable (s : Store κ ν) {now : Nat} {k k' : κ}

@[simp] theorem peek_empty : (empty : Store κ ν).peek now k = none := rfl

theorem peek_eq_some {s : Store κ ν} {e : Entry ν} :
    s.peek now k = some e ↔ s.entries.lookup k = some e ∧ now < e.deadline := by
  simp [Store.peek, Option.filter_eq_some_iff]

theorem lookup_put_self (now : Nat) (k : κ) (v : ν) (deadline : Nat) :
    ∃ born, (s.put now k v deadline).entries.lookup k = some ⟨v, deadline, born⟩ := by
  unfold Store.put
  split
  · exact ⟨_, AList.lookup_insert _⟩
  · exact ⟨_, AList.lookup_insert _⟩

theorem lookup_put_ne (now : Nat) (v : ν) (deadline : Nat) (h : k' ≠ k) :
    (s.put now k v deadline).entries.lookup k' = s.entries.lookup k' := by
  unfold Store.put
  split <;> exact AList.lookup_insert_ne h

theorem peek_put_ne (at' : Nat) (v : ν) (deadline : Nat) (h : k' ≠ k) :
    (s.put at' k v deadline).peek now k' = s.peek now k' := by
  rw [Store.peek, lookup_put_ne s at' v deadline h, Store.peek]

/-- What is seen of a key after it was written: the new value, until it dies. -/
theorem peek_put_self {at' : Nat} {v : ν} {deadline : Nat} {e : Entry ν}
    (h : (s.put at' k v deadline).peek now k = some e) :
    e.value = v ∧ e.deadline = deadline ∧ now < deadline := by
  obtain ⟨born, hlookup⟩ := lookup_put_self s at' k v deadline
  obtain ⟨hsome, hlt⟩ := peek_eq_some.mp h
  rw [hlookup] at hsome
  cases hsome
  exact ⟨rfl, rfl, hlt⟩

@[simp] theorem peek_remove_self : (s.remove k).peek now k = none := by
  simp [Store.peek, Store.remove]

theorem peek_remove_ne (h : k' ≠ k) : (s.remove k).peek now k' = s.peek now k' := by
  simp [Store.peek, Store.remove, AList.lookup_erase_ne h]

/-- What is seen later was seen before, as long as nothing is written. -/
theorem peek_of_le {s : Store κ ν} {later : Nat} {e : Entry ν} (h : s.peek later k = some e)
    (hle : now ≤ later) : s.peek now k = some e := by
  rw [peek_eq_some] at h ⊢
  exact ⟨h.1, by omega⟩

theorem mem_liveKeys {s : Store κ ν} : k ∈ s.liveKeys now ↔ (s.peek now k).isSome := by
  rw [Store.liveKeys, List.mem_filter, ← AList.mem_keys, and_iff_right_iff_imp]
  intro h
  obtain ⟨e, he⟩ := Option.isSome_iff_exists.mp h
  exact AList.lookup_isSome.mp (by rw [(peek_eq_some.mp he).1]; rfl)

end Peek

end ExpiringStore
