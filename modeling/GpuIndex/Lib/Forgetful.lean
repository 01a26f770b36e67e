/-
  Dropping repeats with a memory that is emptied when it is full.

  Keys come one after the other.  A key that is remembered is dropped, any other passes and is
  remembered, and the key that fills the memory empties it.  Nothing is lost this way
  (`mem_passed`), but a key that was forgotten passes again.  So what passes has no repeats exactly
  if no key comes back after it was forgotten (**`nodup_passed_iff`**), which is so as long as no
  more keys pass than the memory holds (`nodup_passed_of_length_le`).
-/
import Mathlib.Data.Finset.Card
import Mathlib.Data.List.Nodup

namespace Forgetful

variable {κ : Type} {capacity : Nat} {seen : Finset κ}

/-- A set that is full is forgotten. -/
def heldOf (capacity : Nat) (seen : Finset κ) : Finset κ := if seen.card = capacity then ∅ else seen

theorem heldOf_of_lt (h : seen.card < capacity) : heldOf capacity seen = seen := if_neg h.ne

theorem heldOf_subset : heldOf capacity seen ⊆ seen := by
  unfold heldOf
  split
  · exact Finset.empty_subset seen
  · exact Finset.Subset.refl seen

section Filter

variable [DecidableEq κ] (capacity)

/-- What is remembered after one more key. -/
def remember (memory : Finset κ) (k : κ) : Finset κ :=
  if k ∈ memory then memory else heldOf capacity (insert k memory)

/-- What is remembered after the keys. -/
def memoryFrom (memory : Finset κ) (ks : List κ) : Finset κ := ks.foldl (remember capacity) memory

/-- The keys that pass. -/
def passedFrom (memory : Finset κ) : List κ → List κ
  | [] => []
  | k :: ks =>
    if k ∈ memory then passedFrom memory ks else k :: passedFrom (remember capacity memory k) ks

/-- The keys that pass when nothing is remembered at first. -/
def passed (ks : List κ) : List κ := passedFrom capacity ∅ ks

/-- No key comes again after it was forgotten. -/
def NoneComesBack (ks : List κ) : Prop :=
  ∀ before k after, ks = before ++ k :: after → k ∈ before → k ∈ memoryFrom capacity ∅ before

variable {capacity} {memory : Finset κ} {ks ks' : List κ} {k : κ}

theorem remember_of_mem (h : k ∈ memory) : remember capacity memory k = memory := if_pos h

theorem remember_of_notMem (h : k ∉ memory) :
    remember capacity memory k = heldOf capacity (insert k memory) := if_neg h

/-- Only what was there, and the key, is remembered. -/
theorem mem_of_mem_remember {k' : κ} (h : k' ∈ remember capacity memory k) :
    k' = k ∨ k' ∈ memory := by
  unfold remember at h
  split at h
  · exact .inr h
  · exact Finset.mem_insert.mp (heldOf_subset h)

/-- Keys that pass first, then those that pass after them. -/
theorem passedFrom_append : passedFrom capacity memory (ks ++ ks')
    = passedFrom capacity memory ks ++ passedFrom capacity (memoryFrom capacity memory ks) ks' := by
  induction ks generalizing memory with
  | nil => rfl
  | cons k ks ih =>
    rw [List.cons_append, passedFrom, passedFrom, memoryFrom, List.foldl_cons]
    split
    · rename_i hk
      rw [remember_of_mem hk]
      exact ih
    · rw [ih, List.cons_append]
      rfl

theorem mem_of_mem_passedFrom (h : k ∈ passedFrom capacity memory ks) : k ∈ ks := by
  induction ks generalizing memory with
  | nil => exact h
  | cons k' ks ih =>
    rw [passedFrom] at h
    split at h
    · exact List.mem_cons_of_mem k' (ih h)
    · rcases List.mem_cons.mp h with rfl | h
      · exact List.mem_cons_self
      · exact List.mem_cons_of_mem k' (ih h)

/-- A key that is not remembered at first passes at least once. -/
theorem mem_passedFrom (hk : k ∉ memory) (h : k ∈ ks) : k ∈ passedFrom capacity memory ks := by
  induction ks generalizing memory with
  | nil => exact h
  | cons k' ks ih =>
    rw [passedFrom]
    split
    · rename_i hk'
      rcases List.mem_cons.mp h with rfl | h
      · exact absurd hk' hk
      · exact ih hk h
    · rcases List.mem_cons.mp h with rfl | h
      · exact List.mem_cons_self
      · by_cases heq : k = k'
        · rw [heq]
          exact List.mem_cons_self
        · have hnot : k ∉ remember capacity memory k' := fun hmem =>
            (mem_of_mem_remember hmem).elim heq hk
          exact List.mem_cons_of_mem k' (ih hnot h)

/-- **Nothing is lost**: the keys that pass are the keys that come. -/
theorem mem_passed : k ∈ passed capacity ks ↔ k ∈ ks :=
  ⟨mem_of_mem_passedFrom, mem_passedFrom (Finset.notMem_empty k)⟩

/-- One key more. -/
theorem passed_concat : passed capacity (ks ++ [k])
    = passed capacity ks ++ if k ∈ memoryFrom capacity ∅ ks then [] else [k] := by
  rw [passed, passedFrom_append, ← passed]
  rfl

theorem noneComesBack_concat : NoneComesBack capacity (ks ++ [k])
    ↔ NoneComesBack capacity ks ∧ (k ∈ ks → k ∈ memoryFrom capacity ∅ ks) := by
  constructor
  · intro h
    refine ⟨fun before k' after hks => ?_, h ks k [] rfl⟩
    exact h before k' (after ++ [k]) (by rw [hks, List.append_assoc, List.cons_append])
  · rintro ⟨hks, hk⟩ before k' after heq
    rcases List.eq_nil_or_concat after with rfl | ⟨after, last, rfl⟩
    · obtain ⟨rfl, hlast⟩ := List.append_inj' heq rfl
      obtain rfl := List.singleton_inj.mp hlast
      exact hk
    · rw [List.concat_eq_append, ← List.cons_append, ← List.append_assoc] at heq
      exact hks before k' after (List.append_inj' heq rfl).1

/-- **What passes has no repeats** exactly if no key comes back after it was forgotten. -/
theorem nodup_passed_iff : (passed capacity ks).Nodup ↔ NoneComesBack capacity ks := by
  induction ks using List.reverseRecOn with
  | nil => exact ⟨fun _ before k after h => by simp at h, fun _ => List.nodup_nil⟩
  | append_singleton ks k ih =>
    rw [passed_concat, noneComesBack_concat, ← ih]
    split
    · rename_i hk
      rw [List.append_nil]
      exact (and_iff_left fun _ => hk).symm
    · rename_i hk
      rw [List.nodup_append, and_iff_right (List.nodup_singleton k)]
      refine and_congr_right fun _ => ?_
      simp only [List.mem_singleton, forall_eq, mem_passed]
      exact ⟨fun h hmem => absurd rfl (h k hmem), fun h k' hk' heq => hk (h (heq ▸ hk'))⟩

theorem toFinset_passed : (passed capacity ks).toFinset = ks.toFinset := by
  ext k
  rw [List.mem_toFinset, List.mem_toFinset, mem_passed]

/-- The keys that pass are as many as the different keys that come, exactly if none comes back after
    it was forgotten. -/
theorem card_toFinset_eq_iff :
    ks.toFinset.card = (passed capacity ks).length ↔ NoneComesBack capacity ks := by
  rw [← nodup_passed_iff, ← toFinset_passed]
  exact Multiset.toFinset_card_eq_card_iff_nodup

/-- While no more keys pass than there is room for, none is forgotten. -/
theorem nodup_passedFrom (hroom : memory.card + (passedFrom capacity memory ks).length ≤ capacity) :
    (passedFrom capacity memory ks).Nodup ∧ ∀ k ∈ passedFrom capacity memory ks, k ∉ memory := by
  induction ks generalizing memory with
  | nil => exact ⟨List.nodup_nil, fun _ h => absurd h List.not_mem_nil⟩
  | cons k ks ih =>
    rw [passedFrom] at hroom ⊢
    split at hroom
    · rename_i hk
      rw [if_pos hk]
      exact ih hroom
    · rename_i hk
      rw [if_neg hk]
      rw [List.length_cons] at hroom
      by_cases hfull : (insert k memory).card = capacity
      · -- the memory is full, so nothing passes any more
        rw [Finset.card_insert_of_notMem hk] at hfull
        have hnil := List.length_eq_zero_iff.mp
          (show (passedFrom capacity (remember capacity memory k) ks).length = 0 by omega)
        rw [hnil]
        exact ⟨List.nodup_singleton k, fun k' h => List.mem_singleton.mp h ▸ hk⟩
      · have hheld : remember capacity memory k = insert k memory :=
          (remember_of_notMem hk).trans (if_neg hfull)
        rw [hheld] at hroom ⊢
        obtain ⟨hnodup, hnew⟩ := ih (by rw [Finset.card_insert_of_notMem hk]; omega)
        refine ⟨List.nodup_cons.mpr ⟨fun h =>
          hnew k h (Finset.mem_insert_self k memory), hnodup⟩, ?_⟩
        refine List.forall_mem_cons.mpr ⟨hk, fun k' hk' hmem => ?_⟩
        exact hnew k' hk' (Finset.mem_insert_of_mem hmem)

/-- **As many keys as the memory holds** pass without repeats. -/
theorem nodup_passed_of_length_le (h : (passed capacity ks).length ≤ capacity) :
    (passed capacity ks).Nodup :=
  (nodup_passedFrom (by rwa [Finset.card_empty, Nat.zero_add])).1

/-- New keys that there is room for all pass. -/
theorem passedFrom_of_nodup (hnodup : ks.Nodup) (hnew : ∀ k ∈ ks, k ∉ memory) :
    passedFrom capacity memory ks = ks := by
  induction ks generalizing memory with
  | nil => rfl
  | cons k ks ih =>
    obtain ⟨hk, hrest⟩ := List.forall_mem_cons.mp hnew
    obtain ⟨hnot, hnodup⟩ := List.nodup_cons.mp hnodup
    rw [passedFrom, if_neg hk, ih hnodup fun k' hk' hmem => ?_]
    rcases mem_of_mem_remember hmem with rfl | hmem
    · exact hnot hk'
    · exact hrest k' hk' hmem

/-- New keys that fill the memory empty it. -/
theorem memoryFrom_of_fills (hnodup : ks.Nodup) (hnew : ∀ k ∈ ks, k ∉ memory)
    (hmemory : memory.card < capacity) (hfills : memory.card + ks.length = capacity) :
    memoryFrom capacity memory ks = ∅ := by
  induction ks generalizing memory with
  | nil =>
    rw [List.length_nil] at hfills
    omega
  | cons k ks ih =>
    obtain ⟨hk, hrest⟩ := List.forall_mem_cons.mp hnew
    obtain ⟨hnot, hnodup⟩ := List.nodup_cons.mp hnodup
    have hcard := Finset.card_insert_of_notMem hk
    rw [List.length_cons] at hfills
    rw [memoryFrom, List.foldl_cons, remember_of_notMem hk]
    cases ks with
    | nil => exact if_pos (by rw [hcard]; simpa using hfills)
    | cons k' ks =>
      rw [List.length_cons] at hfills
      rw [heldOf_of_lt (by omega)]
      refine ih hnodup (fun k'' hk'' hmem => ?_) (by omega) (by rw [List.length_cons]; omega)
      rcases Finset.mem_insert.mp hmem with rfl | hmem
      · exact hnot hk''
      · exact hrest k'' hk'' hmem

/-- **After as many different keys as the memory holds**, any key passes. -/
theorem passed_concat_of_fills (hnodup : ks.Nodup) (hpos : 0 < capacity)
    (hfills : ks.length = capacity) : passed capacity (ks ++ [k]) = ks ++ [k] := by
  have hempty : memoryFrom capacity ∅ ks = ∅ := by
    refine memoryFrom_of_fills hnodup (fun k _ => Finset.notMem_empty k) ?_ ?_
    · rwa [Finset.card_empty]
    · rwa [Finset.card_empty, Nat.zero_add]
  have hall : passed capacity ks = ks := passedFrom_of_nodup hnodup fun k _ => Finset.notMem_empty k
  rw [passed_concat, hall, hempty, if_neg (Finset.notMem_empty k)]

example : passed 2 [1, 2, 1] = [1, 2, 1] := by decide

example : passed 3 [1, 2, 1] = [1, 2] := by decide

end Filter

end Forgetful
