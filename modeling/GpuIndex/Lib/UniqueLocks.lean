/-
  Transactions that insert unique keys, and wait for each other.

  A transaction inserts its keys in the order of its list.  A stored key is skipped; a key that an
  open transaction has inserted makes every other transaction that comes to it wait until that one
  ends.  A transaction that waits for itself through others is in a deadlock.

  The crux is `Ranked`: who waits, waits for a key that ranks above every key it has inserted.
  Along a chain of waits the ranks then rise, so no chain returns to where it began.  Two conditions
  keep it: one on the single step that comes to wait (`not_deadlocked_of_guarded`), and one on the
  lists alone, that they ascend in one order (`Ordered.guarded`).
-/
import GpuIndex.Lib.Trace
import Mathlib.Logic.Function.Basic
import Mathlib.Logic.Relation
import Mathlib.Order.Defs.PartialOrder

namespace UniqueLocks

open Trace

variable {ι κ τ : Type} [DecidableEq ι] [DecidableEq κ]

/-! ## The system -/

/-- The keys that are stored, who has inserted the others, and what each transaction has left. -/
structure State (ι κ : Type) where
  stored : κ → Bool
  owner : κ → Option ι
  /-- The keys left to insert, `none` before a transaction begins and after it has ended. -/
  todo : ι → Option (List κ)
  /-- The transaction has come to a key of another one. -/
  waiting : ι → Bool

/-- A step of a transaction: come to the next key, or end. -/
inductive Move (ι : Type) where
  | insert (i : ι)
  | commit (i : ι)
  | abort (i : ι)

/-- A transaction goes on with the rest of its keys. -/
def State.proceed (s : State ι κ) (i : ι) (keys : List κ) : State ι κ :=
  { s with
    todo := Function.update s.todo i (some keys)
    waiting := Function.update s.waiting i false }

/-- A transaction ends, and its keys are free. -/
def State.release (s : State ι κ) (i : ι) : State ι κ :=
  { s with
    owner := fun k => if s.owner k = some i then none else s.owner k
    todo := Function.update s.todo i none
    waiting := Function.update s.waiting i false }

/-- Take a step. -/
def State.step (s : State ι κ) : Move ι → State ι κ
  | .insert i =>
    match s.todo i with
    | some (k :: keys) =>
      match s.owner k with
      | some j =>
        if j = i then s.proceed i keys
        else { s with waiting := Function.update s.waiting i true }
      | none =>
        if s.stored k then s.proceed i keys
        else { s with owner := Function.update s.owner k (some i) }.proceed i keys
    | _ => s
  | .commit i =>
    if s.todo i = some [] then
      { s with stored := fun k => s.stored k || decide (s.owner k = some i) }.release i
    else s
  | .abort i => s.release i

/-- A transaction waits for the one that has inserted its next key. -/
def State.Waits (s : State ι κ) (i j : ι) : Prop :=
  s.waiting i = true ∧ ∃ k keys, s.todo i = some (k :: keys) ∧ s.owner k = some j ∧ j ≠ i

/-- Some transactions wait for each other in a cycle. -/
def State.Deadlocked (s : State ι κ) : Prop := ∃ i, Relation.TransGen s.Waits i i

/-! ## Waiting above what is held -/

variable [Preorder τ] {rank : κ → τ} {s : State ι κ}

/-- A step that makes a transaction wait is for a key above all it has inserted. -/
def WaitsAbove (rank : κ → τ) (s : State ι κ) : Move ι → Prop
  | .insert i => ∀ k keys j, s.todo i = some (k :: keys) → s.owner k = some j → j ≠ i →
      ∀ k', s.owner k' = some i → rank k' < rank k
  | _ => True

/-- Who waits, waits for a key above all it has inserted. -/
def Ranked (rank : κ → τ) (s : State ι κ) : Prop :=
  ∀ i k keys, s.waiting i = true → s.todo i = some (k :: keys) →
    ∀ k', s.owner k' = some i → rank k' < rank k

omit [DecidableEq ι] [DecidableEq κ] in
/-- A transaction that no longer waits keeps the ranks, while the others hold no more and are left
where they were. -/
theorem Ranked.frame {s' : State ι κ} (h : Ranked rank s) {i : ι} (hi : s'.waiting i = false)
    (hrest : ∀ j, j ≠ i → s'.waiting j = s.waiting j ∧ s'.todo j = s.todo j)
    (hheld : ∀ j, j ≠ i → ∀ k, s'.owner k = some j → s.owner k = some j) : Ranked rank s' := by
  intro j k keys hwaiting htodo k' howner
  have hj : j ≠ i := by
    rintro rfl
    rw [hi] at hwaiting
    cases hwaiting
  obtain ⟨hwaits, hleft⟩ := hrest j hj
  exact h j k keys (hwaits ▸ hwaiting) (hleft ▸ htodo) k' (hheld j hj k' howner)

omit [DecidableEq κ] in
theorem Ranked.proceed (h : Ranked rank s) (i : ι) (keys : List κ) :
    Ranked rank (s.proceed i keys) := by
  refine h.frame (i := i) (Function.update_self ..) ?_ fun j _ k howner => howner
  intro j hj
  exact ⟨Function.update_of_ne hj .., Function.update_of_ne hj ..⟩

/-- A transaction that proceeds may have inserted a key. -/
theorem Ranked.claim (h : Ranked rank s) (i : ι) (k₀ : κ) (keys : List κ) :
    Ranked rank ({ s with owner := Function.update s.owner k₀ (some i) }.proceed i keys) := by
  refine h.frame (i := i) (Function.update_self ..) ?_ ?_
  · intro j hj
    exact ⟨Function.update_of_ne hj .., Function.update_of_ne hj ..⟩
  · intro j hj k howner
    by_cases hk : k = k₀
    · subst hk
      simp only [State.proceed, Function.update_self, Option.some.injEq] at howner
      exact absurd howner.symm hj
    · simpa only [State.proceed, Function.update_of_ne hk] using howner

omit [DecidableEq κ] in
theorem Ranked.release (h : Ranked rank s) (i : ι) : Ranked rank (s.release i) := by
  refine h.frame (i := i) (Function.update_self ..) ?_ ?_
  · intro j hj
    exact ⟨Function.update_of_ne hj .., Function.update_of_ne hj ..⟩
  · intro j hj k howner
    simp only [State.release] at howner
    split at howner
    · cases howner
    · exact howner

/-- **One step** that waits above what is held keeps the ranks. -/
theorem Ranked.step (h : Ranked rank s) {m : Move ι} (hm : WaitsAbove rank s m) :
    Ranked rank (s.step m) := by
  cases m with
  | insert i =>
    unfold State.step
    dsimp only
    split
    · rename_i k keys htodo
      split
      · rename_i j howner
        split
        · exact h.proceed i keys
        · rename_i hj
          -- the transaction comes to wait: this is what the condition is about
          intro i' k' rest hwaiting htodo' k'' howner'
          by_cases hi : i' = i
          · subst hi
            obtain ⟨rfl, rfl⟩ := List.cons.inj (Option.some.inj (htodo.symm.trans htodo'))
            exact hm k keys j htodo howner hj k'' howner'
          · simp only [Function.update_of_ne hi] at hwaiting
            exact h i' k' rest hwaiting htodo' k'' howner'
      · split
        · exact h.proceed i keys
        · exact h.claim i k keys
    · exact h
  | commit i =>
    unfold State.step
    dsimp only
    split
    · exact Ranked.release (s := { s with stored := _ }) h i
    · exact h
  | abort i => exact h.release i

omit [DecidableEq ι] [DecidableEq κ] in
/-- Along a chain of waits the ranks rise. -/
theorem Ranked.chain (h : Ranked rank s) {i j : ι} (hij : Relation.TransGen s.Waits i j) :
    ∃ k keys k', s.todo i = some (k :: keys) ∧ s.owner k' = some j ∧ rank k ≤ rank k' := by
  induction hij with
  | single hwaits =>
    obtain ⟨-, k, keys, htodo, howner, -⟩ := hwaits
    exact ⟨k, keys, k, htodo, howner, le_rfl⟩
  | tail _ hwaits ih =>
    obtain ⟨k, keys, k', htodo, howner, hle⟩ := ih
    obtain ⟨hwaiting, k₂, keys₂, htodo₂, howner₂, -⟩ := hwaits
    have hlt := h _ k₂ keys₂ hwaiting htodo₂ k' howner
    exact ⟨k, keys, k₂, htodo, howner₂, le_trans hle (le_of_lt hlt)⟩

omit [DecidableEq ι] [DecidableEq κ] in
theorem Ranked.not_deadlocked (h : Ranked rank s) : ¬ s.Deadlocked := by
  rintro ⟨i, hcycle⟩
  obtain ⟨k, keys, k', htodo, howner, hle⟩ := h.chain hcycle
  have hwaiting : s.waiting i = true := by
    rcases Relation.TransGen.head'_iff.mp hcycle with ⟨_, hwaits, -⟩
    exact hwaits.1
  exact absurd (h i k keys hwaiting htodo k' howner) (not_lt_of_ge hle)

/-- **Runs that wait above what is held** never deadlock. -/
theorem not_deadlocked_of_guarded {trace : List (Move ι)} (hs : ∀ i, s.waiting i = false)
    (h : Guarded State.step (WaitsAbove rank) s trace) : ¬ (run State.step s trace).Deadlocked := by
  have hstart : Ranked rank s := by
    intro i k keys hwaiting
    rw [hs i] at hwaiting
    cases hwaiting
  exact (h.inv (fun s m hranked hm => hranked.step hm) hstart).not_deadlocked

/-! ## Lists in one order -/

/-- Every key is followed by itself and by keys above it. -/
def Ascending (rank : κ → τ) (keys : List κ) : Prop :=
    keys.Pairwise fun a b => a = b ∨ rank a < rank b

/-- What is left ascends, and goes on from what the transaction has inserted. -/
structure Ordered (rank : κ → τ) (s : State ι κ) : Prop where
  todo : ∀ i keys, s.todo i = some keys → Ascending rank keys
  owned : ∀ i keys k, s.todo i = some keys → s.owner k = some i →
    ∀ k' ∈ keys, k = k' ∨ rank k < rank k'

omit [DecidableEq ι] [DecidableEq κ] in
theorem Ordered.waitsAbove (h : Ordered rank s) (m : Move ι) : WaitsAbove rank s m := by
  cases m with
  | insert i =>
    intro k keys j htodo howner hj k' howner'
    rcases h.owned i _ k' htodo howner' k List.mem_cons_self with rfl | hlt
    · exact absurd (Option.some.inj (howner.symm.trans howner')) hj
    · exact hlt
  | commit i => trivial
  | abort i => trivial

omit [DecidableEq κ] in
theorem Ordered.proceed (h : Ordered rank s) {i : ι} {k : κ} {keys : List κ}
    (htodo : s.todo i = some (k :: keys)) : Ordered rank (s.proceed i keys) where
  todo := by
    intro j keys' htodo'
    by_cases hj : j = i
    · subst hj
      simp only [State.proceed, Function.update_self, Option.some.injEq] at htodo'
      exact htodo' ▸ (List.pairwise_cons.mp (h.todo j _ htodo)).2
    · simp only [State.proceed, Function.update_of_ne hj] at htodo'
      exact h.todo j keys' htodo'
  owned := by
    intro j keys' k' htodo' howner k'' hk''
    by_cases hj : j = i
    · subst hj
      simp only [State.proceed, Function.update_self, Option.some.injEq] at htodo'
      subst htodo'
      exact h.owned j _ k' htodo howner k'' (List.mem_cons_of_mem _ hk'')
    · simp only [State.proceed, Function.update_of_ne hj] at htodo'
      exact h.owned j keys' k' htodo' howner k'' hk''

omit [DecidableEq ι] in
/-- Inserting the next key: the rest goes on from it. -/
theorem Ordered.claim (h : Ordered rank s) {i : ι} {k : κ} {keys : List κ}
    (htodo : s.todo i = some (k :: keys)) :
    Ordered rank { s with owner := Function.update s.owner k (some i) } where
  todo := h.todo
  owned := by
    intro j keys' k' htodo' howner k'' hk''
    by_cases hk : k' = k
    · subst hk
      simp only [Function.update_self, Option.some.injEq] at howner
      subst howner
      obtain rfl := Option.some.inj (htodo.symm.trans htodo')
      rcases List.mem_cons.mp hk'' with rfl | hk''
      · exact .inl rfl
      · exact (List.pairwise_cons.mp (h.todo i _ htodo)).1 k'' hk''
    · simp only [Function.update_of_ne hk] at howner
      exact h.owned j keys' k' htodo' howner k'' hk''

omit [DecidableEq κ] in
theorem Ordered.release (h : Ordered rank s) (i : ι) : Ordered rank (s.release i) where
  todo := by
    intro j keys htodo
    by_cases hj : j = i
    · subst hj
      simp only [State.release, Function.update_self, reduceCtorEq] at htodo
    · simp only [State.release, Function.update_of_ne hj] at htodo
      exact h.todo j keys htodo
  owned := by
    intro j keys k htodo howner k' hk'
    by_cases hj : j = i
    · subst hj
      simp only [State.release, Function.update_self, reduceCtorEq] at htodo
    · simp only [State.release, Function.update_of_ne hj] at htodo howner
      split at howner
      · cases howner
      · exact h.owned j keys k htodo howner k' hk'

/-- **One step** of lists in one order, whatever it is. -/
theorem Ordered.step (h : Ordered rank s) (m : Move ι) : Ordered rank (s.step m) := by
  cases m with
  | insert i =>
    unfold State.step
    dsimp only
    split
    · rename_i k keys htodo
      split
      · split
        · exact h.proceed htodo
        · exact ⟨h.todo, h.owned⟩
      · split
        · exact h.proceed htodo
        · exact (h.claim htodo).proceed htodo
    · exact h
  | commit i =>
    unfold State.step
    dsimp only
    split
    · have hstored : Ordered rank
          { s with stored := fun k => s.stored k || decide (s.owner k = some i) } :=
        ⟨h.todo, h.owned⟩
      exact hstored.release i
    · exact h
  | abort i => exact h.release i

/-- Lists in one order: every wait is above what is held. -/
theorem Ordered.guarded (h : Ordered rank s) (trace : List (Move ι)) :
    Guarded State.step (WaitsAbove rank) s trace := by
  refine guarded_iff.mpr fun before m after _ => ?_
  have hguard : Guarded State.step (fun _ _ => True) s before :=
    guarded_iff.mpr fun _ _ _ _ => trivial
  exact (hguard.inv (fun s m hordered _ => hordered.step m) h).waitsAbove m

/-! ## One transaction alone -/

/-- The steps of a transaction that nothing disturbs. -/
def alone (i : ι) (keys : List κ) : List (Move ι) := keys.map (fun _ => .insert i) ++ [.commit i]

/-- One key of a transaction alone: it is stored, or the transaction now holds it. -/
theorem step_insert_alone {i : ι} {k₀ : κ} {keys : List κ} (htodo : s.todo i = some (k₀ :: keys))
    (hfree : ∀ k j, s.owner k = some j → j = i) :
    (s.step (.insert i)).todo i = some keys
      ∧ (∀ k j, (s.step (.insert i)).owner k = some j → j = i)
      ∧ ∀ k, ((s.step (.insert i)).stored k = true ∨ (s.step (.insert i)).owner k = some i)
          ↔ (s.stored k = true ∨ s.owner k = some i) ∨ k = k₀ := by
  have htodo' : (s.proceed i keys).todo i = some keys := Function.update_self ..
  -- the key changes nothing when the transaction has it, or the table
  have hskip (h : s.step (.insert i) = s.proceed i keys)
      (hkey : s.stored k₀ = true ∨ s.owner k₀ = some i) :
      (s.step (.insert i)).todo i = some keys
        ∧ (∀ k j, (s.step (.insert i)).owner k = some j → j = i)
        ∧ ∀ k, ((s.step (.insert i)).stored k = true ∨ (s.step (.insert i)).owner k = some i)
          ↔ (s.stored k = true ∨ s.owner k = some i) ∨ k = k₀ := by
    rw [h]
    refine ⟨htodo', hfree, fun k => ⟨.inl, ?_⟩⟩
    rintro (h | rfl)
    · exact h
    · exact hkey
  cases howner : s.owner k₀ with
  | some j =>
    obtain rfl := hfree k₀ j howner
    exact hskip (by simp only [State.step, htodo, howner, if_pos]) (.inr howner)
  | none =>
    by_cases hstored : s.stored k₀ = true
    · exact hskip (by simp only [State.step, htodo, howner, hstored, if_pos]) (.inl hstored)
    · have hstep : s.step (.insert i)
          = { s with owner := Function.update s.owner k₀ (some i) }.proceed i keys := by
        simp only [State.step, htodo, howner, if_neg hstored]
      rw [hstep]
      refine ⟨Function.update_self .., fun k j hk => ?_, fun k => ?_⟩
      · simp only [State.proceed] at hk
        by_cases hkey : k = k₀
        · subst hkey
          rw [Function.update_self] at hk
          exact (Option.some.inj hk).symm
        · rw [Function.update_of_ne hkey] at hk
          exact hfree k j hk
      · show s.stored k = true ∨ Function.update s.owner k₀ (some i) k = some i ↔ _
        by_cases hkey : k = k₀
        · subst hkey
          rw [Function.update_self]
          exact ⟨fun _ => .inr rfl, fun _ => .inr rfl⟩
        · rw [Function.update_of_ne hkey]
          exact ⟨.inl, fun h => h.resolve_right hkey⟩

/-- Alone, a transaction stores its keys. -/
theorem stored_run_alone {i : ι} {keys : List κ} (htodo : s.todo i = some keys)
    (hfree : ∀ k j, s.owner k = some j → j = i) (k : κ) :
    (run State.step s (alone i keys)).stored k = true
      ↔ (s.stored k = true ∨ s.owner k = some i) ∨ k ∈ keys := by
  induction keys generalizing s with
  | nil =>
    show (s.step (.commit i)).stored k = true ↔ _
    simp only [State.step, htodo, if_pos, State.release, Bool.or_eq_true, decide_eq_true_eq,
      List.not_mem_nil, or_false]
  | cons k₀ keys ih =>
    obtain ⟨htodo', hfree', hheld⟩ := step_insert_alone htodo hfree
    show (run State.step (s.step (.insert i)) (alone i keys)).stored k = true ↔ _
    rw [ih htodo' hfree', hheld, List.mem_cons, or_assoc]

end UniqueLocks
