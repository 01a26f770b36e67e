/-
  Ingest calls at once.

  The rows of a call's statement come in payload order, and each natural key it has inserted is held
  until its commit.  Two calls that share keys in opposite orders then wait for each other
  (`opposite_orders_deadlock`).  What keeps calls out of a deadlock is one order of the keys in
  which every wait is upwards (`ingests_never_deadlock`), as it is when all payloads list their
  observations in that order (`ascending_payloads_never_deadlock`).
-/
import GpuIndex.Lib.UniqueLocks
import GpuIndex.Api.IngestBatch

namespace GpuIndex

open Calendar Trace
open UniqueLocks
    (Ascending Move Ordered WaitsAbove alone not_deadlocked_of_guarded stored_run_alone)

variable {ι τ : Type} [DecidableEq ι] [Preorder τ]

/-! ## The calls -/

/-- The natural keys of a call's rows, in the order of its statement; a statement that cannot be
    sent inserts none. -/
def insertedKeys (env : Env) (c : Catalogue) (payload : List PricePointIn) : List ObservationKey :=
  match bindRows env (resolveItems c payload).1 with
  | .ok values => values.map PriceValues.key
  | .error _ => []

/-- Calls of `ingest_prices`, each with its payload and the catalogue it has read. -/
structure IngestCalls (ι : Type) where
  catalogue : ι → Catalogue
  payload : ι → List PricePointIn

/-- The keys one of the calls inserts. -/
def IngestCalls.keys (calls : IngestCalls ι) (env : Env) (i : ι) : List ObservationKey :=
  insertedKeys env (calls.catalogue i) (calls.payload i)

/-- The calls before their first row: the keys of the table are stored. -/
def IngestCalls.start (calls : IngestCalls ι) (env : Env) (db : Database) :
    UniqueLocks.State ι ObservationKey where
  stored k := decide (k ∈ db.priceValues.map PriceValues.key)
  owner _ := none
  todo i := some (calls.keys env i)
  waiting _ := false

/-- The calls after some of their steps. -/
def IngestCalls.after (calls : IngestCalls ι) (env : Env) (db : Database) (trace : List (Move ι)) :
    UniqueLocks.State ι ObservationKey :=
  run UniqueLocks.State.step (calls.start env db) trace

/-- **One call alone** stores the keys of the table that its statement leaves. -/
theorem IngestCalls.stored_alone (calls : IngestCalls ι) (env : Env) {db db' : Database} {i : ι}
    (hdb : db.storeRows env (resolveItems (calls.catalogue i) (calls.payload i)).1 = .ok db')
    (k : ObservationKey) : (calls.after env db (alone i (calls.keys env i))).stored k = true
      ↔ k ∈ db'.priceValues.map PriceValues.key := by
  obtain ⟨values, hvalues, hinserted⟩ := Database.storeRows_eq_ok hdb
  have hkeys : calls.keys env i = values.map PriceValues.key := by
    rw [IngestCalls.keys, insertedKeys, hvalues]
  have hstart : (calls.start env db).stored k = true ↔ k ∈ db.priceValues.map PriceValues.key :=
    decide_eq_true_iff
  -- no call holds a key before its first row
  have hfree : ∀ k j, (calls.start env db).owner k = some j → j = i := fun k j h => nomatch h
  have howner : (calls.start env db).owner k ≠ some i := fun h => nomatch h
  rw [IngestCalls.after, stored_run_alone rfl hfree, hstart, hkeys,
    (Database.insertPrices_ok hinserted).2, FirstWins.mem_map_insertAll]
  simp only [howner, or_false]

/-! ## Deadlocks -/

/-- **The calls never deadlock** while every call that comes to wait, waits for a key above all that
    it has inserted. -/
theorem ingests_never_deadlock (env : Env) (db : Database) (calls : IngestCalls ι)
    (rank : ObservationKey → τ) (trace : List (Move ι))
    (habove : Guarded UniqueLocks.State.step (WaitsAbove rank) (calls.start env db) trace) :
    ¬ (calls.after env db trace).Deadlocked :=
  not_deadlocked_of_guarded (fun _ => rfl) habove

omit [DecidableEq ι] in
theorem IngestCalls.ordered (calls : IngestCalls ι) (env : Env) (db : Database)
    {rank : ObservationKey → τ} (hascending : ∀ i, Ascending rank (calls.keys env i)) :
    Ordered rank (calls.start env db) where
  todo := fun i keys htodo => Option.some.inj htodo ▸ hascending i
  owned := fun i keys k _ howner => by cases howner

/-- Payloads that list their observations in one order never deadlock, however they interleave. -/
theorem ascending_payloads_never_deadlock (env : Env) (db : Database) (calls : IngestCalls ι)
    (rank : ObservationKey → τ) (hascending : ∀ i, Ascending rank (calls.keys env i))
    (trace : List (Move ι)) : ¬ (calls.after env db trace).Deadlocked :=
  not_deadlocked_of_guarded (fun _ => rfl) ((calls.ordered env db hascending).guarded trace)

/-! ## Two calls -/

/-- The item of another instance type. -/
def otherItem : PricePointIn :=
  { oneItem with
    instanceType := "aws-h100-1x"
    instanceType_length := by decide }

/-- Two calls, and further ones with nothing to insert. -/
def twoCalls (first second : List PricePointIn) : IngestCalls Nat where
  catalogue _ := oneOfEach
  payload i := if i = 0 then first else if i = 1 then second else []

/-- The natural key of an instance type on new year's day. -/
def keyOf (instanceType : Varchar 64) : ObservationKey :=
  { (observation ⟨1, one_range⟩ available).key with instanceType := instanceType }

/-- Two calls with the same two observations in opposite orders. -/
def opposite : IngestCalls Nat := twoCalls [oneItem, otherItem] [otherItem, oneItem]

/-- Each comes to its first row, and then to its second. -/
def crossing : List (Move Nat) := [.insert 0, .insert 1, .insert 0, .insert 1]

theorem opposite_orders_deadlock :
    (opposite.after env (catalogue ⟨1, by decide⟩) crossing).Deadlocked := by
  have hfirst : (opposite.after env (catalogue ⟨1, by decide⟩) crossing).Waits 0 1 :=
    ⟨by with_unfolding_all rfl, keyOf single, [], by with_unfolding_all rfl,
      by with_unfolding_all rfl, one_ne_zero⟩
  have hsecond : (opposite.after env (catalogue ⟨1, by decide⟩) crossing).Waits 1 0 :=
    ⟨by with_unfolding_all rfl, keyOf eightfold, [], by with_unfolding_all rfl,
      by with_unfolding_all rfl, zero_ne_one⟩
  exact ⟨0, (Relation.TransGen.single hfirst).tail hsecond⟩

/-- The first call holds what the second comes to last. -/
def upward : IngestCalls Nat := twoCalls [oneItem] [otherItem, oneItem]

theorem keys_upward (i : Nat) : Ascending (fun k => k.instanceType.val) (upward.keys env i) := by
  by_cases h0 : i = 0
  · subst h0
    have hkeys : upward.keys env 0 = [keyOf eightfold] := by with_unfolding_all rfl
    rw [hkeys]
    exact List.pairwise_singleton _ _
  · by_cases h1 : i = 1
    · subst h1
      have hkeys : upward.keys env 1 = [keyOf single, keyOf eightfold] := by with_unfolding_all rfl
      rw [hkeys]
      refine List.pairwise_pair.mpr (.inr ?_)
      show single.val < eightfold.val
      decide
    · have hkeys : upward.keys env i = [] := by
        simp only [IngestCalls.keys, upward, twoCalls, if_neg h0, if_neg h1]
        rfl
      rw [hkeys]
      exact List.Pairwise.nil

/-- The second call waits for the first, and goes on when it has committed. -/
def waitingOnce : List (Move Nat) :=
  [.insert 0, .insert 1, .insert 1, .commit 0, .insert 1, .commit 1]

theorem ingests_never_deadlock_upward :
    ¬ (upward.after env (catalogue ⟨1, by decide⟩) waitingOnce).Deadlocked :=
  ingests_never_deadlock env (catalogue ⟨1, by decide⟩) upward (fun k => k.instanceType.val)
    waitingOnce ((upward.ordered env _ keys_upward).guarded waitingOnce)

end GpuIndex
