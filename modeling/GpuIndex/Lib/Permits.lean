/-
  Tasks that share a number of permits.

  A task waits until a permit is free, runs with it, and gives it back when it ends, however it
  ends.  Nothing is said of the order in which waiting tasks get permits.

  A run takes moves that are allowed (`Trace.Guarded`).  Permits are neither lost nor made
  (`running_add_free`), so some task can move until all have ended (`exists_running_or_allowed`),
  and all do end (`ended_of_stuck`).  What a run did with a task can be read off where the task is
  (`moves_run`): it was started at most once, and it ended as it did.
-/
import GpuIndex.Lib.Trace
import Mathlib.Algebra.BigOperators.Group.Finset.Basic
import Mathlib.Data.Finset.Card
import Mathlib.Data.Fintype.Card
import Mathlib.Logic.Function.Basic

namespace Permits

open Trace

/-- Where a task is. -/
inductive Phase (ρ : Type) where
  | waiting
  | running
  | ended (r : ρ)

/-- The task has a permit. -/
def Phase.isRunning {ρ : Type} : Phase ρ → Bool
  | .running => true
  | _ => false

/-- The permits nobody has, and where every task is. -/
structure State (ι ρ : Type) where
  free : Nat
  phase : ι → Phase ρ

/-- A task gets a permit and starts, or it ends and gives the permit back. -/
inductive Move (ι ρ : Type) where
  | start (i : ι)
  | finish (i : ι) (r : ρ)

variable {ι ρ : Type}

/-- The task that moves. -/
def Move.task : Move ι ρ → ι
  | .start i => i
  | .finish i _ => i

/-- All permits free, all tasks waiting. -/
def State.initial (limit : Nat) : State ι ρ := ⟨limit, fun _ => .waiting⟩

/-- How a task has ended. -/
def Phase.result? {ρ : Type} : Phase ρ → Option ρ
  | .ended r => some r
  | _ => none

theorem Phase.result?_eq_some {ρ : Type} {p : Phase ρ} {r : ρ} :
    p.result? = some r ↔ p = .ended r := by
  cases p with
  | waiting => exact ⟨(fun h => nomatch h), (fun h => nomatch h)⟩
  | running => exact ⟨(fun h => nomatch h), (fun h => nomatch h)⟩
  | ended r' => exact ⟨fun h => congrArg Phase.ended (Option.some.inj h),
      fun h => congrArg some (Phase.ended.inj h)⟩

/-- How many moves a task has still to make. -/
def Phase.left {ρ : Type} : Phase ρ → Nat
  | .waiting => 2
  | .running => 1
  | .ended _ => 0

/-- What has been done with a task. -/
def Phase.moves (i : ι) : Phase ρ → List (Move ι ρ)
  | .waiting => []
  | .running => [.start i]
  | .ended r => [.start i, .finish i r]

section Running

variable [Fintype ι] {s : State ι ρ}

/-- The tasks that have permits. -/
def State.running (s : State ι ρ) : Finset ι := Finset.univ.filter fun i => (s.phase i).isRunning

theorem State.mem_running {i : ι} : i ∈ s.running ↔ s.phase i = .running := by
  rw [State.running, Finset.mem_filter, and_iff_right (Finset.mem_univ i)]
  cases s.phase i with
  | waiting => exact ⟨(fun h => nomatch h), (fun h => nomatch h)⟩
  | running => exact ⟨fun _ => rfl, fun _ => rfl⟩
  | ended r => exact ⟨(fun h => nomatch h), (fun h => nomatch h)⟩

theorem running_initial (limit : Nat) : (State.initial limit : State ι ρ).running = ∅ :=
  Finset.filter_eq_empty_iff.mpr fun _ _ h => nomatch h

/-- The moves that are left to all tasks. -/
def State.left (s : State ι ρ) : Nat := Finset.univ.sum fun i => (s.phase i).left

theorem left_initial (limit : Nat) :
    (State.initial limit : State ι ρ).left = 2 * Fintype.card ι := by
  have hsum : (State.initial limit : State ι ρ).left = (Finset.univ : Finset ι).card * 2 :=
    Finset.sum_const_nat fun _ _ => rfl
  rw [hsum, Finset.card_univ, Nat.mul_comm]

end Running

section Step

variable [DecidableEq ι]

/-- Take a move. -/
def State.step (s : State ι ρ) : Move ι ρ → State ι ρ
  | .start i => ⟨s.free - 1, Function.update s.phase i .running⟩
  | .finish i r => ⟨s.free + 1, Function.update s.phase i (.ended r)⟩

/-- A waiting task starts when a permit is free; a running task ends in one of its ways. -/
def State.Allowed (may : ι → ρ → Prop) (s : State ι ρ) : Move ι ρ → Prop
  | .start i => s.phase i = .waiting ∧ 0 < s.free
  | .finish i r => s.phase i = .running ∧ may i r

variable {may : ι → ρ → Prop} {s : State ι ρ} {m : Move ι ρ} {trace : List (Move ι ρ)}

/-! ## What was done with a task -/

/-- A move of one task is one more thing done with it, and nothing to the others. -/
theorem moves_step (hm : s.Allowed may m) (i : ι) :
    ((s.step m).phase i).moves i = (s.phase i).moves i ++ if m.task = i then [m] else [] := by
  cases m with
  | start j =>
    by_cases hij : j = i
    · subst hij
      rw [show (Move.start j : Move ι ρ).task = j from rfl, if_pos rfl, hm.1]
      simp only [State.step, Function.update_self]
      rfl
    · rw [show (Move.start j : Move ι ρ).task = j from rfl, if_neg hij, List.append_nil]
      simp only [State.step, Function.update_of_ne (Ne.symm hij)]
  | finish j r =>
    by_cases hij : j = i
    · subst hij
      rw [show (Move.finish j r : Move ι ρ).task = j from rfl, if_pos rfl, hm.1]
      simp only [State.step, Function.update_self]
      rfl
    · rw [show (Move.finish j r : Move ι ρ).task = j from rfl, if_neg hij, List.append_nil]
      simp only [State.step, Function.update_of_ne (Ne.symm hij)]

/-- **What a run did with a task** is what its phase says. -/
theorem moves_run (h : Guarded State.step (State.Allowed may) s trace) (i : ι) :
    ((run State.step s trace).phase i).moves i
      = (s.phase i).moves i ++ trace.filter fun m => m.task = i := by
  induction trace generalizing s with
  | nil => exact (List.append_nil _).symm
  | cons m trace ih =>
    rw [run_cons, ih h.2, moves_step h.1, List.append_assoc, List.filter_cons]
    by_cases hi : m.task = i
    · simp [hi]
    · simp [hi]

/-- A task has ended in one of its ways. -/
theorem may_run (h : Guarded State.step (State.Allowed may) s trace)
    (hs : ∀ i r, s.phase i = .ended r → may i r) (i : ι) (r : ρ)
    (hi : (run State.step s trace).phase i = .ended r) : may i r := by
  refine h.inv (P := fun s : State ι ρ => ∀ i r, s.phase i = .ended r → may i r)
    (fun s m hs hm i r hi => ?_) hs i r hi
  cases m with
  | start j =>
    by_cases hij : i = j
    · subst hij
      simp only [State.step, Function.update_self] at hi
      cases hi
    · simp only [State.step, Function.update_of_ne hij] at hi
      exact hs i r hi
  | finish j r' =>
    by_cases hij : i = j
    · subst hij
      simp only [State.step, Function.update_self, Phase.ended.injEq] at hi
      rw [← hi]
      exact hm.2
    · simp only [State.step, Function.update_of_ne hij] at hi
      exact hs i r hi

/-! ## Permits -/

variable [Fintype ι]

theorem running_start {i : ι} : (s.step (.start i)).running = insert i s.running := by
  ext j
  rw [Finset.mem_insert, State.mem_running, State.mem_running]
  by_cases hij : j = i
  · subst hij
    simp [State.step]
  · simp [State.step, hij]

theorem running_finish {i : ι} {r : ρ} : (s.step (.finish i r)).running = s.running.erase i := by
  ext j
  rw [Finset.mem_erase, State.mem_running, State.mem_running]
  by_cases hij : j = i
  · subst hij
    simp [State.step]
  · simp [State.step, hij]

/-- A move hands a permit over, or back. -/
theorem running_add_free_step (hm : s.Allowed may m) :
    (s.step m).running.card + (s.step m).free = s.running.card + s.free := by
  cases m with
  | start i =>
    have hout : i ∉ s.running := by
      rw [State.mem_running, hm.1]
      exact fun h => nomatch h
    have hfree : 0 < s.free := hm.2
    rw [running_start, Finset.card_insert_of_notMem hout]
    show s.running.card + 1 + (s.free - 1) = _
    omega
  | finish i r =>
    have hin : i ∈ s.running := State.mem_running.mpr hm.1
    have hpos : 0 < s.running.card := Finset.card_pos.mpr ⟨i, hin⟩
    rw [running_finish, Finset.card_erase_of_mem hin]
    show s.running.card - 1 + (s.free + 1) = _
    omega

/-- **Permits** are neither lost nor made. -/
theorem running_add_free {limit : Nat}
    (h : Guarded State.step (State.Allowed may) (State.initial limit) trace) :
    (run State.step (State.initial limit) trace).running.card
      + (run State.step (State.initial limit) trace).free = limit := by
  refine h.inv (P := fun s : State ι ρ => s.running.card + s.free = limit)
    (fun s m hs hm => (running_add_free_step hm).trans hs) ?_
  rw [running_initial, Finset.card_empty, Nat.zero_add]
  rfl

/-- **Progress**: where a task has not ended, one is running or one can start. -/
theorem exists_running_or_allowed {limit : Nat} (hlimit : 1 ≤ limit)
    (h : Guarded State.step (State.Allowed may) (State.initial limit) trace) {i : ι}
    (hi : ∀ r, (run State.step (State.initial limit) trace).phase i ≠ .ended r) :
    (run State.step (State.initial limit) trace).running.Nonempty
      ∨ (run State.step (State.initial limit) trace).Allowed may (.start i) := by
  have hpermits := running_add_free h
  generalize run State.step (State.initial limit) trace = s at hpermits hi
  rcases s.running.eq_empty_or_nonempty with hnone | hsome
  · rw [hnone, Finset.card_empty] at hpermits
    refine .inr ⟨?_, by omega⟩
    cases hphase : s.phase i with
    | waiting => rfl
    | running =>
      have hmem := State.mem_running.mpr hphase
      rw [hnone] at hmem
      exact absurd hmem (Finset.notMem_empty i)
    | ended r => exact absurd hphase (hi r)
  · exact .inl hsome

/-! ## Every run ends -/

/-- Moving one task on takes one from what is left. -/
theorem left_update {s' : State ι ρ} {i : ι} {p : Phase ρ}
    (hs' : s'.phase = Function.update s.phase i p) (hleft : p.left + 1 = (s.phase i).left) :
    s'.left + 1 = s.left := by
  have hrest : (Finset.univ.erase i).sum (fun j => (s'.phase j).left)
      = (Finset.univ.erase i).sum fun j => (s.phase j).left :=
    Finset.sum_congr rfl fun j hj => by
      rw [hs', Function.update_of_ne (Finset.ne_of_mem_erase hj)]
  rw [State.left, State.left, ← Finset.add_sum_erase _ _ (Finset.mem_univ i),
    ← Finset.add_sum_erase _ (fun j => (s.phase j).left) (Finset.mem_univ i), hrest, ← hleft, hs',
    Function.update_self]
  omega

theorem left_step (hm : s.Allowed may m) : (s.step m).left + 1 = s.left := by
  cases m with
  | start i => exact left_update rfl (by rw [hm.1]; rfl)
  | finish i r => exact left_update rfl (by rw [hm.1]; rfl)

/-- A run makes at most the moves that were left. -/
theorem length_run (h : Guarded State.step (State.Allowed may) s trace) :
    trace.length + (run State.step s trace).left = s.left := by
  induction trace generalizing s with
  | nil => exact Nat.zero_add _
  | cons m trace ih =>
    have hstep := left_step h.1
    have hrest := ih h.2
    rw [List.length_cons, run_cons]
    omega

/-- **Every run ends**: it makes at most two moves a task, and where nothing can move, every task
    has ended. -/
theorem ended_of_stuck {limit : Nat} (hlimit : 1 ≤ limit) (hmay : ∀ i, ∃ r, may i r)
    (h : Guarded State.step (State.Allowed may) (State.initial limit) trace)
    (hstuck : ∀ m, ¬ (run State.step (State.initial limit) trace).Allowed may m) (i : ι) :
    ∃ r, (run State.step (State.initial limit) trace).phase i = .ended r := by
  by_contra hi
  rcases exists_running_or_allowed hlimit h (not_exists.mp hi) with ⟨j, hj⟩ | hstart
  · obtain ⟨r, hr⟩ := hmay j
    exact hstuck (.finish j r) ⟨State.mem_running.mp hj, hr⟩
  · exact hstuck (.start i) hstart

end Step

end Permits
