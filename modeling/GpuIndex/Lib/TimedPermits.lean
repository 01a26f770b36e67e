/-
  Tasks that share permits, with the time they take.

  A task that gets its permit at a time gives it back when its latency has passed.  Steps take no
  time of their own: time passes only where every waiting task is out of permits, and never past the
  end of a running task.

  SPECIFICATION.  With `limit` permits the last task ends at a time `T` with
  `Σ latency ≤ limit * T` and `limit * T ≤ Σ latency + (limit - 1) * M`, for latencies up to `M`.

  Tasks that all take the same time end after as many waves as they fill (`Paced.now_eq`), and no
  run is stuck before that (`Paced.exists_completion`).

  The crux is `Paced.early`: a task that waits has seen every permit at work all the time, so when
  it starts at `s` the work done is `limit * s`, and its own is not in it.
-/
import GpuIndex.Lib.Permits
import Mathlib.Algebra.Order.BigOperators.Group.Finset
import Mathlib.Algebra.Order.Ring.Defs
import Mathlib.Data.Finset.Max
import Mathlib.Tactic.Linarith
import Mathlib.Tactic.Ring

namespace Permits

open Trace

variable {ι ρ K : Type} [DecidableEq ι] [CommRing K] [LinearOrder K] [IsStrictOrderedRing K]

/-- The tasks, the time, and since when each task that has started has had its permit. -/
structure Timed (ι ρ K : Type) extends State ι ρ where
  now : K
  since : ι → K

/-- A task moves, or time passes. -/
inductive TimedMove (ι ρ K : Type) where
  | move (m : Move ι ρ)
  | pass (d : K)

/-- The task moves alone. -/
def TimedMove.move? : TimedMove ι ρ K → Option (Move ι ρ)
  | .move m => some m
  | .pass _ => none

namespace Timed

/-- All permits free, all tasks waiting, at time zero. -/
def initial (limit : Nat) : Timed ι ρ K := ⟨.initial limit, 0, fun _ => 0⟩

/-- Take a move. -/
def step (s : Timed ι ρ K) : TimedMove ι ρ K → Timed ι ρ K
  | .move (.start i) => ⟨s.toState.step (.start i), s.now, Function.update s.since i s.now⟩
  | .move (.finish i r) => ⟨s.toState.step (.finish i r), s.now, s.since⟩
  | .pass d => { s with now := s.now + d }

/-- A task that runs ends when its latency has passed.  Time passes while a task runs and none can
    start, up to the end of the next task. -/
def Allowed (may : ι → ρ → Prop) (latency : ι → K) (s : Timed ι ρ K) : TimedMove ι ρ K → Prop
  | .move (.start i) => s.toState.Allowed may (.start i)
  | .move (.finish i r) => s.toState.Allowed may (.finish i r) ∧ s.since i + latency i = s.now
  | .pass d => 0 ≤ d ∧ (∃ i, s.phase i = .running) ∧ (∀ i, ¬ s.toState.Allowed may (.start i))
      ∧ ∀ i, s.phase i = .running → s.now + d ≤ s.since i + latency i

variable {may : ι → ρ → Prop} {latency : ι → K} {s : Timed ι ρ K} {m : TimedMove ι ρ K}
  {trace : List (TimedMove ι ρ K)}

/-! ## Without the time -/

omit [IsStrictOrderedRing K] in
/-- **Without the time** a run is a run of the tasks. -/
theorem untimed (h : Guarded step (Allowed may latency) s trace) :
    Guarded State.step (State.Allowed may) s.toState (trace.filterMap TimedMove.move?)
      ∧ (run step s trace).toState = run State.step s.toState
        (trace.filterMap TimedMove.move?) := by
  induction trace generalizing s with
  | nil => exact ⟨trivial, rfl⟩
  | cons m trace ih =>
    obtain ⟨hm, hrest⟩ := h
    obtain ⟨hguarded, hrun⟩ := ih hrest
    cases m with
    | pass d => exact ⟨hguarded, hrun⟩
    | move m =>
      cases m with
      | start i => exact ⟨⟨hm, hguarded⟩, hrun⟩
      | finish i r => exact ⟨⟨hm.1, hguarded⟩, hrun⟩

/-! ## Work -/

/-- The work done for a task so far. -/
def done (latency : ι → K) (s : Timed ι ρ K) (i : ι) : K :=
  match s.phase i with
  | .waiting => 0
  | .running => s.now - s.since i
  | .ended _ => latency i

section Done

variable {i : ι}

omit [DecidableEq ι] [LinearOrder K] [IsStrictOrderedRing K] in
theorem done_waiting (h : s.phase i = .waiting) : s.done latency i = 0 := by rw [done, h]

omit [DecidableEq ι] [LinearOrder K] [IsStrictOrderedRing K] in
theorem done_running (h : s.phase i = .running) : s.done latency i = s.now - s.since i := by
  rw [done, h]

omit [DecidableEq ι] [LinearOrder K] [IsStrictOrderedRing K] in
theorem done_ended {r : ρ} (h : s.phase i = .ended r) : s.done latency i = latency i := by
  rw [done, h]

end Done

omit [DecidableEq ι] [LinearOrder K] [IsStrictOrderedRing K] in
/-- What is done with a task depends on its phase, its start and the time. -/
theorem done_congr {s' : Timed ι ρ K} {i : ι} (hphase : s'.phase i = s.phase i)
    (hsince : s'.since i = s.since i) (hnow : s'.now = s.now) :
    s'.done latency i = s.done latency i := by
  rw [done, done, hphase, hsince, hnow]

omit [LinearOrder K] [IsStrictOrderedRing K] in
/-- Starting a task does no work. -/
theorem done_start {i : ι} (hi : s.phase i = .waiting) (j : ι) :
    (s.step (.move (.start i))).done latency j = s.done latency j := by
  by_cases hij : j = i
  · subst hij
    have hrunning : (s.step (.move (.start j))).phase j = .running := Function.update_self ..
    have hsince : (s.step (.move (.start j))).since j = s.now := Function.update_self ..
    rw [done_running hrunning, done_waiting hi, hsince]
    exact sub_self _
  · exact done_congr (Function.update_of_ne hij ..) (Function.update_of_ne hij ..) rfl

omit [LinearOrder K] [IsStrictOrderedRing K] in
/-- A task that ends in time has done its work. -/
theorem done_finish {i : ι} {r : ρ} (hi : s.phase i = .running)
    (htime : s.since i + latency i = s.now) (j : ι) :
    (s.step (.move (.finish i r))).done latency j = s.done latency j := by
  by_cases hij : j = i
  · subst hij
    have hended : (s.step (.move (.finish j r))).phase j = .ended r := Function.update_self ..
    rw [done_ended hended, done_running hi, ← htime, add_sub_cancel_left]
  · exact done_congr (Function.update_of_ne hij ..) rfl rfl

variable [Fintype ι]

/-- The work done so far. -/
def work (latency : ι → K) (s : Timed ι ρ K) : K := Finset.univ.sum (s.done latency)

omit [LinearOrder K] [IsStrictOrderedRing K] in
/-- While time passes every task that runs does its work. -/
theorem work_pass {d : K} :
    (s.step (.pass d)).work latency = s.work latency + s.running.card * d := by
  have hdone : ∀ i, (s.step (.pass d)).done latency i
      = s.done latency i + if (s.phase i).isRunning then d else 0 := by
    intro i
    cases hi : s.phase i with
    | waiting =>
      rw [done_waiting (s := s.step (.pass d)) hi, done_waiting hi]
      exact (add_zero _).symm
    | running =>
      rw [done_running (s := s.step (.pass d)) hi, done_running hi]
      show s.now + d - s.since i = s.now - s.since i + d
      ring
    | ended r =>
      rw [done_ended (s := s.step (.pass d)) hi, done_ended hi]
      exact (add_zero _).symm
  rw [work, Finset.sum_congr rfl fun i _ => hdone i, Finset.sum_add_distrib, ← Finset.sum_filter,
    Finset.sum_const, nsmul_eq_mul]
  rfl

/-! ## The pace -/

/-- What holds at every time. -/
structure Paced (latency : ι → K) (limit : Nat) (s : Timed ι ρ K) : Prop where
  /-- Permits are neither lost nor made. -/
  permits : s.running.card + s.free = limit
  /-- A task that runs is in its time. -/
  running : ∀ i, s.phase i = .running → s.since i ≤ s.now ∧ s.now ≤ s.since i + latency i
  /-- A task that has ended has had its time. -/
  ended : ∀ i r, s.phase i = .ended r → s.since i + latency i ≤ s.now
  /-- Time and the starts count from zero. -/
  now : 0 ≤ s.now
  since : ∀ i, 0 ≤ s.since i
  /-- While a task waits, all permits have been at work. -/
  busy : (∃ i, s.phase i = .waiting) → limit * s.now = s.work latency
  /-- More work than that of all permits has not been done. -/
  atMost : s.work latency ≤ limit * s.now
  /-- A task started no later than the work of the others took on all permits. -/
  early : ∀ i, s.phase i ≠ .waiting → limit * s.since i + latency i ≤ Finset.univ.sum latency
  /-- Some task was at work up to now. -/
  last : s.now = 0 ∨ ∃ i, s.phase i ≠ .waiting ∧ s.now ≤ s.since i + latency i

omit [DecidableEq ι] [LinearOrder K] [IsStrictOrderedRing K] in
theorem work_initial (limit : Nat) : (initial limit : Timed ι ρ K).work latency = 0 :=
  Finset.sum_eq_zero fun _ _ => rfl

omit [DecidableEq ι] [IsStrictOrderedRing K] in
theorem Paced.initial (limit : Nat) : Paced latency limit (initial limit : Timed ι ρ K) where
  permits := by
    show (State.initial limit : State ι ρ).running.card + limit = limit
    rw [running_initial, Finset.card_empty, Nat.zero_add]
  running _ h := by cases h
  ended _ _ h := by cases h
  now := le_refl _
  since _ := le_refl _
  busy _ := by
    rw [work_initial]
    exact mul_zero _
  atMost := by
    rw [work_initial]
    exact (mul_zero _).symm.le
  early _ h := absurd rfl h
  last := .inl rfl

omit [DecidableEq ι] in
/-- No task has done more than its work. -/
theorem Paced.done_le {limit : Nat} (hs : Paced latency limit s) (hlatency : ∀ i, 0 ≤ latency i)
    (i : ι) : s.done latency i ≤ latency i := by
  cases hi : s.phase i with
  | waiting =>
    rw [done_waiting hi]
    exact hlatency i
  | running =>
    rw [done_running hi]
    linarith only [(hs.running i hi).2]
  | ended r => exact (done_ended hi).le

/-- **The crux**: a task that waits finds the work of the others at most done. -/
theorem Paced.waiting_early {limit : Nat} (hs : Paced latency limit s)
    (hlatency : ∀ i, 0 ≤ latency i) {i : ι} (hi : s.phase i = .waiting) :
    limit * s.now + latency i ≤ Finset.univ.sum latency := by
  have hothers : (Finset.univ.erase i).sum (s.done latency) ≤ (Finset.univ.erase i).sum latency :=
    Finset.sum_le_sum fun j _ => hs.done_le hlatency j
  have hnone : s.done latency i = 0 := done_waiting hi
  rw [hs.busy ⟨i, hi⟩, work, ← Finset.add_sum_erase _ _ (Finset.mem_univ i),
    ← Finset.add_sum_erase _ latency (Finset.mem_univ i), hnone]
  linarith only [hothers]

/-! ### Step by step -/

theorem Paced.start {limit : Nat} (hs : Paced latency limit s) (hlatency : ∀ i, 0 ≤ latency i)
    {i : ι} (hm : s.toState.Allowed may (.start i)) :
    Paced latency limit (s.step (.move (.start i))) := by
  have hself : (s.step (.move (.start i))).phase i = .running := Function.update_self ..
  have hnow : (s.step (.move (.start i))).since i = s.now := Function.update_self ..
  have hphase : ∀ {j}, j ≠ i → (s.step (.move (.start i))).phase j = s.phase j :=
    fun hij => Function.update_of_ne hij ..
  have hsince : ∀ {j}, j ≠ i → (s.step (.move (.start i))).since j = s.since j :=
    fun hij => Function.update_of_ne hij ..
  have hwork : (s.step (.move (.start i))).work latency = s.work latency :=
    Finset.sum_congr rfl fun j _ => done_start hm.1 j
  refine
    { permits := (running_add_free_step hm).trans hs.permits
      now := hs.now
      atMost := hwork ▸ hs.atMost
      running := fun j hj => ?_, ended := fun j r hj => ?_, since := fun j => ?_
      busy := fun ⟨j, hj⟩ => ?_, early := fun j hj => ?_, last := ?_ }
  · rcases eq_or_ne j i with rfl | hij
    · rw [hnow]
      exact ⟨le_refl _, le_add_of_nonneg_right (hlatency j)⟩
    · rw [hsince hij]
      exact hs.running j (hphase hij ▸ hj)
  · rcases eq_or_ne j i with rfl | hij
    · rw [hself] at hj
      cases hj
    · rw [hsince hij]
      exact hs.ended j r (hphase hij ▸ hj)
  · rcases eq_or_ne j i with rfl | hij
    · exact hnow ▸ hs.now
    · exact hsince hij ▸ hs.since j
  · rcases eq_or_ne j i with rfl | hij
    · rw [hself] at hj
      cases hj
    · rw [hwork]
      exact hs.busy ⟨j, hphase hij ▸ hj⟩
  · rcases eq_or_ne j i with rfl | hij
    · rw [hnow]
      exact hs.waiting_early hlatency hm.1
    · rw [hsince hij]
      exact hs.early j (hphase hij ▸ hj)
  · refine hs.last.imp_right fun ⟨j, hj, hlast⟩ => ⟨j, ?_⟩
    have hij : j ≠ i := fun hij => hj (hij ▸ hm.1)
    rw [hphase hij, hsince hij]
    exact ⟨hj, hlast⟩

omit [IsStrictOrderedRing K] in
theorem Paced.finish {limit : Nat} (hs : Paced latency limit s) {i : ι} {r : ρ}
    (hm : s.toState.Allowed may (.finish i r)) (htime : s.since i + latency i = s.now) :
    Paced latency limit (s.step (.move (.finish i r))) := by
  have hself : (s.step (.move (.finish i r))).phase i = .ended r := Function.update_self ..
  have hphase : ∀ {j}, j ≠ i → (s.step (.move (.finish i r))).phase j = s.phase j :=
    fun hij => Function.update_of_ne hij ..
  have hwork : (s.step (.move (.finish i r))).work latency = s.work latency :=
    Finset.sum_congr rfl fun j _ => done_finish hm.1 htime j
  -- it had started before it ended
  have hstarted : ∀ {j}, (s.step (.move (.finish i r))).phase j ≠ .waiting →
      s.phase j ≠ .waiting := by
    intro j hj
    rcases eq_or_ne j i with rfl | hij
    · rw [hm.1]
      exact fun h => by cases h
    · exact hphase hij ▸ hj
  refine
    { permits := (running_add_free_step hm).trans hs.permits
      now := hs.now
      since := hs.since
      atMost := hwork ▸ hs.atMost
      early := fun j hj => hs.early j (hstarted hj)
      running := fun j hj => ?_, ended := fun j r' hj => ?_, busy := fun ⟨j, hj⟩ => ?_, last := ?_ }
  · rcases eq_or_ne j i with rfl | hij
    · rw [hself] at hj
      cases hj
    · exact hs.running j (hphase hij ▸ hj)
  · rcases eq_or_ne j i with rfl | hij
    · exact htime.le
    · exact hs.ended j r' (hphase hij ▸ hj)
  · rcases eq_or_ne j i with rfl | hij
    · rw [hself] at hj
      cases hj
    · rw [hwork]
      exact hs.busy ⟨j, hphase hij ▸ hj⟩
  · refine .inr ⟨i, ?_, htime.ge⟩
    rw [hself]
    exact fun h => by cases h

theorem Paced.pass {limit : Nat} (hs : Paced latency limit s) {d : K}
    (hm : Allowed may latency s (.pass d)) : Paced latency limit (s.step (.pass d)) := by
  obtain ⟨hd, ⟨i, hi⟩, hnone, hend⟩ := hm
  have hpermits := hs.permits
  have hcard : (s.running.card : K) ≤ limit := Nat.cast_le.mpr (by omega)
  have hstarted : s.phase i ≠ .waiting := by
    rw [hi]
    exact fun h => by cases h
  refine
    { permits := hs.permits
      now := add_nonneg hs.now hd
      since := hs.since
      early := hs.early
      running := fun j hj => ⟨(hs.running j hj).1.trans (le_add_of_nonneg_right hd), hend j hj⟩
      ended := fun j r hj => (hs.ended j r hj).trans (le_add_of_nonneg_right hd)
      last := .inr ⟨i, hstarted, hend i hi⟩
      busy := fun ⟨j, hj⟩ => ?_, atMost := ?_ }
  · -- it waits since every permit is taken
    have hfree : ¬ 0 < s.free := fun hfree => hnone j ⟨hj, hfree⟩
    have hall : s.running.card = limit := by omega
    have hbusy : limit * s.now = s.work latency := hs.busy ⟨j, hj⟩
    rw [work_pass, ← hbusy, hall]
    exact mul_add _ _ _
  · have hmore : (s.running.card : K) * d ≤ limit * d := mul_le_mul_of_nonneg_right hcard hd
    have hsofar := hs.atMost
    rw [work_pass]
    show s.work latency + s.running.card * d ≤ limit * (s.now + d)
    linarith only [hmore, hsofar]

theorem Paced.step {limit : Nat} (hs : Paced latency limit s) (hlatency : ∀ i, 0 ≤ latency i)
    (hm : Allowed may latency s m) : Paced latency limit (s.step m) := by
  cases m with
  | pass d => exact hs.pass hm
  | move m =>
    cases m with
    | start i =>
      have hallowed : s.toState.Allowed may (.start i) := hm
      exact Paced.start hs hlatency hallowed
    | finish i r => exact Paced.finish hs hm.1 hm.2

/-- **Every run keeps the pace**. -/
theorem paced_run {limit : Nat} (hlatency : ∀ i, 0 ≤ latency i)
    (h : Guarded Timed.step (Allowed may latency) (Timed.initial limit) trace) :
    Paced latency limit (run Timed.step (Timed.initial limit) trace) :=
  h.inv (P := Paced latency limit) (fun _ _ hs hm => hs.step hlatency hm) (Paced.initial limit)

/-! ## When the last task ends -/

section Ended

variable {limit : Nat}

omit [DecidableEq ι] in
/-- The work takes its time on all permits. -/
theorem Paced.sum_le (hs : Paced latency limit s) (hended : ∀ i, ∃ r, s.phase i = .ended r) :
    Finset.univ.sum latency ≤ limit * s.now := by
  refine le_trans (Finset.sum_le_sum fun i _ => ?_) hs.atMost
  obtain ⟨r, hr⟩ := hended i
  exact (done_ended hr).ge

omit [DecidableEq ι] in
/-- Every task takes its time. -/
theorem Paced.latency_le (hs : Paced latency limit s)
    (hended : ∀ i, ∃ r, s.phase i = .ended r) (i : ι) : latency i ≤ s.now := by
  obtain ⟨r, hr⟩ := hended i
  exact (le_add_of_nonneg_left (hs.since i)).trans (hs.ended i r hr)

omit [DecidableEq ι] in
/-- **The last task** ends no later than its work after all the others' on all permits. -/
theorem Paced.now_le (hs : Paced latency limit s) (hlimit : 1 ≤ limit)
    {longest : K} (hlongest : 0 ≤ longest) (hlatency : ∀ i, 0 ≤ latency i ∧ latency i ≤ longest) :
    limit * s.now ≤ Finset.univ.sum latency + (limit - 1) * longest := by
  have hone : (1 : K) ≤ limit := by exact_mod_cast hlimit
  rcases hs.last with hzero | ⟨i, hi, hlast⟩
  · have hsum : 0 ≤ Finset.univ.sum latency := Finset.sum_nonneg fun i _ => (hlatency i).1
    have hrest : 0 ≤ ((limit : K) - 1) * longest := mul_nonneg (sub_nonneg.mpr hone) hlongest
    rw [hzero, mul_zero]
    exact add_nonneg hsum hrest
  · have hearly := hs.early i hi
    have hnow : limit * s.now ≤ limit * (s.since i + latency i) :=
      mul_le_mul_of_nonneg_left hlast (Nat.cast_nonneg limit)
    have hrest : ((limit : K) - 1) * latency i ≤ (limit - 1) * longest :=
      mul_le_mul_of_nonneg_left (hlatency i).2 (sub_nonneg.mpr hone)
    linarith only [hearly, hnow, hrest]

end Ended

/-! ## Every run can be completed -/

omit [DecidableEq ι] in
/-- Where no task can start and one has not ended, time may pass until the first running task
    ends. -/
theorem Paced.exists_next {limit : Nat} (hs : Paced latency limit s) (hlimit : 1 ≤ limit)
    (hnone : ∀ i, ¬ s.toState.Allowed may (.start i)) {i : ι} (hi : ∀ r, s.phase i ≠ .ended r) :
    ∃ d j, Allowed may latency s (.pass d) ∧ s.phase j = .running
      ∧ s.since j + latency j = s.now + d := by
  have hpermits := hs.permits
  have hsome : s.running.Nonempty := by
    rcases s.running.eq_empty_or_nonempty with hempty | hsome
    · rw [hempty, Finset.card_empty] at hpermits
      cases hphase : s.phase i with
      | waiting => exact absurd ⟨hphase, by omega⟩ (hnone i)
      | running => exact ⟨i, State.mem_running.mpr hphase⟩
      | ended r => exact absurd hphase (hi r)
    · exact hsome
  obtain ⟨j, hj, hfirst⟩ := s.running.exists_min_image (fun j => s.since j + latency j) hsome
  have hj := State.mem_running.mp hj
  refine ⟨s.since j + latency j - s.now, j, ⟨?_, ⟨j, hj⟩, hnone, fun k hk => ?_⟩, hj, ?_⟩
  · exact sub_nonneg.mpr (hs.running j hj).2
  · rw [add_sub_cancel]
    exact hfirst k (State.mem_running.mpr hk)
  · rw [add_sub_cancel]

/-- **No run is stuck**: it goes on to where every task has ended. -/
theorem Paced.exists_completion {limit : Nat} (hs : Paced latency limit s) (hlimit : 1 ≤ limit)
    (hlatency : ∀ i, 0 ≤ latency i) (hmay : ∀ i, ∃ r, may i r) :
    ∃ trace, Guarded Timed.step (Allowed may latency) s trace
      ∧ ∀ i, ∃ r, (run Timed.step s trace).phase i = .ended r := by
  -- by the moves that are left to the tasks
  induction hleft : s.left generalizing s with
  | zero =>
    refine ⟨[], trivial, fun i => ?_⟩
    have hzero : (s.phase i).left = 0 := Finset.sum_eq_zero_iff.mp hleft i (Finset.mem_univ i)
    show ∃ r, s.phase i = .ended r
    cases hphase : s.phase i with
    | waiting => rw [hphase] at hzero; cases hzero
    | running => rw [hphase] at hzero; cases hzero
    | ended r => exact ⟨r, rfl⟩
  | succ n ih =>
    by_cases hstart : ∃ i, s.toState.Allowed may (.start i)
    · obtain ⟨i, hi⟩ := hstart
      have hless := left_step hi
      obtain ⟨trace, hguarded, hended⟩ := ih (hs.start hlatency hi)
        (by show (s.toState.step (.start i)).left = n; omega)
      exact ⟨.move (.start i) :: trace, ⟨hi, hguarded⟩, hended⟩
    · by_cases hall : ∀ i, ∃ r, s.phase i = .ended r
      · exact ⟨[], trivial, hall⟩
      · obtain ⟨i, hi⟩ := not_forall.mp hall
        obtain ⟨d, j, hpass, hj, htime⟩ :=
          hs.exists_next hlimit (not_exists.mp hstart) (not_exists.mp hi)
        obtain ⟨r, hr⟩ := hmay j
        have hfinish : (s.step (.pass d)).toState.Allowed may (.finish j r) := ⟨hj, hr⟩
        have hless := left_step hfinish
        obtain ⟨trace, hguarded, hended⟩ := ih ((hs.pass hpass).finish hfinish htime)
          (by show (s.toState.step (.finish j r)).left = n
              have hless : (s.toState.step (.finish j r)).left + 1 = s.left := hless
              omega)
        exact ⟨.pass d :: .move (.finish j r) :: trace, ⟨hpass, ⟨hfinish, htime⟩, hguarded⟩, hended⟩

/-! ## Waves

Tasks that all take the same time start in waves. -/

/-- Tasks start at multiples of the time they take. -/
structure InWaves (wave : K) (s : Timed ι ρ K) : Prop where
  since : ∀ i, s.phase i ≠ .waiting → ∃ k : Nat, s.since i = k * wave
  now : (∃ i, s.phase i = .waiting) → 0 < s.free → ∃ k : Nat, s.now = k * wave

omit [DecidableEq ι] [LinearOrder K] [IsStrictOrderedRing K] [Fintype ι] in
theorem InWaves.initial (limit : Nat) {wave : K} :
    InWaves wave (Timed.initial limit : Timed ι ρ K) where
  since _ h := absurd rfl h
  now _ _ := ⟨0, (by rw [Nat.cast_zero, zero_mul]; rfl)⟩

omit [IsStrictOrderedRing K] [Fintype ι] in
theorem InWaves.step {wave : K} (hw : InWaves wave s) (hm : Allowed may (fun _ => wave) s m) :
    InWaves wave (s.step m) := by
  cases m with
  | pass d =>
    -- no task could start
    obtain ⟨-, -, hnone, -⟩ := hm
    exact ⟨hw.since, fun ⟨i, hi⟩ hfree => absurd ⟨hi, hfree⟩ (hnone i)⟩
  | move m =>
    cases m with
    | start i =>
      obtain ⟨hi, hfree⟩ := hm
      have hnow := hw.now ⟨i, hi⟩ hfree
      refine ⟨fun j hj => ?_, fun _ _ => hnow⟩
      rcases eq_or_ne j i with rfl | hij
      · rw [show (s.step (.move (.start j))).since j = s.now from Function.update_self ..]
        exact hnow
      · rw [show (s.step (.move (.start i))).since j = s.since j from Function.update_of_ne hij ..]
        have hphase : (s.step (.move (.start i))).phase j = s.phase j :=
          Function.update_of_ne hij ..
        exact hw.since j (hphase ▸ hj)
    | finish i r =>
      obtain ⟨⟨hi, -⟩, htime⟩ := hm
      have hstarted : s.phase i ≠ .waiting := by
        rw [hi]
        exact fun h => by cases h
      obtain ⟨k, hk⟩ := hw.since i hstarted
      refine ⟨fun j hj => ?_, fun _ _ => ⟨k + 1, ?_⟩⟩
      · rcases eq_or_ne j i with rfl | hij
        · exact ⟨k, hk⟩
        · have hphase : (s.step (.move (.finish i r))).phase j = s.phase j :=
            Function.update_of_ne hij ..
          exact hw.since j (hphase ▸ hj)
      · show s.now = ((k + 1 : Nat) : K) * wave
        rw [← htime, hk, Nat.cast_succ, add_mul, one_mul]

omit [IsStrictOrderedRing K] [Fintype ι] in
theorem inWaves_run {limit : Nat} {wave : K}
    (h : Guarded Timed.step (Allowed may fun _ => wave) (Timed.initial limit) trace) :
    InWaves wave (run Timed.step (Timed.initial limit) trace) :=
  h.inv (P := InWaves wave) (fun _ _ hw hm => hw.step hm) (.initial limit)

omit [DecidableEq ι] in
/-- **Waves**: tasks that all take the same time end after as many waves as they fill. -/
theorem Paced.now_eq {limit : Nat} {wave : K} (hs : Paced (fun _ => wave) limit s)
    (hw : InWaves wave s) (hended : ∀ i, ∃ r, s.phase i = .ended r) (hlimit : 1 ≤ limit)
    (hwave : 0 < wave) :
    s.now = ((Fintype.card ι + limit - 1) / limit : Nat) * wave := by
  obtain ⟨m, hm⟩ : ∃ m : Nat, s.now = m * wave := by
    rcases hs.last with hzero | ⟨i, hi, hlast⟩
    · exact ⟨0, by rw [hzero, Nat.cast_zero, zero_mul]⟩
    · obtain ⟨r, hr⟩ := hended i
      obtain ⟨k, hk⟩ := hw.since i hi
      refine ⟨k + 1, ?_⟩
      rw [le_antisymm hlast (hs.ended i r hr), hk, Nat.cast_succ, add_mul, one_mul]
  have hsum : (Finset.univ : Finset ι).sum (fun _ => wave) = Fintype.card ι * wave := by
    rw [Finset.sum_const, nsmul_eq_mul, Finset.card_univ]
  -- between the two bounds there is room for one number of waves
  have hleast : Fintype.card ι ≤ limit * m := by
    have h := hs.sum_le hended
    rw [hsum, hm, ← mul_assoc] at h
    exact_mod_cast le_of_mul_le_mul_right h hwave
  have hmost : limit * m ≤ Fintype.card ι + (limit - 1) := by
    have h := hs.now_le hlimit hwave.le fun _ => ⟨hwave.le, le_refl _⟩
    rw [hsum, hm, ← mul_assoc, ← add_mul, ← Nat.cast_pred hlimit] at h
    exact_mod_cast le_of_mul_le_mul_right h hwave
  have hdiv : (Fintype.card ι + limit - 1) / limit = m := by
    refine Nat.div_eq_of_lt_le ?_ ?_
    · rw [Nat.mul_comm]
      omega
    · rw [Nat.mul_comm, Nat.mul_succ]
      omega
  rw [hdiv, hm]

end Timed

end Permits
