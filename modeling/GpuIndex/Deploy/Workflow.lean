/-
  The deploy job of the CI workflow, with any number of its runs at a time.

  A run captures the revision the service is on, registers and deploys its own, tests whatever is
  live then, and on a failure redeploys what it captured.  The service is one pointer that all runs
  share, and the workflow names no concurrency group, so the steps of runs may come in any order.

  The crux is `Sound`: a bad revision is live only while the run that deployed it is unfinished.  A
  run that captures in such a state has a bad revision to roll back to, and
  **`rollback_safe_iff`** says that this is the only way to lose the known-good target.
-/
import GpuIndex.Lib.Trace

namespace GpuIndex

open Trace

/-! ## The job -/

/-- A registered task definition, by its number. -/
abbrev Revision := Nat

/-- Where a run of the job is; `target` is the captured revision, `own` the one it registered. -/
inductive JobPhase where
  | waiting
  | captured (target : Revision)
  | built (target : Revision)
  | registered (target own : Revision)
  | deployed (target own : Revision)
  /-- A step has failed, and the rollback is next. -/
  | failing (target : Revision) (own : Option Revision)
  | finished
  deriving DecidableEq

/-- The service, and the runs of the job. -/
structure Pipeline where
  /-- `services[0].taskDefinition` -/
  live : Revision
  /-- The number the next registered task definition gets. -/
  next : Revision
  /-- The revisions that were live when a smoke test failed (ghost). -/
  failed : List Revision
  phase : Nat → JobPhase

/-- A run enters a phase. -/
def Pipeline.enter (s : Pipeline) (i : Nat) (phase : JobPhase) : Pipeline :=
  { s with phase := fun j => if j = i then phase else s.phase j }

/-- The next step of a run: which run it is, and how its image builds. -/
structure JobStep where
  run : Nat
  builds : Bool

/-- Take a step.  The smoke test looks at what is live, whoever deployed it. -/
def Pipeline.step (good : Revision → Bool) (s : Pipeline) (m : JobStep) : Pipeline :=
  match s.phase m.run with
  | .waiting => s.enter m.run (.captured s.live)
  | .captured target =>
    if m.builds then s.enter m.run (.built target) else s.enter m.run (.failing target none)
  | .built target => { s with next := s.next + 1 }.enter m.run (.registered target s.next)
  | .registered target own => { s with live := own }.enter m.run (.deployed target own)
  | .deployed target own =>
    if good s.live then s.enter m.run .finished
    else { s with failed := s.live :: s.failed }.enter m.run (.failing target (some own))
  | .failing target _ => { s with live := target }.enter m.run .finished
  | .finished => s

/-- Before the first run the service is on a known-good revision. -/
structure Pipeline.Fresh (good : Revision → Bool) (s : Pipeline) : Prop where
  live : good s.live = true
  failed : s.failed = []
  phase : ∀ i, s.phase i = .waiting

/-! ## What a run holds -/

/-- The revision a run would roll back to. -/
def JobPhase.target? : JobPhase → Option Revision
  | .waiting => none
  | .captured target => some target
  | .built target => some target
  | .registered target _ => some target
  | .deployed target _ => some target
  | .failing target _ => some target
  | .finished => none

/-- The revision that a run has deployed and not yet accounted for. -/
def JobPhase.unfinished? : JobPhase → Option Revision
  | .deployed _ own => some own
  | .failing _ own => own
  | _ => none

/-- Every captured rollback target is known-good. -/
def Pipeline.TargetsGood (good : Revision → Bool) (s : Pipeline) : Prop :=
  ∀ i target, (s.phase i).target? = some target → good target = true

/-- The service is on a bad revision that an unfinished run has deployed. -/
def Pipeline.Unverified (good : Revision → Bool) (s : Pipeline) : Prop :=
  good s.live = false ∧ ∃ i, (s.phase i).unfinished? = some s.live

/-- A step that is no capture, or a capture of what is not unverified. -/
def Pipeline.CapturesVerified (good : Revision → Bool) (s : Pipeline) (m : JobStep) : Prop :=
  s.phase m.run = .waiting → ¬ s.Unverified good

@[simp] theorem Pipeline.enter_self (s : Pipeline) (i : Nat) (phase : JobPhase) :
    (s.enter i phase).phase i = phase := if_pos rfl

theorem Pipeline.enter_ne (s : Pipeline) {i j : Nat} (phase : JobPhase) (h : j ≠ i) :
    (s.enter i phase).phase j = s.phase j := if_neg h

/-! ## The invariant -/

/-- Targets are good, a bad revision is live only while its run is unfinished, and what failed was
    bad. -/
structure Pipeline.Sound (good : Revision → Bool) (s : Pipeline) : Prop where
  targets : s.TargetsGood good
  live : good s.live = true ∨ ∃ i, (s.phase i).unfinished? = some s.live
  failed : ∀ r ∈ s.failed, good r = false

theorem Pipeline.Fresh.sound {good : Revision → Bool} {s : Pipeline} (h : s.Fresh good) :
    s.Sound good where
  targets := by
    intro i target htarget
    rw [h.phase i] at htarget
    cases htarget
  live := .inl h.live
  failed := by
    intro r hr
    rw [h.failed] at hr
    exact absurd hr List.not_mem_nil

section Step

variable {good : Revision → Bool} {s : Pipeline} {i : Nat} {phase : JobPhase}

/-- A run that enters a phase with a good target keeps the targets good. -/
theorem Pipeline.TargetsGood.enter (h : s.TargetsGood good)
    (hphase : ∀ target, phase.target? = some target → good target = true) :
    (s.enter i phase).TargetsGood good := by
  intro j target htarget
  by_cases hj : j = i
  · subst hj
    rw [Pipeline.enter_self] at htarget
    exact hphase target htarget
  · rw [Pipeline.enter_ne s phase hj] at htarget
    exact h j target htarget

/-- Runs other than the one that moves still hold what they deployed. -/
theorem Pipeline.unfinished_enter {r : Revision}
    (h : ∃ j, (s.phase j).unfinished? = some r)
    (hself : (s.phase i).unfinished? = some r → phase.unfinished? = some r) :
    ∃ j, ((s.enter i phase).phase j).unfinished? = some r := by
  obtain ⟨j, hj⟩ := h
  by_cases hji : j = i
  · subst hji
    exact ⟨j, by rw [Pipeline.enter_self]; exact hself hj⟩
  · exact ⟨j, by rw [Pipeline.enter_ne s phase hji]; exact hj⟩

/-- A run that enters a phase keeps the invariant, if the phase's target is good and what is live is
    good or still accounted for. -/
theorem Pipeline.Sound.enter (h : s.Sound good)
    (htarget : ∀ target, phase.target? = some target → good target = true)
    (hlive : good s.live = true
      ∨ ((s.phase i).unfinished? = some s.live → phase.unfinished? = some s.live)) :
    (s.enter i phase).Sound good where
  targets := h.targets.enter htarget
  live := by
    rcases hlive with hgood | hself
    · exact .inl hgood
    · exact h.live.imp id fun hl => Pipeline.unfinished_enter hl hself
  failed := h.failed

/-- **One step** keeps the invariant, unless it captures a bad revision of an unfinished run. -/
theorem Pipeline.Sound.step (h : s.Sound good) {m : JobStep} (hm : s.CapturesVerified good m) :
    (s.step good m).Sound good := by
  have htarget (target : Revision) (ht : (s.phase m.run).target? = some target) :
      good target = true := h.targets m.run target ht
  -- a run that has deployed nothing accounts for nothing
  have hnothing (phase : JobPhase) (hphase : (s.phase m.run).unfinished? = none) :
      (s.phase m.run).unfinished? = some s.live → phase.unfinished? = some s.live := by
    rw [hphase]
    exact fun h => nomatch h
  unfold Pipeline.step
  cases hphase : s.phase m.run with
  | waiting =>
    have hlive : good s.live = true := by
      by_contra hbad
      rw [Bool.not_eq_true] at hbad
      exact hm hphase ⟨hbad, h.live.resolve_left (by rw [hbad]; exact Bool.false_ne_true)⟩
    exact h.enter (fun target ht => Option.some.inj ht ▸ hlive) (.inl hlive)
  | captured target =>
    rw [hphase] at htarget
    dsimp only
    split
    · exact h.enter htarget (.inr (hnothing _ (by rw [hphase]; rfl)))
    · exact h.enter htarget (.inr (hnothing _ (by rw [hphase]; rfl)))
  | built target =>
    rw [hphase] at htarget
    have hnext : Pipeline.Sound good { s with next := s.next + 1 } := ⟨h.targets, h.live, h.failed⟩
    exact hnext.enter htarget (.inr (hnothing _ (by rw [hphase]; rfl)))
  | registered target own =>
    -- what is live from here on is the run's own revision
    rw [hphase] at htarget
    exact ⟨Pipeline.TargetsGood.enter h.targets htarget,
      .inr ⟨m.run, by rw [Pipeline.enter_self]; rfl⟩, h.failed⟩
  | deployed target own =>
    rw [hphase] at htarget
    dsimp only
    split
    · rename_i hgood
      exact h.enter (fun _ ht => nomatch ht) (.inl hgood)
    · rename_i hbad
      rw [Bool.not_eq_true] at hbad
      have hfailed : Pipeline.Sound good { s with failed := s.live :: s.failed } :=
        ⟨h.targets, h.live, List.forall_mem_cons.mpr ⟨hbad, h.failed⟩⟩
      exact hfailed.enter htarget (.inr (by rw [hphase]; exact id))
  | failing target own =>
    rw [hphase] at htarget
    have hback : Pipeline.Sound good { s with live := target } :=
      ⟨h.targets, .inl (htarget target rfl), h.failed⟩
    exact hback.enter (fun _ ht => nomatch ht) (.inl (htarget target rfl))
  | finished => exact h

end Step

/-! ## Runs -/

/-- **When rollback is safe**: in every interleaving that starts on a known-good revision, the
    captured targets are all good exactly if no run captures a bad revision of an unfinished run;
    and then, once all runs have finished, the service is not on a revision that failed a smoke
    test. -/
theorem rollback_safe_iff (good : Revision → Bool) (s : Pipeline) (hfresh : s.Fresh good)
    (trace : List JobStep) :
    (Guarded (Pipeline.step good) (Pipeline.CapturesVerified good) s trace
        ↔ ∀ before after, trace = before ++ after →
          (run (Pipeline.step good) s before).TargetsGood good)
      ∧ (Guarded (Pipeline.step good) (Pipeline.CapturesVerified good) s trace →
        (∀ i, (run (Pipeline.step good) s trace).phase i = .waiting
          ∨ (run (Pipeline.step good) s trace).phase i = .finished) →
        (run (Pipeline.step good) s trace).live
          ∉ (run (Pipeline.step good) s trace).failed) := by
  have hsound (before : List JobStep)
      (h : Guarded (Pipeline.step good) (Pipeline.CapturesVerified good) s before) :
      (run (Pipeline.step good) s before).Sound good :=
    h.inv (fun s m hs hm => hs.step hm) hfresh.sound
  refine ⟨⟨fun h before after htrace => ?_, fun h => guarded_iff.mpr ?_⟩, fun h hdone hfailed => ?_⟩
  · rw [htrace, guarded_append] at h
    exact (hsound before h.1).targets
  · -- a capture makes what is live a target
    intro before m after htrace hwaiting hunverified
    have htargets := h (before ++ [m]) after (by rw [htrace, List.append_assoc]; rfl)
    rw [run_append, run_cons, run_nil] at htargets
    have hlive : good (run (Pipeline.step good) s before).live = true := by
      refine htargets m.run _ ?_
      rw [Pipeline.step, hwaiting]
      dsimp only
      rw [Pipeline.enter_self]
      rfl
    rw [hunverified.1] at hlive
    cases hlive
  · have hend := hsound trace h
    rcases hend.live with hgood | ⟨i, hi⟩
    · rw [hend.failed _ hfailed] at hgood
      cases hgood
    · rcases hdone i with hphase | hphase
      · rw [hphase] at hi
        cases hi
      · rw [hphase] at hi
        cases hi

/-! ## Two runs -/

/-- A run that takes no step stays where it is. -/
theorem phase_run_of_not_mem (good : Revision → Bool) {i : Nat} (s : Pipeline)
    {trace : List JobStep}
    (h : ∀ m ∈ trace, m.run ≠ i) : (run (Pipeline.step good) s trace).phase i = s.phase i := by
  have hstep (s : Pipeline) (m : JobStep) (hm : m.run ≠ i) :
      (s.step good m).phase i = s.phase i := by
    unfold Pipeline.step
    split
    · exact s.enter_ne _ hm.symm
    · split <;> exact s.enter_ne _ hm.symm
    · exact Pipeline.enter_ne _ _ hm.symm
    · exact Pipeline.enter_ne _ _ hm.symm
    · split <;> exact Pipeline.enter_ne _ _ hm.symm
    · exact Pipeline.enter_ne _ _ hm.symm
    · rfl
  induction trace generalizing s with
  | nil => rfl
  | cons m trace ih =>
    obtain ⟨hm, hrest⟩ := List.forall_mem_cons.mp h
    rw [run_cons, ih _ hrest, hstep s m hm]

/-- The service before the runs: on revision 0, the only one that is good. -/
def quietPipeline : Pipeline := ⟨0, 1, [], fun _ => .waiting⟩

theorem quietPipeline_fresh : quietPipeline.Fresh (· = 0) := ⟨rfl, rfl, fun _ => rfl⟩

/-- A step of a run whose image builds. -/
def stepOf (i : Nat) : JobStep := ⟨i, true⟩

/-- The second run starts while the first one's revision is live and untested. -/
def overlapping : List JobStep :=
  [0, 0, 0, 0, 1, 0, 0, 1, 1, 1, 1, 1].map stepOf

/-- Only two runs of a trace have left their first phase. -/
theorem done_of_two {trace : List JobStep} (htwo : ∀ m ∈ trace, m.run = 0 ∨ m.run = 1)
    (hfirst : (run (Pipeline.step (· = 0)) quietPipeline trace).phase 0 = .finished)
    (hsecond : (run (Pipeline.step (· = 0)) quietPipeline trace).phase 1 = .finished) (i : Nat) :
    (run (Pipeline.step (· = 0)) quietPipeline trace).phase i = .waiting
      ∨ (run (Pipeline.step (· = 0)) quietPipeline trace).phase i = .finished := by
  by_cases hi : i = 0 ∨ i = 1
  · rcases hi with rfl | rfl
    · exact .inr hfirst
    · exact .inr hsecond
  · refine .inl (phase_run_of_not_mem _ _ fun m hm => ?_)
    have hruns := htwo m hm
    omega

theorem rollback_to_failed :
    quietPipeline.Fresh (· = 0)
      ∧ (∀ i, (run (Pipeline.step (· = 0)) quietPipeline overlapping).phase i = .waiting
        ∨ (run (Pipeline.step (· = 0)) quietPipeline overlapping).phase i = .finished)
      ∧ (run (Pipeline.step (· = 0)) quietPipeline overlapping).live
        ∈ (run (Pipeline.step (· = 0)) quietPipeline overlapping).failed :=
  ⟨quietPipeline_fresh, done_of_two (by decide) (by decide) (by decide), by decide⟩

/-- One run after the other; the revisions of both fail their tests. -/
def serialised : List JobStep := [0, 0, 0, 0, 0, 0, 1, 1, 1, 1, 1, 1].map stepOf

/-- Each run captures the good revision. -/
theorem capturesVerified_serialised :
    Guarded (Pipeline.step (· = 0)) (Pipeline.CapturesVerified (· = 0)) quietPipeline
      serialised := by
  have hverified {s : Pipeline} {m : JobStep} (h : s.phase m.run = .waiting → s.live = 0) :
      s.CapturesVerified (· = 0) m := fun hwaiting hunverified => by
    have hbad := of_decide_eq_false hunverified.1
    exact hbad (h hwaiting)
  repeat first | exact trivial | refine ⟨hverified (by decide), ?_⟩

theorem rollback_safe_iff_serialised :
    (∀ before after, serialised = before ++ after →
        (run (Pipeline.step (· = 0)) quietPipeline before).TargetsGood (· = 0))
      ∧ (run (Pipeline.step (· = 0)) quietPipeline serialised).failed = [2, 1]
      ∧ (run (Pipeline.step (· = 0)) quietPipeline serialised).live
        ∉ (run (Pipeline.step (· = 0)) quietPipeline serialised).failed := by
  have hsafe := rollback_safe_iff _ quietPipeline quietPipeline_fresh serialised
  exact ⟨hsafe.1.mp capturesVerified_serialised, by decide,
    hsafe.2 capturesVerified_serialised (done_of_two (by decide) (by decide) (by decide))⟩

end GpuIndex
