/-
  Runs of a system that moves step by step, and conditions on the steps of a run.

  `Guarded` says that every step of a trace is taken in a state that allows it.  What the allowed
  steps keep holds in every state such a trace reaches (`Guarded.inv`); which steps a trace takes in
  which states is read off it by position (`guarded_iff`).

  An observer sees some of the moves.  If the others change nothing for him, a run is for him the
  run of what he sees (`Guarded.unwind`).
-/
import Mathlib.Data.List.Basic

namespace Trace

variable {σ μ : Type} (step : σ → μ → σ)

/-- Take the steps of a trace, the first one first. -/
def run (s : σ) (trace : List μ) : σ := trace.foldl step s

@[simp] theorem run_nil (s : σ) : run step s [] = s := rfl

@[simp] theorem run_cons (s : σ) (m : μ) (trace : List μ) :
    run step s (m :: trace) = run step (step s m) trace := rfl

theorem run_append (s : σ) (before after : List μ) :
    run step s (before ++ after) = run step (run step s before) after := List.foldl_append

/-- Every step of the trace is taken in a state that allows it. -/
def Guarded (ok : σ → μ → Prop) : σ → List μ → Prop
  | _, [] => True
  | s, m :: trace => ok s m ∧ Guarded ok (step s m) trace

variable {step} {ok : σ → μ → Prop} {s : σ} {trace : List μ}

theorem guarded_append {before after : List μ} : Guarded step ok s (before ++ after)
    ↔ Guarded step ok s before ∧ Guarded step ok (run step s before) after := by
  induction before generalizing s with
  | nil => exact (and_iff_right trivial).symm
  | cons m before ih =>
    show ok s m ∧ Guarded step ok (step s m) (before ++ after) ↔ _
    rw [ih, ← and_assoc]
    rfl

/-- The steps of a trace, by their positions. -/
theorem guarded_iff : Guarded step ok s trace
    ↔ ∀ before m after, trace = before ++ m :: after → ok (run step s before) m := by
  constructor
  · rintro h before m after rfl
    exact (guarded_append.mp h).2.1
  · intro h
    induction trace generalizing s with
    | nil => trivial
    | cons m trace ih =>
      refine ⟨h [] m trace rfl, ih fun before m' after heq => ?_⟩
      exact h (m :: before) m' after (by rw [heq]; rfl)

/-- Steps that are allowed in two ways. -/
theorem Guarded.and {ok' : σ → μ → Prop} (h : Guarded step ok s trace)
    (h' : Guarded step ok' s trace) : Guarded step (fun s m => ok s m ∧ ok' s m) s trace := by
  induction trace generalizing s with
  | nil => trivial
  | cons m trace ih => exact ⟨⟨h.1, h'.1⟩, ih h.2 h'.2⟩

/-- **Invariants**: what allowed steps keep holds after every trace of them. -/
theorem Guarded.inv {P : σ → Prop} (hstep : ∀ s m, P s → ok s m → P (step s m))
    (h : Guarded step ok s trace) (hs : P s) : P (run step s trace) := by
  induction trace generalizing s with
  | nil => exact hs
  | cons m trace ih => exact ih h.2 (hstep s m hs h.1)

/-- Steps that are allowed are allowed in another way, in the states that are reached. -/
theorem Guarded.imp {P : σ → Prop} {ok' : σ → μ → Prop}
    (hstep : ∀ s m, P s → ok s m → P (step s m)) (himp : ∀ s m, P s → ok s m → ok' s m)
    (h : Guarded step ok s trace) (hs : P s) : Guarded step ok' s trace := by
  induction trace generalizing s with
  | nil => trivial
  | cons m trace ih => exact ⟨himp s m hs h.1, ih h.2 (hstep s m hs h.1)⟩

/-! ## What is seen of a trace -/

section Observed

variable {τ ν : Type}

/-- What an observer sees of a trace: the moves that show, each in the state it is taken in. -/
def observed (step : σ → μ → σ) (see : σ → μ → Option ν) : σ → List μ → List ν
  | _, [] => []
  | s, m :: trace => (see s m).toList ++ observed step see (step s m) trace

theorem observed_append {see : σ → μ → Option ν} {before after : List μ} :
    observed step see s (before ++ after)
      = observed step see s before ++ observed step see (run step s before) after := by
  induction before generalizing s with
  | nil => rfl
  | cons m before ih =>
    rw [List.cons_append, observed, ih, observed, run_cons, List.append_assoc]

/-- **Unwinding**: if moves that do not show keep two states related, and moves that show do when
    the second state replays what is seen, then a run is related to the replay of what is seen of
    it. -/
theorem Guarded.unwind {see : σ → μ → Option ν} {replay : τ → ν → τ} {R : σ → τ → Prop}
    (hhidden : ∀ s m t, ok s m → R s t → see s m = none → R (step s m) t)
    (hseen : ∀ s m t v, ok s m → R s t → see s m = some v → R (step s m) (replay t v)) {t : τ}
    (h : Guarded step ok s trace) (hR : R s t) :
    R (run step s trace) (run replay t (observed step see s trace)) := by
  induction trace generalizing s t with
  | nil => exact hR
  | cons m trace ih =>
    rw [run_cons, observed]
    cases hsee : see s m with
    | none => exact ih h.2 (hhidden s m t h.1 hR hsee)
    | some v => exact ih h.2 (hseen s m t v h.1 hR hsee)

end Observed

end Trace
