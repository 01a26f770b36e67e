/-
  Programs that run at the same time, one call at a time.

  The threads of a pool share one state and have one each of their own.  A move answers the next
  call of one thread, or changes the shared state from outside.

  `Amid` is the weakest precondition of one thread amid all others: between any two of its calls the
  shared state may have moved as `R` says.  The rules for `pure`, one call and `bind` are those of a
  thread that runs alone; `amid_run` is the rule of the pool: when every other move is as `R` says,
  what was shown of the thread still holds wherever it has come.
-/
import GpuIndex.Lib.Prog
import GpuIndex.Lib.Trace
import Mathlib.Logic.Function.Basic

namespace Pool

open Trace

variable {ι κ σ τ α β : Type} {S : Sig}

/-! ## The pool -/

/-- The shared state, and of every thread its own state and what is left of its program. -/
structure State (S : Sig) (ι σ τ α : Type) where
  shared : σ
  own : ι → τ
  prog : ι → Prog S α

/-- A thread takes a step, or the outside does. -/
inductive Move (ι κ σ : Type) where
  | call (i : ι) (c : κ)
  | outside (w : σ)

/-- How a call of a thread is answered. -/
abbrev Handler (S : Sig) (κ σ τ : Type) := κ → (op : S.Op) → σ × τ → S.Ans op × (σ × τ)

section Step

variable [DecidableEq ι] (h : ι → Handler S κ σ τ)

/-- The next call of a thread is answered. -/
def State.answer (s : State S ι σ τ α) (i : ι) (c : κ) (op : S.Op) (k : S.Ans op → Prog S α) :
    State S ι σ τ α where
  shared := (h i c op (s.shared, s.own i)).2.1
  own := Function.update s.own i (h i c op (s.shared, s.own i)).2.2
  prog := Function.update s.prog i (k (h i c op (s.shared, s.own i)).1)

/-- Take a move; a thread that has ended stays as it is. -/
def State.step (s : State S ι σ τ α) : Move ι κ σ → State S ι σ τ α
  | .call i c =>
    match s.prog i with
    | .pure _ => s
    | .call op k => s.answer h i c op k
  | .outside w => { s with shared := w }

end Step

/-! ## One thread amid the others -/

/-- Whatever is chosen at each call, among the choices in `C`, and however the shared state has
    moved by then, the thread ends as `Q` says. -/
def Amid (C : κ → Prop) (h : Handler S κ σ τ) (R : τ → σ → σ → Prop) (Q : α → σ → τ → Prop) :
    Prog S α → σ → τ → Prop
  | .pure a, w, l => ∀ w', R l w w' → Q a w' l
  | .call op k, w, l => ∀ w', R l w w' → ∀ c, C c →
      Amid C h R Q (k (h c op (w', l)).1) (h c op (w', l)).2.1 (h c op (w', l)).2.2

section Rules

variable {C : κ → Prop} {h : Handler S κ σ τ} {R : τ → σ → σ → Prop} {w : σ} {l : τ}

/-- A thread may go on from a shared state that has moved. -/
theorem Amid.moved (htrans : ∀ l w₁ w₂ w₃, R l w₁ w₂ → R l w₂ w₃ → R l w₁ w₃) {w' : σ}
    {Q : α → σ → τ → Prop} {p : Prog S α} (hp : Amid C h R Q p w l) (hR : R l w w') :
    Amid C h R Q p w' l := by
  cases p with
  | pure a => exact fun w'' hR' => hp w'' (htrans l w w' w'' hR hR')
  | call op k => exact fun w'' hR' => hp w'' (htrans l w w' w'' hR hR')

theorem amid_mono {Q Q' : α → σ → τ → Prop} {p : Prog S α} (hp : Amid C h R Q p w l)
    (hQ : ∀ a w l, Q a w l → Q' a w l) : Amid C h R Q' p w l := by
  induction p generalizing w l with
  | pure a => exact fun w' hR => hQ a w' l (hp w' hR)
  | call op k ih => exact fun w' hR c hc => ih _ (hp w' hR c hc)

/-- Sequencing: the second program starts where the first ends. -/
theorem amid_bind {Q : α → σ → τ → Prop} {Q' : β → σ → τ → Prop} {p : Prog S α}
    {f : α → Prog S β} (hp : Amid C h R Q p w l)
    (hf : ∀ a w l, (∀ w', R l w w' → Q a w' l) → Amid C h R Q' (f a) w l) :
    Amid C h R Q' (p >>= f) w l := by
  induction p generalizing w l with
  | pure a => exact hf a w l hp
  | call op k ih => exact fun w' hR c hc => ih _ (hp w' hR c hc)

/-- Two postconditions hold together. -/
theorem amid_and {Q Q' : α → σ → τ → Prop} {p : Prog S α} (hQ : Amid C h R Q p w l)
    (hQ' : Amid C h R Q' p w l) : Amid C h R (fun a w l => Q a w l ∧ Q' a w l) p w l := by
  induction p generalizing w l with
  | pure a => exact fun w' hR => ⟨hQ w' hR, hQ' w' hR⟩
  | call op k ih => exact fun w' hR c hc => ih _ (hQ w' hR c hc) (hQ' w' hR c hc)

/-- What the moves of the others and the calls in `A` keep holds at the end. -/
theorem amid_of_only {A : S.Op → Prop} {P : σ → τ → Prop}
    (hmoved : ∀ l w w', P w l → R l w w' → P w' l)
    (hcall : ∀ c op w l, C c → A op → P w l → P (h c op (w, l)).2.1 (h c op (w, l)).2.2)
    {p : Prog S α} (hp : p.Only A) (hP : P w l) : Amid C h R (fun _ w l => P w l) p w l := by
  induction p generalizing w l with
  | pure a => exact fun w' hR => hmoved l w w' hP hR
  | call op k ih =>
    exact fun w' hR c hc => ih _ (hp.2 _) (hcall c op w' l hc hp.1 (hmoved l w w' hP hR))

end Rules

/-! ## The pool -/

section Run

variable [DecidableEq ι] {h : ι → Handler S κ σ τ} {C : κ → Prop} {R : τ → σ → σ → Prop}
  {Q : α → σ → τ → Prop} {s : State S ι σ τ α}

/-- A move of another thread, or of the outside, leaves a thread where it is. -/
theorem step_other {m : Move ι κ σ} {i : ι} (hm : ∀ c, m ≠ .call i c) :
    (s.step h m).own i = s.own i ∧ (s.step h m).prog i = s.prog i := by
  cases m with
  | call j c =>
    have hij : i ≠ j := by
      rintro rfl
      exact hm c rfl
    unfold State.step
    dsimp only
    split
    · exact ⟨rfl, rfl⟩
    · exact ⟨Function.update_of_ne hij _ _, Function.update_of_ne hij _ _⟩
  | outside w => exact ⟨rfl, rfl⟩

/-- A thread that does not move stays where it is. -/
theorem run_other {trace : List (Move ι κ σ)} {i : ι} (htrace : ∀ m ∈ trace, ∀ c, m ≠ .call i c) :
    (run (State.step h) s trace).own i = s.own i
    ∧ (run (State.step h) s trace).prog i = s.prog i := by
  induction trace generalizing s with
  | nil => exact ⟨rfl, rfl⟩
  | cons m trace ih =>
    obtain ⟨hm, hrest⟩ := List.forall_mem_cons.mp htrace
    obtain ⟨hown, hprog⟩ := ih (s := s.step h m) hrest
    obtain ⟨hown', hprog'⟩ := step_other (h := h) (s := s) hm
    exact ⟨hown.trans hown', hprog.trans hprog'⟩

/-- A thread that has ended stays as it is. -/
theorem step_ended {m : Move ι κ σ} {i : ι} {a : α} (hprog : s.prog i = .pure a) :
    (s.step h m).own i = s.own i ∧ (s.step h m).prog i = .pure a := by
  by_cases hcall : ∃ c, m = .call i c
  · obtain ⟨c, rfl⟩ := hcall
    have hstep : s.step h (.call i c) = s := by simp only [State.step, hprog]
    rw [hstep]
    exact ⟨rfl, hprog⟩
  · obtain ⟨hown, hprog'⟩ := step_other (h := h) (s := s) fun c heq => hcall ⟨c, heq⟩
    exact ⟨hown, hprog'.trans hprog⟩

theorem run_ended {trace : List (Move ι κ σ)} {i : ι} {a : α} (hprog : s.prog i = .pure a) :
    (run (State.step h) s trace).own i = s.own i
      ∧ (run (State.step h) s trace).prog i = .pure a := by
  induction trace generalizing s with
  | nil => exact ⟨rfl, hprog⟩
  | cons m trace ih =>
    obtain ⟨hown, hprog'⟩ := step_ended (h := h) (m := m) hprog
    obtain ⟨hown', hprog''⟩ := ih hprog'
    exact ⟨hown'.trans hown, hprog''⟩

/-- A thread that makes only some calls goes on making only these. -/
theorem only_step {A : S.Op → Prop} (hs : ∀ i, (s.prog i).Only A) (m : Move ι κ σ) (i : ι) :
    ((s.step h m).prog i).Only A := by
  cases m with
  | outside w => exact hs i
  | call j c =>
    unfold State.step
    dsimp only
    split
    · exact hs i
    -- the thread that moves is left with a continuation of its call
    · rename_i op k hprog
      by_cases hij : i = j
      · subst hij
        have honly := hs i
        rw [hprog] at honly
        simpa only [State.answer, Function.update_self] using honly.2 _
      · simpa only [State.answer, Function.update_of_ne hij] using hs i

/-- The moves that the choices and the relation allow, as one thread sees them. -/
def Moves (h : ι → Handler S κ σ τ) (C : κ → Prop) (R : τ → σ → σ → Prop) (i : ι)
    (s : State S ι σ τ α) (m : Move ι κ σ) : Prop :=
  (∀ c, m = .call i c → C c)
    ∧ ((∀ c, m ≠ .call i c) → R (s.own i) s.shared (s.step h m).shared)

/-- **One move** keeps what was shown of a thread. -/
theorem amid_step (hrefl : ∀ l w, R l w w)
    (htrans : ∀ l w₁ w₂ w₃, R l w₁ w₂ → R l w₂ w₃ → R l w₁ w₃) {i : ι} {m : Move ι κ σ}
    (hs : Amid C (h i) R Q (s.prog i) s.shared (s.own i)) (hm : Moves h C R i s m) :
    Amid C (h i) R Q ((s.step h m).prog i) (s.step h m).shared ((s.step h m).own i) := by
  by_cases hcall : ∃ c, m = .call i c
  · obtain ⟨c, rfl⟩ := hcall
    cases hprog : s.prog i with
    | pure a =>
      have hstep : s.step h (.call i c) = s := by simp only [State.step, hprog]
      rw [hstep]
      exact hs
    | call op k =>
      rw [hprog] at hs
      have hstep : s.step h (.call i c) = s.answer h i c op k := by simp only [State.step, hprog]
      have hnext := hs s.shared (hrefl _ _) c (hm.1 c rfl)
      rw [hstep]
      simpa only [State.answer, Function.update_self] using hnext
  · have hother : ∀ c, m ≠ .call i c := fun c heq => hcall ⟨c, heq⟩
    obtain ⟨hown, hprog⟩ := step_other (h := h) (s := s) hother
    rw [hown, hprog]
    exact hs.moved htrans (hm.2 hother)

/-- **Every run** of such moves keeps it. -/
theorem amid_run (hrefl : ∀ l w, R l w w)
    (htrans : ∀ l w₁ w₂ w₃, R l w₁ w₂ → R l w₂ w₃ → R l w₁ w₃) {i : ι} {trace : List (Move ι κ σ)}
    (hs : Amid C (h i) R Q (s.prog i) s.shared (s.own i))
    (htrace : Guarded (State.step h) (Moves h C R i) s trace) :
    Amid C (h i) R Q ((run (State.step h) s trace).prog i) (run (State.step h) s trace).shared
      ((run (State.step h) s trace).own i) :=
  htrace.inv (P := fun s : State S ι σ τ α => Amid C (h i) R Q (s.prog i) s.shared (s.own i))
    (fun _ _ hs hm => amid_step hrefl htrans hs hm) hs

omit [DecidableEq ι] in
/-- A thread that has ended has ended as it should, and the shared state has moved since as `R`
    says. -/
theorem Amid.ended {i : ι} {a : α} (hs : Amid C (h i) R Q (s.prog i) s.shared (s.own i))
    (hprog : s.prog i = .pure a) {w : σ} (hR : R (s.own i) s.shared w) : Q a w (s.own i) := by
  rw [hprog] at hs
  exact hs w hR

end Run

end Pool
