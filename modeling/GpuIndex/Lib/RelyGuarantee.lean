/-
  Threads that rely on each other.

  `Amid` takes the moves of the others for granted.  Here every thread promises what its calls do
  (`G`) and relies on the others for no more than `R`.  When each promise is enough for what the
  others rely on, a thread that complies alone complies in the pool: `complies_run` is the rule of
  parallel composition, and by `kept_run` each call of a run keeps its thread's promise.
-/
import GpuIndex.Lib.Pool

namespace Pool

open Trace

variable {ι κ σ τ α β : Type} {S : Sig}

/-! ## One thread -/

/-- However the shared state has moved, as `R` says, and whatever is chosen, as `A` allows, every
    call of the thread keeps the promise `G`, and the thread ends as `Q` says. -/
def Complies (A : κ → S.Op → σ → τ → Prop) (h : Handler S κ σ τ) (R : σ → σ → Prop)
    (G : σ × τ → σ × τ → Prop) (Q : α → σ → τ → Prop) : Prog S α → σ → τ → Prop
  | .pure a, w, l => ∀ w', R w w' → Q a w' l
  | .call op k, w, l => ∀ w', R w w' → ∀ c, A c op w' l →
      G (w', l) (h c op (w', l)).2
        ∧ Complies A h R G Q (k (h c op (w', l)).1) (h c op (w', l)).2.1 (h c op (w', l)).2.2

section Rules

variable {A : κ → S.Op → σ → τ → Prop} {h : Handler S κ σ τ} {R : σ → σ → Prop}
  {G : σ × τ → σ × τ → Prop} {w : σ} {l : τ}

/-- A thread may go on from a shared state that has moved. -/
theorem Complies.moved (htrans : ∀ w₁ w₂ w₃, R w₁ w₂ → R w₂ w₃ → R w₁ w₃) {w' : σ}
    {Q : α → σ → τ → Prop} {p : Prog S α} (hp : Complies A h R G Q p w l) (hR : R w w') :
    Complies A h R G Q p w' l := by
  cases p with
  | pure a => exact fun w'' hR' => hp w'' (htrans w w' w'' hR hR')
  | call op k => exact fun w'' hR' => hp w'' (htrans w w' w'' hR hR')

theorem complies_mono {Q Q' : α → σ → τ → Prop} {p : Prog S α} (hp : Complies A h R G Q p w l)
    (hQ : ∀ a w l, Q a w l → Q' a w l) : Complies A h R G Q' p w l := by
  induction p generalizing w l with
  | pure a => exact fun w' hR => hQ a w' l (hp w' hR)
  | call op k ih =>
    intro w' hR c hc
    obtain ⟨hG, hrest⟩ := hp w' hR c hc
    exact ⟨hG, ih _ hrest⟩

/-- A promise may be made that says less. -/
theorem complies_weaken {G' : σ × τ → σ × τ → Prop} {Q : α → σ → τ → Prop} {p : Prog S α}
    (hp : Complies A h R G Q p w l) (hG : ∀ x y, G x y → G' x y) : Complies A h R G' Q p w l := by
  induction p generalizing w l with
  | pure a => exact hp
  | call op k ih =>
    intro w' hR c hc
    obtain ⟨hkept, hrest⟩ := hp w' hR c hc
    exact ⟨hG _ _ hkept, ih _ hrest⟩

/-- Sequencing: the second program starts where the first ends. -/
theorem complies_bind {Q : α → σ → τ → Prop} {Q' : β → σ → τ → Prop} {p : Prog S α}
    {f : α → Prog S β} (hp : Complies A h R G Q p w l)
    (hf : ∀ a w l, (∀ w', R w w' → Q a w' l) → Complies A h R G Q' (f a) w l) :
    Complies A h R G Q' (p >>= f) w l := by
  induction p generalizing w l with
  | pure a => exact hf a w l hp
  | call op k ih =>
    intro w' hR c hc
    obtain ⟨hG, hrest⟩ := hp w' hR c hc
    exact ⟨hG, ih _ hrest⟩

/-- What the moves of the others and the calls in `B` keep holds at the end, when these calls keep
    the promise. -/
theorem complies_of_only {B : S.Op → Prop} {P : σ → τ → Prop}
    (hmoved : ∀ w w' l, P w l → R w w' → P w' l)
    (hcall : ∀ c op w l, A c op w l → B op → P w l →
      G (w, l) (h c op (w, l)).2 ∧ P (h c op (w, l)).2.1 (h c op (w, l)).2.2)
    {p : Prog S α} (hp : p.Only B) (hP : P w l) :
    Complies A h R G (fun _ w l => P w l) p w l := by
  induction p generalizing w l with
  | pure a => exact fun w' hR => hmoved w w' l hP hR
  | call op k ih =>
    intro w' hR c hc
    obtain ⟨hG, hP'⟩ := hcall c op w' l hc hp.1 (hmoved w w' l hP hR)
    exact ⟨hG, ih _ (hp.2 _) hP'⟩

end Rules

/-! ## Parallel composition -/

section Run

variable [DecidableEq ι] {A : ι → κ → S.Op → σ → τ → Prop} {h : ι → Handler S κ σ τ}
  {R : ι → σ → σ → Prop} {G : ι → σ × τ → σ × τ → Prop} {Q : ι → α → σ → τ → Prop}
  {s : State S ι σ τ α}

/-- What a thread promises is enough for what each other thread relies on. -/
structure Compatible (R : ι → σ → σ → Prop) (G : ι → σ × τ → σ × τ → Prop) : Prop where
  refl : ∀ i w, R i w w
  trans : ∀ i w₁ w₂ w₃, R i w₁ w₂ → R i w₂ w₃ → R i w₁ w₃
  promise : ∀ i j, i ≠ j → ∀ x y, G i x y → R j x.1 y.1

/-- Calls are answered as `A` allows, and the outside moves as all threads rely on. -/
def Allowed (A : ι → κ → S.Op → σ → τ → Prop) (R : ι → σ → σ → Prop) (s : State S ι σ τ α) :
    Move ι κ σ → Prop
  | .call i c => ∀ op k, s.prog i = .call op k → A i c op s.shared (s.own i)
  | .outside w => ∀ i, R i s.shared w

/-- The call that is answered keeps its thread's promise. -/
def Kept (h : ι → Handler S κ σ τ) (G : ι → σ × τ → σ × τ → Prop) (s : State S ι σ τ α) :
    Move ι κ σ → Prop
  | .call i c => ∀ op k, s.prog i = .call op k →
      G i (s.shared, s.own i) (h i c op (s.shared, s.own i)).2
  | .outside _ => True

/-- All threads comply from where they are. -/
def AllComply (A : ι → κ → S.Op → σ → τ → Prop) (h : ι → Handler S κ σ τ) (R : ι → σ → σ → Prop)
    (G : ι → σ × τ → σ × τ → Prop) (Q : ι → α → σ → τ → Prop) (s : State S ι σ τ α) : Prop :=
  ∀ i, Complies (A i) (h i) (R i) (G i) (Q i) (s.prog i) s.shared (s.own i)

/-- **One move**: the thread that moves keeps its promise, and all go on complying. -/
theorem complies_step (hfit : Compatible R G) (hs : AllComply A h R G Q s) {m : Move ι κ σ}
    (hm : Allowed A R s m) : Kept h G s m ∧ AllComply A h R G Q (s.step h m) := by
  cases m with
  | outside w => exact ⟨trivial, fun i => (hs i).moved (hfit.trans i) (hm i)⟩
  | call i c =>
    cases hprog : s.prog i with
    | pure a =>
      have hstep : s.step h (.call i c) = s := by simp only [State.step, hprog]
      rw [hstep]
      refine ⟨fun op k hcall => ?_, hs⟩
      cases hprog.symm.trans hcall
    | call op k =>
      have hi := hs i
      rw [hprog] at hi
      obtain ⟨hG, hrest⟩ := hi s.shared (hfit.refl i _) c (hm op k hprog)
      have hstep : s.step h (.call i c) = s.answer h i c op k := by simp only [State.step, hprog]
      refine ⟨fun op' k' hcall => ?_, fun j => ?_⟩
      · cases hprog.symm.trans hcall
        exact hG
      · rw [hstep]
        by_cases hij : j = i
        · subst hij
          simpa only [State.answer, Function.update_self] using hrest
        -- the others rely on what `i` has promised
        · have hj := (hs j).moved (hfit.trans j) (hfit.promise i j (Ne.symm hij) _ _ hG)
          simpa only [State.answer, Function.update_of_ne hij] using hj

/-- **Every run**: all threads go on complying. -/
theorem complies_run (hfit : Compatible R G) (hs : AllComply A h R G Q s)
    {trace : List (Move ι κ σ)} (htrace : Guarded (State.step h) (Allowed A R) s trace) :
    AllComply A h R G Q (run (State.step h) s trace) :=
  htrace.inv (P := AllComply A h R G Q) (fun _ _ hs hm => (complies_step hfit hs hm).2) hs

/-- Every call of a run keeps its thread's promise. -/
theorem kept_run (hfit : Compatible R G) (hs : AllComply A h R G Q s) {trace : List (Move ι κ σ)}
    (htrace : Guarded (State.step h) (Allowed A R) s trace) :
    Guarded (State.step h) (Kept h G) s trace := by
  induction trace generalizing s with
  | nil => trivial
  | cons m trace ih =>
    obtain ⟨hm, hrest⟩ := htrace
    obtain ⟨hkept, hs'⟩ := complies_step hfit hs hm
    exact ⟨hkept, ih hs' hrest⟩

/-- A thread of the run that has ended has ended as it should. -/
theorem ended_run (hfit : Compatible R G) (hs : AllComply A h R G Q s)
    {trace : List (Move ι κ σ)} (htrace : Guarded (State.step h) (Allowed A R) s trace)
    {i : ι} {a : α} (hprog : (run (State.step h) s trace).prog i = .pure a) :
    Q i a (run (State.step h) s trace).shared ((run (State.step h) s trace).own i) := by
  have hi := complies_run hfit hs htrace i
  rw [hprog] at hi
  exact hi _ (hfit.refl i _)

/-- What a thread's promise keeps of its own state holds all along. -/
theorem own_run {P : ι → τ → Prop} (hfit : Compatible R G) (hs : AllComply A h R G Q s)
    {trace : List (Move ι κ σ)} (htrace : Guarded (State.step h) (Allowed A R) s trace)
    (hkeeps : ∀ i x y, G i x y → P i x.2 → P i y.2) (hP : ∀ i, P i (s.own i)) (i : ι) :
    P i ((run (State.step h) s trace).own i) := by
  refine (kept_run hfit hs htrace).inv (P := fun s : State S ι σ τ α => ∀ i, P i (s.own i))
    (fun s m hP hkept => ?_) hP i
  cases m with
  | outside w => exact hP
  | call i c =>
    intro j
    cases hprog : s.prog i with
    | pure a =>
      have hstep : s.step h (.call i c) = s := by simp only [State.step, hprog]
      rw [hstep]
      exact hP j
    | call op k =>
      have hstep : s.step h (.call i c) = s.answer h i c op k := by simp only [State.step, hprog]
      rw [hstep]
      by_cases hij : j = i
      · subst hij
        simpa only [State.answer, Function.update_self] using hkeeps j _ _ (hkept op k hprog) (hP j)
      · simpa only [State.answer, Function.update_of_ne hij] using hP j

end Run

end Pool
