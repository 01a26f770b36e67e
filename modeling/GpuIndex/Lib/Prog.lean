/-
  Programs that ask the outside world.

  A `Prog S α` either returns or makes one call of the signature `S` and goes on with the answer.
  The calls are data, so the same program can be run alone (`Prog.run`, one handler for all calls)
  or one call at a time among others.

  `Prog.wp` is the weakest precondition of a program whose calls are answered by choices from
  outside; `Prog.Only` says which calls it can make, and what these keep holds at the end
  (`wp_of_only`).  A program that may raise is one in `ExceptT`: its result tells how it ended
  (`wp_run_bind`).
-/
import Mathlib.Logic.Basic

/-- The calls a program may make and the type of each answer. -/
structure Sig where
  Op : Type
  Ans : Op → Type

/-- A program over a signature. -/
inductive Prog (S : Sig) (α : Type) : Type where
  | pure (a : α)
  | call (op : S.Op) (k : S.Ans op → Prog S α)

namespace Prog

variable {S : Sig} {α β γ : Type}

/-- Run the second program on the result of the first. -/
def bind : Prog S α → (α → Prog S β) → Prog S β
  | .pure a, f => f a
  | .call op k, f => .call op fun ans => (k ans).bind f

instance : Monad (Prog S) where
  pure := .pure
  bind := bind

/-- Make one call. -/
def ask (op : S.Op) : Prog S (S.Ans op) := .call op .pure

@[simp] theorem pure_bind (a : α) (f : α → Prog S β) : (pure a : Prog S α) >>= f = f a := rfl

@[simp] theorem call_bind (op : S.Op) (k : S.Ans op → Prog S α) (f : α → Prog S β) :
    (Prog.call op k) >>= f = .call op fun ans => k ans >>= f := rfl

@[simp] theorem ask_bind (op : S.Op) (f : S.Ans op → Prog S β) : ask op >>= f = .call op f := rfl

theorem bind_pure (p : Prog S α) : p >>= (fun a => (pure a : Prog S α)) = p := by
  induction p with
  | pure a => rfl
  | call op k ih =>
    rw [call_bind]
    congr 1
    funext ans
    exact ih ans

theorem bind_assoc (p : Prog S α) (f : α → Prog S β) (g : β → Prog S γ) :
    (p >>= f) >>= g = p >>= fun a => f a >>= g := by
  induction p with
  | pure a => rfl
  | call op k ih =>
    simp only [call_bind]
    congr 1
    funext ans
    exact ih ans

instance : LawfulMonad (Prog S) :=
  LawfulMonad.mk' (Prog S) bind_pure (fun _ _ => rfl) bind_assoc

/-! ## Running alone -/

section Run

variable {σ : Type} (h : (op : S.Op) → σ → S.Ans op × σ)

/-- Run to the end, every call answered by the handler. -/
def run : Prog S α → σ → α × σ
  | .pure a, s => (a, s)
  | .call op k, s => (k (h op s).1).run (h op s).2

@[simp] theorem run_pure (a : α) (s : σ) : (pure a : Prog S α).run h s = (a, s) := rfl

@[simp] theorem run_call (op : S.Op) (k : S.Ans op → Prog S α) (s : σ) :
    (Prog.call op k).run h s = (k (h op s).1).run h (h op s).2 := rfl

@[simp] theorem run_ask (op : S.Op) (s : σ) : (ask op).run h s = h op s := rfl

@[simp] theorem run_bind (p : Prog S α) (f : α → Prog S β) (s : σ) :
    (p >>= f).run h s = (f (p.run h s).1).run h (p.run h s).2 := by
  induction p generalizing s with
  | pure a => rfl
  | call op k ih =>
    rw [call_bind, run_call, run_call]
    exact ih _ _

end Run

/-! ## Running under every choice -/

section Choices

variable {κ σ : Type} (C : κ → Prop) (h : κ → (op : S.Op) → σ → S.Ans op × σ)

/-- Whatever is chosen at each call, among the choices in `C`, the program ends as `Q` says. -/
def wp : Prog S α → (α → σ → Prop) → σ → Prop
  | .pure a, Q, s => Q a s
  | .call op k, Q, s => ∀ c, C c → wp (k (h c op s).1) Q (h c op s).2

/-- Answer the calls with a sequence of choices, counting them. -/
def answer (choices : Nat → κ) (op : S.Op) (s : σ × Nat) : S.Ans op × (σ × Nat) :=
  ((h (choices s.2) op s.1).1, ((h (choices s.2) op s.1).2, s.2 + 1))

variable {C h} {Q R : α → σ → Prop}

@[simp] theorem wp_pure {a : α} {s : σ} : wp C h (pure a : Prog S α) Q s ↔ Q a s := Iff.rfl

@[simp] theorem wp_call {op : S.Op} {k : S.Ans op → Prog S α} {s : σ} :
    wp C h (.call op k) Q s ↔ ∀ c, C c → wp C h (k (h c op s).1) Q (h c op s).2 := Iff.rfl

/-- Sequencing: the second program starts where the first ends. -/
theorem wp_bind {p : Prog S α} {f : α → Prog S β} {Q : β → σ → Prop} {s : σ} :
    wp C h (p >>= f) Q s ↔ wp C h p (fun a s' => wp C h (f a) Q s') s := by
  induction p generalizing s with
  | pure a => exact Iff.rfl
  | call op k ih => exact forall₂_congr fun c _ => ih _

/-- Weaken the postcondition. -/
theorem wp_mono {p : Prog S α} {s : σ} (hp : wp C h p Q s) (hQR : ∀ a s', Q a s' → R a s') :
    wp C h p R s := by
  induction p generalizing s with
  | pure a => exact hQR a s hp
  | call op k ih => exact fun c hc => ih _ (hp c hc)

/-- Two postconditions hold together. -/
theorem wp_and {p : Prog S α} {s : σ} (hQ : wp C h p Q s) (hR : wp C h p R s) :
    wp C h p (fun a s' => Q a s' ∧ R a s') s := by
  induction p generalizing s with
  | pure a => exact ⟨hQ, hR⟩
  | call op k ih => exact fun c hc => ih _ (hQ c hc) (hR c hc)

/-- Every program ends. -/
theorem wp_true (p : Prog S α) (s : σ) : wp C h p (fun _ _ => True) s := by
  induction p generalizing s with
  | pure a => trivial
  | call op k ih => exact fun c _ => ih _ _

/-- A run with any sequence of choices ends as the weakest precondition says. -/
theorem run_of_wp {choices : Nat → κ} (hchoices : ∀ n, C (choices n)) {p : Prog S α} {s : σ}
    (n : Nat) (hp : wp C h p Q s) :
    Q (p.run (answer h choices) (s, n)).1 (p.run (answer h choices) (s, n)).2.1 := by
  induction p generalizing s n with
  | pure a => exact hp
  | call op k ih => exact ih _ (n + 1) (hp (choices n) (hchoices n))

end Choices

/-! ## Programs that make only some calls -/

section Only

variable (A : S.Op → Prop)

/-- Every call the program can make is in `A`. -/
def Only : Prog S α → Prop
  | .pure _ => True
  | .call op k => A op ∧ ∀ ans, (k ans).Only

variable {A}

theorem only_true (p : Prog S α) : p.Only fun _ => True := by
  induction p with
  | pure a => trivial
  | call op k ih => exact ⟨trivial, ih⟩

theorem Only.mono {B : S.Op → Prop} {p : Prog S α} (hp : p.Only A) (hAB : ∀ op, A op → B op) :
    p.Only B := by
  induction p with
  | pure a => trivial
  | call op k ih => exact ⟨hAB op hp.1, fun ans => ih ans (hp.2 ans)⟩

theorem only_bind {p : Prog S α} {f : α → Prog S β} (hp : p.Only A) (hf : ∀ a, (f a).Only A) :
    (p >>= f).Only A := by
  induction p with
  | pure a => exact hf a
  | call op k ih => exact ⟨hp.1, fun ans => ih ans (hp.2 ans)⟩

/-- What those calls keep holds at the end. -/
theorem wp_of_only {κ σ : Type} {C : κ → Prop} {h : κ → (op : S.Op) → σ → S.Ans op × σ}
    {P : σ → Prop} (hstep : ∀ c op s, C c → A op → P s → P (h c op s).2) {p : Prog S α}
    (hp : p.Only A) {s : σ} (hs : P s) : wp C h p (fun _ s' => P s') s := by
  induction p generalizing s with
  | pure a => exact hs
  | call op k ih => exact fun c hc => ih _ (hp.2 _) (hstep c op s hc hp.1 hs)

/-- Two handlers that agree on those calls, from states they keep related, run the program to the
    same result. -/
theorem run_related {σ τ : Type} {h : (op : S.Op) → σ → S.Ans op × σ}
    {h' : (op : S.Op) → τ → S.Ans op × τ} {R : σ → τ → Prop}
    (hstep : ∀ op s t, A op → R s t → (h op s).1 = (h' op t).1 ∧ R (h op s).2 (h' op t).2)
    {p : Prog S α} (hp : p.Only A) {s : σ} {t : τ} (hR : R s t) :
    (p.run h s).1 = (p.run h' t).1 ∧ R (p.run h s).2 (p.run h' t).2 := by
  induction p generalizing s t with
  | pure a => exact ⟨rfl, hR⟩
  | call op k ih =>
    obtain ⟨hans, hR'⟩ := hstep op s t hp.1 hR
    rw [run_call, run_call, ← hans]
    exact ih _ (hp.2 _) hR'

end Only

/-! ## Programs that may raise -/

section Raise

variable {ε κ σ : Type} {C : κ → Prop} {h : κ → (op : S.Op) → σ → S.Ans op × σ} {s : σ}
  {p : ExceptT ε (Prog S) α} {f : α → ExceptT ε (Prog S) β} {Q : Except ε β → σ → Prop}

/-- Sequencing: an exception skips the rest. -/
theorem wp_run_bind : wp C h (p >>= f).run Q s ↔ wp C h p.run (fun r s' => match r with
    | .ok a => wp C h (f a).run Q s'
    | .error e => Q (.error e) s') s := by
  refine wp_bind.trans ?_
  constructor <;> refine fun h => wp_mono h ?_ <;> rintro (e | a) s' h <;> exact h

/-- Sequencing through a specification of the first part. -/
theorem wp_run_seq {R : Except ε α → σ → Prop} (hp : wp C h p.run R s)
    (hok : ∀ a s', R (.ok a) s' → wp C h (f a).run Q s')
    (herror : ∀ e s', R (.error e) s' → Q (.error e) s') : wp C h (p >>= f).run Q s := by
  rw [wp_run_bind]
  refine wp_mono hp ?_
  rintro (e | a) s' hR
  · exact herror e s' hR
  · exact hok a s' hR

theorem only_run_bind {A : S.Op → Prop} (hp : p.run.Only A) (hf : ∀ a, (f a).run.Only A) :
    (p >>= f).run.Only A :=
  only_bind hp fun r => match r with
    | .ok a => hf a
    | .error _ => trivial

end Raise

end Prog
