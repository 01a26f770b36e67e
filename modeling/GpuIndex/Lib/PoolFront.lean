/-
  A pool seen up to where its threads go on.

  The threads run one program first and go on with another.  Seen up to there the pool is a pool of
  the first programs, and a thread that has gone on belongs to the outside (`frontMove`).  `Follows`
  relates the two; `Follows.run` carries what is known of the runs of the small pool over to the
  large one.
-/
import GpuIndex.Lib.Pool

namespace Pool

open Trace

variable {ι κ σ τ α β : Type} {S : Sig} [DecidableEq ι]

section Front

variable (h : ι → Handler S κ σ τ)

/-- What a move is to the first programs: a call of one of them, or a move from outside. -/
def frontMove (s : State S ι σ τ β) (f : State S ι σ τ α) : Move ι κ σ → Move ι κ σ
  | .outside w => .outside w
  | .call i c =>
    match s.prog i, f.prog i with
    | .call _ _, .call _ _ => .call i c
    | _, _ => .outside (s.step h (.call i c)).shared

/-- What a trace is to the first programs. -/
def front : State S ι σ τ β → State S ι σ τ α → List (Move ι κ σ) → List (Move ι κ σ)
  | _, _, [] => []
  | s, f, m :: trace =>
    frontMove h s f m :: front (s.step h m) (f.step h (frontMove h s f m)) trace

end Front

/-- Where a thread is, when its first program is at `p` with the own state `l`: still in it, beyond
    it, or it has ended and never made a call of it. -/
inductive Alongside (Past : τ → τ → Prop) (k : α → Prog S β) (q : Prog S β) (l' : τ) (p : Prog S α)
    (l : τ) : Prop
  | together (prog : q = p >>= k) (own : l' = l)
  | beyond (a : α) (ended : p = .pure a) (live : ∀ b, k a ≠ .pure b) (past : Past l l')
  | idle (b : β) (ended : q = .pure b) (own : l' = l)

/-- The pool `s` is a pool `f` of the first programs, whose threads go on with `k`. -/
structure Follows (Past : ι → τ → τ → Prop) (k : ι → α → Prog S β) (s : State S ι σ τ β)
    (f : State S ι σ τ α) : Prop where
  shared : f.shared = s.shared
  thread : ∀ i, Alongside (Past i) (k i) (s.prog i) (s.own i) (f.prog i) (f.own i)

section Run

variable {h : ι → Handler S κ σ τ} {Past : ι → τ → τ → Prop} {k : ι → α → Prog S β}
  {s : State S ι σ τ β} {f : State S ι σ τ α}

/-- What a thread does when it has gone on belongs to its past. -/
def GoesOn (h : ι → Handler S κ σ τ) (Past : ι → τ → τ → Prop) (k : ι → α → Prog S β)
    (s : State S ι σ τ β) (f : State S ι σ τ α) : Move ι κ σ → Prop
  | .call i c => ∀ op r a, s.prog i = .call op r → f.prog i = .pure a → (∀ b, k i a ≠ .pure b) →
      Past i (f.own i) (s.own i) → Past i (f.own i) (h i c op (s.shared, s.own i)).2.2
  | .outside _ => True

/-- **One move** of the large pool is one of the small one. -/
theorem Follows.step (hs : Follows Past k s f) (hrefl : ∀ i l, Past i l l) {m : Move ι κ σ}
    (hm : GoesOn h Past k s f m) : Follows Past k (s.step h m) (f.step h (frontMove h s f m)) := by
  cases m with
  | outside w => exact ⟨rfl, hs.thread⟩
  | call i c =>
    have hi := hs.thread i
    cases hq : s.prog i with
    -- a thread that has ended does nothing
    | pure b =>
      have hstep : s.step h (.call i c) = s := by simp only [State.step, hq]
      have hfront : frontMove h s f (.call i c) = .outside s.shared := by
        simp only [frontMove, hq, hstep]
      rw [hstep, hfront]
      exact ⟨rfl, hs.thread⟩
    | call op r =>
      have hstep : s.step h (.call i c) = s.answer h i c op r := by simp only [State.step, hq]
      cases hp : f.prog i with
      -- beyond its first program it belongs to the outside
      | pure a =>
        have hfront : frontMove h s f (.call i c) = .outside (s.step h (.call i c)).shared := by
          simp only [frontMove, hq, hp]
        have hgone : (∀ b, k i a ≠ .pure b) ∧ Past i (f.own i) (s.own i) := by
          cases hi with
          | together prog own =>
            refine ⟨fun b hb => ?_, own ▸ hrefl i _⟩
            rw [hp] at prog
            cases (hq.symm.trans prog).trans hb
          | beyond a' ended live past =>
            obtain rfl := Prog.pure.inj (hp.symm.trans ended)
            exact ⟨live, past⟩
          | idle b ended => cases hq.symm.trans ended
        have hpast := hm op r a hq hp hgone.1 hgone.2
        rw [hfront]
        refine ⟨rfl, fun j => ?_⟩
        by_cases hj : j = i
        · subst hj
          refine .beyond a hp hgone.1 ?_
          rw [hstep]
          simpa only [State.answer, State.step, Function.update_self] using hpast
        · rw [hstep]
          simpa only [State.answer, State.step, Function.update_of_ne hj] using hs.thread j
      -- in its first program it makes the same call
      | call op' r' =>
        have hfront : frontMove h s f (.call i c) = .call i c := by simp only [frontMove, hq, hp]
        have htogether : Prog.call op r = .call op' (fun ans => r' ans >>= k i)
            ∧ s.own i = f.own i := by
          cases hi with
          | together prog own =>
            rw [hp] at prog
            exact ⟨hq.symm.trans prog, own⟩
          | beyond a ended => cases hp.symm.trans ended
          | idle b ended => cases hq.symm.trans ended
        obtain ⟨hcall, hown⟩ := htogether
        cases hcall
        have hfstep : f.step h (.call i c) = f.answer h i c op r' := by simp only [State.step, hp]
        rw [hfront, hstep, hfstep]
        simp only [State.answer, hs.shared, hown]
        refine ⟨rfl, fun j => ?_⟩
        by_cases hj : j = i
        · subst hj
          simp only [Function.update_self]
          exact .together rfl rfl
        · simpa only [Function.update_of_ne hj] using hs.thread j

/-- **Every run** of the large pool is one of the small one, whose moves are allowed there if they
    are allowed here; `P` is what the small pool keeps. -/
theorem Follows.run (ok : State S ι σ τ β → Move ι κ σ → Prop)
    (ok' : State S ι σ τ α → Move ι κ σ → Prop) (P : State S ι σ τ α → Prop)
    (hs : Follows Past k s f) (hrefl : ∀ i l, Past i l l)
    (hkeeps : ∀ f m, P f → ok' f m → P (f.step h m))
    (hpast : ∀ s f m, Follows Past k s f → P f → ok s m → GoesOn h Past k s f m)
    (hok : ∀ s f m, Follows Past k s f → P f → ok s m → ok' f (frontMove h s f m)) (hP : P f)
    {trace : List (Move ι κ σ)} (htrace : Guarded (State.step h) ok s trace) :
    Guarded (State.step h) ok' f (front h s f trace)
      ∧ Follows Past k (run (State.step h) s trace) (run (State.step h) f (front h s f trace)) := by
  induction trace generalizing s f with
  | nil => exact ⟨trivial, hs⟩
  | cons m trace ih =>
    obtain ⟨hm, hrest⟩ := htrace
    have hm' := hok s f m hs hP hm
    obtain ⟨hguarded, hfollows⟩ :=
      ih (hs.step hrefl (hpast s f m hs hP hm)) (hkeeps f _ hP hm') hrest
    exact ⟨⟨hm', hguarded⟩, hfollows⟩

end Run

end Pool
