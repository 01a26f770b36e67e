/-
  The service's programs, each with a promise to the others.

  `Svc.complies` says that every call of a program keeps the promise `G`, while the world moves as
  `R` says in between and the calls are answered as `A` allows.  Its rules are those of `Svc.amid`.
-/
import GpuIndex.Core.Amid
import GpuIndex.Lib.RelyGuarantee

namespace GpuIndex

open Pool (Complies)

/-- Which calls are answered how, and on which machines. -/
abbrev Answering := Choice → Op → Machine → Prop

section Comply

variable {α β : Type} {env : Env} {A : Answering} {R : World → World → Prop}
  {G : Machine → Machine → Prop} {m : Machine}

/-- Every call of the program keeps the promise `G`, and the program ends as `Q` says. -/
def Svc.complies (env : Env) (A : Answering) (R : World → World → Prop)
    (G : Machine → Machine → Prop) (p : Svc α) (Q : Except Exn α → Machine → Prop)
    (m : Machine) : Prop :=
  Complies (S := svc) (fun c op w l => A c op ⟨w, l⟩) (handler env) R
    (fun x y => G ⟨x.1, x.2⟩ ⟨y.1, y.2⟩) (fun r w l => Q r ⟨w, l⟩) p.run m.world m.session

variable {Q Q' : Except Exn α → Machine → Prop}

theorem Svc.complies_mono {p : Svc α} (h : Svc.complies env A R G p Q m)
    (hQ : ∀ r m', Q r m' → Q' r m') : Svc.complies env A R G p Q' m :=
  Pool.complies_mono h fun r _ _ => hQ r _

theorem Svc.complies_weaken {G' : Machine → Machine → Prop} {p : Svc α}
    (h : Svc.complies env A R G p Q m) (hG : ∀ m m', G m m' → G' m m') :
    Svc.complies env A R G' p Q m :=
  Pool.complies_weaken h fun _ _ => hG _ _

/-- Sequencing through a specification of the first part, which still holds when the world has
    moved. -/
theorem Svc.complies_seq {p : Svc α} {f : α → Svc β} {Q : Except Exn β → Machine → Prop}
    (hp : Svc.complies env A R G p Q' m)
    (hok : ∀ a m', (∀ w, R m'.world w → Q' (.ok a) (m'.inWorld w)) →
      Svc.complies env A R G (f a) Q m')
    (herror : ∀ e m', Q' (.error e) m' → Q (.error e) m') :
    Svc.complies env A R G (p >>= f) Q m := by
  refine Pool.complies_bind hp ?_
  rintro (e | a) w l h
  · exact fun w' hR => herror e _ (h w' hR)
  · exact hok a ⟨w, l⟩ h

/-- `try` and `except` through a specification of the body. -/
theorem Svc.complies_try {p : Svc α} {f : Exn → Svc α} (hp : Svc.complies env A R G p Q' m)
    (hok : ∀ a m', Q' (.ok a) m' → Q (.ok a) m')
    (herror : ∀ e m', (∀ w, R m'.world w → Q' (.error e) (m'.inWorld w)) →
      Svc.complies env A R G (f e) Q m') : Svc.complies env A R G (tryCatch p f) Q m := by
  refine Pool.complies_bind hp ?_
  rintro (e | a) w l h
  · exact herror e ⟨w, l⟩ h
  · exact fun w' hR => hok a _ (h w' hR)

/-- A program that cannot raise, made of calls in `B`. -/
theorem Svc.complies_lift {B : Op → Prop} {P : Machine → Prop}
    (hmoved : ∀ m w, P m → R m.world w → P (m.inWorld w))
    (hcall : ∀ c op m, A c op m → B op → P m → G m (exec env c op m).2 ∧ P (exec env c op m).2)
    {p : Prog svc α} (hp : Prog.Only (S := svc) B p) (hm : P m) :
    Svc.complies env A R G (ExceptT.lift p) (fun r m' => (∃ a, r = .ok a) ∧ P m') m := by
  refine Pool.complies_bind (Pool.complies_of_only (P := fun w l => P ⟨w, l⟩)
    (fun w w' l hP hR => hmoved ⟨w, l⟩ w' hP hR)
    (fun c op w l hA hB hP => hcall c op ⟨w, l⟩ hA hB hP) hp hm) ?_
  exact fun a w l h w' hR => ⟨⟨a, rfl⟩, h w' hR⟩

/-- A program that begins with a call. -/
theorem Svc.complies_call {op : Op} {f : op.Ans → Svc α} :
    Svc.complies env A R G (call op >>= f) Q m
      ↔ ∀ w, R m.world w → ∀ c, A c op (m.inWorld w) →
        G (m.inWorld w) (exec env c op (m.inWorld w)).2
          ∧ Svc.complies env A R G (f (exec env c op (m.inWorld w)).1) Q
              (exec env c op (m.inWorld w)).2 := Iff.rfl

/-- A program that begins with a statement: it goes on with the answer, or fails with nothing
    changed. -/
theorem Svc.complies_query {stmt : Statement} {f : stmt.Result → Svc α}
    (h : ∀ w, R m.world w → ∀ c, A c (.db stmt) (m.inWorld w) →
      G (m.inWorld w) (exec env c (.db stmt) (m.inWorld w)).2
        ∧ match stmt.exec env c (m.inWorld w) with
          | (.ok r, m') => Svc.complies env A R G (f r) Q (m'.record (.db stmt) (.ok r))
          | (.error e, m') => ∀ w', R m'.world w' →
            Q (.error (.db e)) ((m'.record (.db stmt) (.error e)).inWorld w')) :
    Svc.complies env A R G (query stmt >>= f) Q m := by
  intro w hR c hc
  obtain ⟨hG, hrest⟩ := h w hR c hc
  refine ⟨hG, ?_⟩
  simp only [handler, exec, perform]
  unfold Machine.inWorld at hrest
  generalize stmt.exec env c ⟨w, m.session⟩ = answer at hrest
  rcases answer with ⟨e | r, m'⟩
  · exact hrest
  · exact hrest

/-- A program that begins with a Redis command. -/
theorem Svc.complies_redis {cmd : RedisCmd} {f : cmd.Reply → Svc α}
    (h : ∀ w, R m.world w → ∀ c, A c (.redis cmd) (m.inWorld w) →
      G (m.inWorld w) (exec env c (.redis cmd) (m.inWorld w)).2
        ∧ match cmd.exec c (m.inWorld w) with
          | (.ok r, m') => Svc.complies env A R G (f r) Q (m'.record (.redis cmd) (.ok r))
          | (.error e, m') => ∀ w', R m'.world w' →
            Q (.error (.redis e)) ((m'.record (.redis cmd) (.error e)).inWorld w')) :
    Svc.complies env A R G (redis cmd >>= f) Q m := by
  intro w hR c hc
  obtain ⟨hG, hrest⟩ := h w hR c hc
  refine ⟨hG, ?_⟩
  simp only [handler, exec, perform]
  unfold Machine.inWorld at hrest
  generalize cmd.exec c ⟨w, m.session⟩ = answer at hrest
  rcases answer with ⟨e | r, m'⟩
  · exact hrest
  · exact hrest

/-- What the moves of the others and the calls in `B` keep holds at the end, when these calls keep
    the promise. -/
theorem Svc.complies_of_only {B : Op → Prop} {P : Machine → Prop}
    (hmoved : ∀ m w, P m → R m.world w → P (m.inWorld w))
    (hcall : ∀ c op m, A c op m → B op → P m → G m (exec env c op m).2 ∧ P (exec env c op m).2)
    {p : Svc α} (hp : p.Only B) (hm : P m) :
    Svc.complies env A R G p (fun _ m' => P m') m :=
  Pool.complies_of_only (P := fun w l => P ⟨w, l⟩) (fun w w' l hP hR => hmoved ⟨w, l⟩ w' hP hR)
    (fun c op w l hA hB hP => hcall c op ⟨w, l⟩ hA hB hP) hp hm

/-- A value that is already there, or an error. -/
theorem Svc.complies_ofExcept {r : Except Exn α} (h : ∀ w, R m.world w → Q r (m.inWorld w)) :
    Svc.complies env A R G (ofExcept r) Q m := by
  cases r with
  | ok a => exact h
  | error e => exact h

end Comply

end GpuIndex
