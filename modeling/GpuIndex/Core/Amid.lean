/-
  The service's programs amid others.

  Requests that are served at once are threads of a pool: the world is what they share, the session
  what each has of its own.  `Svc.amid` says what holds of a request whatever the outside chooses
  and however the world has moved, as `R` says, between its calls; its rules are those of `Svc.wp`.
-/
import GpuIndex.Core.Svc
import GpuIndex.Lib.Pool

namespace GpuIndex

open Pool (Amid)

/-- How a process answers the calls of a request. -/
def handler (env : Env) : Pool.Handler svc Choice World Session := fun c op x =>
  ((exec env c op ⟨x.1, x.2⟩).1, ((exec env c op ⟨x.1, x.2⟩).2.world,
    (exec env c op ⟨x.1, x.2⟩).2.session))

/-- How the world may move between two calls of a request, by what its session holds. -/
abbrev Rely := Session → World → World → Prop

/-- The machine when the world has moved. -/
def Machine.inWorld (m : Machine) (w : World) : Machine := { m with world := w }

@[simp] theorem Machine.inWorld_world (m : Machine) (w : World) : (m.inWorld w).world = w := rfl

@[simp] theorem Machine.inWorld_session (m : Machine) (w : World) :
    (m.inWorld w).session = m.session := rfl

section Amid

variable {α β : Type} {env : Env} {C : Choice → Prop} {R : Rely} {m : Machine}

/-- Whatever the outside chooses, among the choices in `C`, and however the world moves in between,
    the program ends as `Q` says. -/
def Svc.amid (env : Env) (C : Choice → Prop) (R : Rely) (p : Svc α)
    (Q : Except Exn α → Machine → Prop) (m : Machine) : Prop :=
  Amid (S := svc) C (handler env) R (fun r w l => Q r ⟨w, l⟩) p.run m.world m.session

variable {Q Q' : Except Exn α → Machine → Prop}

theorem Svc.amid_mono {p : Svc α} (h : Svc.amid env C R p Q m) (hQ : ∀ r m', Q r m' → Q' r m') :
    Svc.amid env C R p Q' m :=
  Pool.amid_mono h fun r _ _ => hQ r _

theorem Svc.amid_and {p : Svc α} (h : Svc.amid env C R p Q m) (h' : Svc.amid env C R p Q' m) :
    Svc.amid env C R p (fun r m' => Q r m' ∧ Q' r m') m :=
  Pool.amid_and h h'

theorem Svc.amid_pure {a : α} : Svc.amid env C R (pure a) Q m
    ↔ ∀ w, R m.session m.world w → Q (.ok a) (m.inWorld w) := Iff.rfl

/-- Sequencing through a specification of the first part, which still holds when the world has
    moved. -/
theorem Svc.amid_seq {p : Svc α} {f : α → Svc β} {Q : Except Exn β → Machine → Prop}
    (hp : Svc.amid env C R p Q' m)
    (hok : ∀ a m', (∀ w, R m'.session m'.world w → Q' (.ok a) (m'.inWorld w)) →
      Svc.amid env C R (f a) Q m')
    (herror : ∀ e m', Q' (.error e) m' → Q (.error e) m') : Svc.amid env C R (p >>= f) Q m := by
  refine Pool.amid_bind hp ?_
  rintro (e | a) w l h
  · exact fun w' hR => herror e _ (h w' hR)
  · exact hok a ⟨w, l⟩ h

/-- `try` and `except` through a specification of the body. -/
theorem Svc.amid_try {p : Svc α} {f : Exn → Svc α} (hp : Svc.amid env C R p Q' m)
    (hok : ∀ a m', Q' (.ok a) m' → Q (.ok a) m')
    (herror : ∀ e m', (∀ w, R m'.session m'.world w → Q' (.error e) (m'.inWorld w)) →
      Svc.amid env C R (f e) Q m') : Svc.amid env C R (tryCatch p f) Q m := by
  refine Pool.amid_bind hp ?_
  rintro (e | a) w l h
  · exact herror e ⟨w, l⟩ h
  · exact fun w' hR => hok a _ (h w' hR)

/-- A program that cannot raise. -/
theorem Svc.amid_lift {p : Prog svc α} {Q : α → Machine → Prop}
    (hp : Amid (S := svc) C (handler env) R (fun a w l => Q a ⟨w, l⟩) p m.world m.session) :
    Svc.amid env C R (ExceptT.lift p) (fun r m' => ∃ a, r = .ok a ∧ Q a m') m :=
  Pool.amid_bind hp fun a _ _ h w' hR => ⟨a, rfl, h w' hR⟩

/-- A program that begins with a call. -/
theorem Svc.amid_call {op : Op} {f : op.Ans → Svc α} : Svc.amid env C R (call op >>= f) Q m
    ↔ ∀ w, R m.session m.world w → ∀ c, C c →
      Svc.amid env C R (f (exec env c op (m.inWorld w)).1) Q (exec env c op (m.inWorld w)).2 :=
  Iff.rfl

/-- What follows a statement, once it is answered. -/
theorem Svc.amid_answered {stmt : Statement} {f : stmt.Result → Svc α}
    (answer : Except DbError stmt.Result × Machine)
    (h : match answer with
      | (.ok r, m') => Svc.amid env C R (f r) Q (m'.record (.db stmt) (.ok r))
      | (.error e, m') => ∀ w', R (m'.record (.db stmt) (.error e)).session m'.world w' →
        Q (.error (.db e)) ((m'.record (.db stmt) (.error e)).inWorld w')) :
    Svc.amid env C R ((match answer.1 with
      | .ok r => pure r
      | .error e => throw (.db e)) >>= f) Q (answer.2.record (.db stmt) answer.1) := by
  rcases answer with ⟨e | r, m'⟩
  · exact h
  · exact h

/-- A program that begins with a statement: it goes on with the answer, or fails with nothing
    changed. -/
theorem Svc.amid_query {stmt : Statement} {f : stmt.Result → Svc α}
    (h : ∀ w, R m.session m.world w → ∀ c, C c → match stmt.exec env c (m.inWorld w) with
      | (.ok r, m') => Svc.amid env C R (f r) Q (m'.record (.db stmt) (.ok r))
      | (.error e, m') => ∀ w', R (m'.record (.db stmt) (.error e)).session m'.world w' →
        Q (.error (.db e)) ((m'.record (.db stmt) (.error e)).inWorld w')) :
    Svc.amid env C R (query stmt >>= f) Q m := by
  intro w hR c hc
  exact Svc.amid_answered (stmt.exec env c (m.inWorld w)) (h w hR c hc)

/-- A program that begins with a Redis command. -/
theorem Svc.amid_redis {cmd : RedisCmd} {f : cmd.Reply → Svc α}
    (h : ∀ w, R m.session m.world w → ∀ c, C c → match cmd.exec c (m.inWorld w) with
      | (.ok r, m') => Svc.amid env C R (f r) Q (m'.record (.redis cmd) (.ok r))
      | (.error e, m') => ∀ w', R (m'.record (.redis cmd) (.error e)).session m'.world w' →
        Q (.error (.redis e)) ((m'.record (.redis cmd) (.error e)).inWorld w')) :
    Svc.amid env C R (redis cmd >>= f) Q m := by
  intro w hR c hc
  have hexec := h w hR c hc
  show Svc.amid env C R ((match (cmd.exec c (m.inWorld w)).1 with
      | .ok r => pure r
      | .error e => throw (.redis e)) >>= f) Q
    ((cmd.exec c (m.inWorld w)).2.record (.redis cmd) (cmd.exec c (m.inWorld w)).1)
  generalize cmd.exec c (m.inWorld w) = answer at hexec
  rcases answer with ⟨e | r, m'⟩
  · exact hexec
  · exact hexec

/-- What the moves of the others and the calls in `A` keep holds at the end. -/
theorem Svc.amid_of_only {A : Op → Prop} {P : Machine → Prop}
    (hmoved : ∀ m w, P m → R m.session m.world w → P (m.inWorld w))
    (hcall : ∀ c op m, C c → A op → P m → P (exec env c op m).2) {p : Svc α} (hp : p.Only A)
    (hm : P m) : Svc.amid env C R p (fun _ m' => P m') m :=
  Pool.amid_of_only (P := fun w l => P ⟨w, l⟩) (fun l w w' hP hR => hmoved ⟨w, l⟩ w' hP hR)
    (fun c op w l hc hop hP => hcall c op ⟨w, l⟩ hc hop hP) hp hm

end Amid

end GpuIndex
