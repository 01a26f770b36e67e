/-
  The service's programs.

  A `Svc` program makes the calls of `svc` and may raise; an exception is a value, so `try` and
  `except` are ordinary case distinctions.  `runSvc` runs one alone, `Svc.wp` says what holds
  whatever the outside chooses.
-/
import GpuIndex.Core.World
import GpuIndex.Lib.Json

namespace GpuIndex

open Calendar
open JsonText (Value)

/-- What a handler may raise. -/
inductive Exn where
  /-- `HTTPException` -/
  | http (status : Nat) (detail : String) (headers : List (String × String))
  | redis (e : RedisError)
  | db (e : DbError)
  | overflowError
  | zeroDivisionError
  | jsonDecodeError
  | binasciiError
  | unicodeDecodeError
  | keyError
  | typeError
  | valueError
  | validationError
  deriving DecidableEq

/-- A program that may raise. -/
abbrev Svc (α : Type) := ExceptT Exn (Prog svc) α

/-- A JSON value of the service: its foreign leaves are date-times. -/
abbrev Json := Value Datetime

/-- Make a call. -/
def call (op : Op) : Svc op.Ans := ExceptT.lift (Prog.ask (S := svc) op)

/-- Execute a statement; a failure is raised. -/
def query (stmt : Statement) : Svc stmt.Result := do
  match ← call (.db stmt) with
  | .ok r => return r
  | .error e => throw (.db e)

/-- Issue a Redis command; a failure is raised. -/
def redis (cmd : RedisCmd) : Svc cmd.Reply := do
  match ← call (.redis cmd) with
  | .ok r => return r
  | .error e => throw (.redis e)

/-- Raise an error that is already a value. -/
def ofExcept {α : Type} : Except Exn α → Svc α
  | .ok a => return a
  | .error e => throw e

theorem ok_bind {ε α β : Type} (a : α) (f : α → Except ε β) : (Except.ok a >>= f) = f a := rfl

theorem bind_ok {ε α β : Type} {x : Except ε α} {f : α → Except ε β} {b : β}
    (h : x.bind f = .ok b) : ∃ a, x = .ok a ∧ f a = .ok b := by
  cases x with
  | error e => cases h
  | ok a => exact ⟨a, rfl, h⟩

theorem bind_eq_error {ε α β : Type} {x : Except ε α} {f : α → Except ε β} {e : ε}
    (h : (x >>= f) = .error e) : x = .error e ∨ ∃ a, x = .ok a ∧ f a = .error e := by
  cases x with
  | error e' =>
    obtain rfl := Except.error.inj (show (.error e' : Except ε β) = .error e from h)
    exact .inl rfl
  | ok a => exact .inr ⟨a, rfl, h⟩

/-- `raw[name]` -/
def subscript (name : String) : Json → Except Exn Json
  | .obj members =>
    match JsonText.lookup name members with
    | some v => .ok v
    | none => .error .keyError
  | _ => .error .typeError

section Run

variable {α β : Type} (env : Env)

/-- Run a program alone from a machine on, where so many calls have been made, the outside deciding
    by the sequence of choices. -/
def Svc.go (choices : Nat → Choice) (p : Svc α) (s : Machine × Nat) :
    Except Exn α × (Machine × Nat) :=
  p.run.run (Prog.answer (S := svc) (exec env) choices) s

/-- Run a program alone. -/
def runSvc (choices : Nat → Choice) (p : Svc α) (m : Machine) : Except Exn α × Machine :=
  ((p.go env choices (m, 0)).1, (p.go env choices (m, 0)).2.1)

/-- Whatever the outside chooses, among the choices in `C`, the program ends as `Q` says. -/
def Svc.wp (C : Choice → Prop) (p : Svc α) (Q : Except Exn α → Machine → Prop) (m : Machine) :
    Prop :=
  Prog.wp (S := svc) C (exec env) p.run Q m

variable {env} {C : Choice → Prop} {Q R : Except Exn α → Machine → Prop} {m : Machine}

theorem Svc.go_of_wp (choices : Nat → Choice) (hchoices : ∀ n, C (choices n)) {p : Svc α} (n : Nat)
    (h : Svc.wp env C p Q m) : Q (p.go env choices (m, n)).1 (p.go env choices (m, n)).2.1 :=
  Prog.run_of_wp hchoices n h

theorem runSvc_of_wp (choices : Nat → Choice) (hchoices : ∀ n, C (choices n)) {p : Svc α}
    (h : Svc.wp env C p Q m) : Q (runSvc env choices p m).1 (runSvc env choices p m).2 :=
  Svc.go_of_wp choices hchoices 0 h

section Go

variable {choices : Nat → Choice} {s : Machine × Nat}

@[simp] theorem Svc.go_pure {a : α} : Svc.go env choices (pure a) s = (.ok a, s) := rfl

@[simp] theorem Svc.go_throw {e : Exn} :
    Svc.go env choices (throw e : Svc α) s = (.error e, s) := rfl

@[simp] theorem Svc.go_call {op : Op} :
    Svc.go env choices (call op) s = (.ok (exec env (choices s.2) op s.1).1,
      ((exec env (choices s.2) op s.1).2, s.2 + 1)) := rfl

/-- Sequencing: an exception skips the rest. -/
@[simp] theorem Svc.go_bind {p : Svc α} {f : α → Svc β} :
    Svc.go env choices (p >>= f) s = match p.go env choices s with
      | (.ok a, s') => (f a).go env choices s'
      | (.error e, s') => (.error e, s') := by
  refine (Prog.run_bind _ p _ s).trans ?_
  rw [Svc.go, ExceptT.run]
  rcases Prog.run (Prog.answer (S := svc) (exec env) choices) p s with ⟨e | a, s'⟩ <;> rfl

@[simp] theorem Svc.go_now :
    Svc.go env choices (call .now) s = (.ok (env.clock s.1.world.now),
      (s.1.record .now (env.clock s.1.world.now), s.2 + 1)) := rfl

/-- A statement answers or fails. -/
theorem Svc.go_query {stmt : Statement} :
    Svc.go env choices (query stmt) s = match stmt.exec env (choices s.2) s.1 with
      | (.ok r, m') => (.ok r, (m'.record (.db stmt) (.ok r), s.2 + 1))
      | (.error e, m') => (.error (.db e), (m'.record (.db stmt) (.error e), s.2 + 1)) := by
  rw [query, Svc.go_bind, Svc.go_call]
  simp only [exec, perform]
  rcases stmt.exec env (choices s.2) s.1 with ⟨e | r, m'⟩ <;> rfl

/-- `try` and `except`: an exception goes to the handler. -/
theorem Svc.go_tryCatch {p : Svc α} {f : Exn → Svc α} :
    Svc.go env choices (tryCatch p f) s = match p.go env choices s with
      | (.ok a, s') => (.ok a, s')
      | (.error e, s') => (f e).go env choices s' := by
  refine (Prog.run_bind _ p _ s).trans ?_
  rw [Svc.go, ExceptT.run]
  rcases Prog.run (Prog.answer (S := svc) (exec env) choices) p s with ⟨e | a, s'⟩ <;> rfl

/-- A Redis command answers or fails. -/
theorem Svc.go_redis {cmd : RedisCmd} :
    Svc.go env choices (redis cmd) s = match cmd.exec (choices s.2) s.1 with
      | (.ok r, m') => (.ok r, (m'.record (.redis cmd) (.ok r), s.2 + 1))
      | (.error e, m') => (.error (.redis e), (m'.record (.redis cmd) (.error e), s.2 + 1)) := by
  rw [redis, Svc.go_bind, Svc.go_call]
  simp only [exec, perform]
  rcases cmd.exec (choices s.2) s.1 with ⟨e | r, m'⟩ <;> rfl

end Go

theorem Svc.wp_mono {p : Svc α} (h : Svc.wp env C p Q m) (hQR : ∀ r m', Q r m' → R r m') :
    Svc.wp env C p R m :=
  Prog.wp_mono h hQR

theorem Svc.wp_and {p : Svc α} (hQ : Svc.wp env C p Q m) (hR : Svc.wp env C p R m) :
    Svc.wp env C p (fun r m' => Q r m' ∧ R r m') m :=
  Prog.wp_and hQ hR

@[simp] theorem Svc.wp_pure {a : α} : Svc.wp env C (pure a) Q m ↔ Q (.ok a) m := Iff.rfl

@[simp] theorem Svc.wp_throw {e : Exn} : Svc.wp env C (throw e) Q m ↔ Q (.error e) m := Iff.rfl

/-- A call answers and the world moves on, for every choice. -/
@[simp] theorem Svc.wp_call {op : Op} {Q : Except Exn op.Ans → Machine → Prop} :
    Svc.wp env C (call op) Q m
      ↔ ∀ c, C c → Q (.ok (exec env c op m).1) (exec env c op m).2 := Iff.rfl

/-- A program that cannot raise. -/
theorem Svc.wp_lift {p : Prog svc α} :
    Svc.wp env C (ExceptT.lift p) Q m
      ↔ Prog.wp (S := svc) C (exec env) p (fun a m' => Q (.ok a) m') m :=
  Prog.wp_bind

/-- Sequencing: an exception skips the rest. -/
theorem Svc.wp_bind {p : Svc α} {f : α → Svc β} {Q : Except Exn β → Machine → Prop} :
    Svc.wp env C (p >>= f) Q m ↔ Svc.wp env C p (fun r m' => match r with
      | .ok a => Svc.wp env C (f a) Q m'
      | .error e => Q (.error e) m') m := by
  refine Prog.wp_bind.trans ?_
  constructor <;> refine fun h => Prog.wp_mono h ?_ <;> rintro (e | a) m' h <;> exact h

/-- `try` and `except`: an exception goes to the handler. -/
theorem Svc.wp_tryCatch {p : Svc α} {f : Exn → Svc α} :
    Svc.wp env C (tryCatch p f) Q m ↔ Svc.wp env C p (fun r m' => match r with
      | .ok a => Q (.ok a) m'
      | .error e => Svc.wp env C (f e) Q m') m := by
  refine Prog.wp_bind.trans ?_
  constructor <;> refine fun h => Prog.wp_mono h ?_ <;> rintro (e | a) m' h <;> exact h

/-- Sequencing through a specification of the first part. -/
theorem Svc.wp_seq {p : Svc α} {f : α → Svc β} {R : Except Exn α → Machine → Prop}
    {Q : Except Exn β → Machine → Prop} (hp : Svc.wp env C p R m)
    (hok : ∀ a m', R (.ok a) m' → Svc.wp env C (f a) Q m')
    (herror : ∀ e m', R (.error e) m' → Q (.error e) m') : Svc.wp env C (p >>= f) Q m :=
  Prog.wp_run_seq hp hok herror

/-- `try` and `except` through a specification of the body. -/
theorem Svc.wp_try {p : Svc α} {f : Exn → Svc α} {R : Except Exn α → Machine → Prop}
    (hp : Svc.wp env C p R m) (hok : ∀ a m', R (.ok a) m' → Q (.ok a) m')
    (herror : ∀ e m', R (.error e) m' → Svc.wp env C (f e) Q m') :
    Svc.wp env C (tryCatch p f) Q m := by
  rw [Svc.wp_tryCatch]
  refine Svc.wp_mono hp ?_
  rintro (e | a) m' h
  · exact herror e m' h
  · exact hok a m' h

/-- A statement answers or fails. -/
theorem Svc.wp_query {stmt : Statement} {Q : Except Exn stmt.Result → Machine → Prop} :
    Svc.wp env C (query stmt) Q m ↔ ∀ c, C c → match stmt.exec env c m with
      | (.ok r, m') => Q (.ok r) (m'.record (.db stmt) (.ok r))
      | (.error e, m') => Q (.error (.db e)) (m'.record (.db stmt) (.error e)) := by
  rw [query, Svc.wp_bind, Svc.wp_call]
  refine forall₂_congr fun c _ => ?_
  simp only [exec, perform]
  rcases stmt.exec env c m with ⟨e | r, m'⟩ <;> exact Iff.rfl

/-- A program that begins with a statement: it goes on with the answer, or fails with nothing
    changed. -/
theorem Svc.wp_query_bind {stmt : Statement} {f : stmt.Result → Svc α}
    (hok : ∀ plan r m', stmt.eval env plan m.world.db = .ok r →
      stmt.effect env m = .ok m' → Svc.wp env C (f r) Q (m'.record (.db stmt) (.ok r)))
    (herror : ∀ e, Q (.error (.db e)) (m.record (.db stmt) (.error e))) :
    Svc.wp env C (query stmt >>= f) Q m := by
  rw [Svc.wp_bind, Svc.wp_query]
  intro c _
  split
  · rename_i r m' hexec
    obtain ⟨-, heval, heffect⟩ := Statement.exec_ok hexec
    exact hok c.plan r m' heval heffect
  · rename_i e m' hexec
    rw [Statement.exec_error hexec]
    exact herror e

/-- A program that begins with a statement, on a server that answers: only what the statement itself
    raises is raised. -/
theorem Svc.wp_query_answers {stmt : Statement} {f : stmt.Result → Svc α}
    (hok : ∀ plan r m', stmt.eval env plan m.world.db = .ok r → stmt.effect env m = .ok m' →
      Svc.wp env Choice.Answers (f r) Q (m'.record (.db stmt) (.ok r)))
    (heval : ∀ plan e, stmt.eval env plan m.world.db = .error e →
      Q (.error (.db e)) (m.record (.db stmt) (.error e)))
    (heffect : ∀ plan r e, stmt.eval env plan m.world.db = .ok r → stmt.effect env m = .error e →
      Q (.error (.db e)) (m.record (.db stmt) (.error e))) :
    Svc.wp env Choice.Answers (query stmt >>= f) Q m := by
  rw [Svc.wp_bind, Svc.wp_query]
  intro c hc
  have hanswers : c.dbError = none := hc
  cases hev : stmt.eval env c.plan m.world.db with
  | error e =>
    have hexec : stmt.exec env c m = (.error e, m) := by
      simp only [Statement.exec, hanswers, hev]
    rw [hexec]
    exact heval c.plan e hev
  | ok r =>
    cases hef : stmt.effect env m with
    | error e =>
      have hexec : stmt.exec env c m = (.error e, m) := by
        simp only [Statement.exec, hanswers, hev, hef]
      rw [hexec]
      exact heffect c.plan r e hev hef
    | ok m' =>
      have hexec : stmt.exec env c m = (.ok r, m') := by
        simp only [Statement.exec, hanswers, hev, hef]
      rw [hexec]
      exact hok c.plan r m' hev hef

/-- A Redis command answers or fails. -/
theorem Svc.wp_redis {cmd : RedisCmd} {Q : Except Exn cmd.Reply → Machine → Prop} :
    Svc.wp env C (redis cmd) Q m ↔ ∀ c, C c → match cmd.exec c m with
      | (.ok r, m') => Q (.ok r) (m'.record (.redis cmd) (.ok r))
      | (.error e, m') => Q (.error (.redis e)) (m'.record (.redis cmd) (.error e)) := by
  rw [redis, Svc.wp_bind, Svc.wp_call]
  refine forall₂_congr fun c _ => ?_
  simp only [exec, perform]
  rcases cmd.exec c m with ⟨e | r, m'⟩ <;> exact Iff.rfl

end Run

/-! ## Programs that make only some calls -/

section Only

variable {α β : Type} {A : Op → Prop}

/-- Every call the program can make is in `A`. -/
def Svc.Only (A : Op → Prop) (p : Svc α) : Prop := Prog.Only (S := svc) A p.run

/-- What those calls keep holds at the end. -/
theorem Svc.wp_of_only {env : Env} {C : Choice → Prop} {P : Machine → Prop}
    (hstep : ∀ c op m, C c → A op → P m → P (exec env c op m).2) {p : Svc α} (hp : p.Only A)
    {m : Machine} (hm : P m) : Svc.wp env C p (fun _ m' => P m') m :=
  Prog.wp_of_only hstep hp hm

theorem Svc.Only.mono {B : Op → Prop} {p : Svc α} (hp : p.Only A) (hAB : ∀ op, A op → B op) :
    p.Only B :=
  Prog.Only.mono hp hAB

theorem Svc.only_pure {a : α} : (pure a : Svc α).Only A := trivial

theorem Svc.only_throw {e : Exn} : (throw e : Svc α).Only A := trivial

theorem Svc.only_call {op : Op} (h : A op) : (call op).Only A := ⟨h, fun _ => trivial⟩

theorem Svc.only_bind {p : Svc α} {f : α → Svc β} (hp : p.Only A) (hf : ∀ a, (f a).Only A) :
    (p >>= f).Only A :=
  Prog.only_run_bind hp hf

theorem Svc.only_tryCatch {p : Svc α} {f : Exn → Svc α} (hp : p.Only A) (hf : ∀ e, (f e).Only A) :
    (tryCatch p f).Only A :=
  Prog.only_bind hp fun r => match r with
    | .ok _ => trivial
    | .error e => hf e

theorem Svc.only_query {stmt : Statement} (h : A (.db stmt)) : (query stmt).Only A :=
  ⟨h, fun r => match r with
    | .ok _ => trivial
    | .error _ => trivial⟩

theorem Svc.only_redis {cmd : RedisCmd} (h : A (.redis cmd)) : (redis cmd).Only A :=
  ⟨h, fun r => match r with
    | .ok _ => trivial
    | .error _ => trivial⟩

end Only

end GpuIndex
