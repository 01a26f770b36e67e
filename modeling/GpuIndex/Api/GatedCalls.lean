/-
  What stands before the data.

  A request reaches the tables or the cache only when it has a valid key and the limiter has let it
  through.  SPECIFICATION (`gate_before_data`): in every run of any number of requests, whatever the
  outside does and whatever fails, each call on a request's record comes after what let it come, and
  a request that was turned away has made no call but the limiter's.

  The crux is the promise `Gate` of a request: it makes no other call before it is let through
  (`gated_serveRequest`).  That its record is in order then holds all along (`Pool.own_run`).
-/
import GpuIndex.Api.ConcurrentRequests
import GpuIndex.Core.Comply

namespace GpuIndex

open Trace

/-! ## The gate -/

/-- The limiter has let the request through: it has a valid key, and the count of its window was
    within the limit or could not be had. -/
def LetThrough (env : Env) (req : Request) (log : List Event) : Prop :=
  ∃ key ∈ env.settings.apiKeySet, req.apiKey = some key
    ∧ ∃ (time : Int) (count : Except RedisError Int), ⟨.time, time⟩ ∈ log
      ∧ ⟨.redis (.incrExpire
          (windowBucket (Principal.bucketId env.strHash ⟨key⟩) time
            env.settings.rateLimitWindowSeconds)
          (env.settings.rateLimitWindowSeconds * 2)), count⟩ ∈ log
      ∧ ∀ n, count = .ok n → n ≤ env.settings.rateLimitRequests

/-- Every call on record, latest first, was made with a valid key, and it is the limiter's or was
    let through by what came before it. -/
def Gated (env : Env) (req : Request) : List Event → Prop
  | [] => True
  | e :: log => ValidKey env req ∧ (LimiterCall e.op ∨ LetThrough env req log) ∧ Gated env req log

/-- The record holds calls of the limiter only. -/
def LimiterOnly (log : List Event) : Prop := ∀ e ∈ log, LimiterCall e.op

/-- How a request ends: turned away for its key, refused by the limiter, or let through. -/
inductive GateEnd (env : Env) (req : Request) (log : List Event) : Except Exn Response → Prop
  | unauthorized (invalid : ¬ ValidKey env req) (silent : log = []) :
      GateEnd env req log (.error (.http 401 "Missing or invalid API key." []))
  | refused (untouched : LimiterOnly log) :
      GateEnd env req log (.error (tooManyRequests env.settings))
  | noWindow (untouched : LimiterOnly log) (zero : env.settings.rateLimitWindowSeconds = 0) :
      GateEnd env req log (.error .zeroDivisionError)
  | letThrough {r : Except Exn Response} (through : LetThrough env req log) : GateEnd env req log r

/-- What every call of a request promises: it goes on record, and it was free to be made. -/
def Gate (env : Env) (req : Request) (m m' : Machine) : Prop :=
  ∃ e : Event, m'.session.log = e :: m.session.log ∧ ValidKey env req
    ∧ (LimiterCall e.op ∨ LetThrough env req m.session.log)

section Gate

variable {env : Env} {req : Request} {m : Machine} {log : List Event}

theorem LetThrough.cons (h : LetThrough env req log) (e : Event) :
    LetThrough env req (e :: log) := by
  obtain ⟨key, hkey, hreq, time, count, htime, hcount, hwithin⟩ := h
  exact ⟨key, hkey, hreq, time, count, List.mem_cons_of_mem e htime, List.mem_cons_of_mem e hcount,
    hwithin⟩

theorem exec_log (env : Env) (c : Choice) (op : Op) (m : Machine) :
    (exec env c op m).2.session.log = ⟨op, (exec env c op m).1⟩ :: m.session.log :=
  congrArg (List.cons _) (perform_log env c op m)

/-- A request that is not gated has made no call. -/
theorem Gated.silent (h : Gated env req log) (hinvalid : ¬ ValidKey env req) : log = [] := by
  cases log with
  | nil => rfl
  | cons e log => exact absurd h.1 hinvalid

theorem Gate.gated {m' : Machine} (h : Gate env req m m') (hm : Gated env req m.session.log) :
    Gated env req m'.session.log := by
  obtain ⟨e, hlog, hvalid, hfree⟩ := h
  rw [hlog]
  exact ⟨hvalid, hfree, hm⟩

/-- Every call of the program keeps the promise, however the world moves. -/
abbrev Svc.gated {α : Type} (env : Env) (req : Request) (p : Svc α)
    (Q : Except Exn α → Machine → Prop) (m : Machine) : Prop :=
  Svc.complies env (fun _ _ _ => True) (fun _ _ => True) (Gate env req) p Q m

/-- What was let through may make any call. -/
theorem gated_letThrough {α : Type} (p : Svc α) (hvalid : ValidKey env req)
    (h : LetThrough env req m.session.log) :
    Svc.gated env req p (fun _ m' => LetThrough env req m'.session.log) m := by
  refine Svc.complies_of_only (P := fun m => LetThrough env req m.session.log) (B := fun _ => True)
    (fun _ _ h _ => h) (fun c op m _ _ h => ?_) (Prog.only_true _) h
  have hlog := exec_log env c op m
  exact ⟨⟨_, hlog, hvalid, .inr h⟩, by rw [hlog]; exact h.cons _⟩

/-- The count is on record, and it is what the pipeline answered. -/
theorem complies_count {G : Machine → Machine → Prop} {bucket : String} {ex : Int}
    (hbump : ∀ c w, G (m.inWorld w) (exec env c (.redis (.incrExpire bucket ex)) (m.inWorld w)).2) :
    Svc.complies env (fun _ _ _ => True) (fun _ _ => True) G
      (tryCatch (some <$> redis (.incrExpire bucket ex)) fun _ => pure none)
      (fun r m' => ∃ ans, m'.session.log = ⟨.redis (.incrExpire bucket ex), ans⟩ :: m.session.log
        ∧ r = .ok ans.toOption) m := by
  have hcmd : Svc.complies env (fun _ _ _ => True) (fun _ _ => True) G
      (some <$> redis (.incrExpire bucket ex)) (fun r m' => ∃ ans : Except RedisError Int,
        m'.session.log = ⟨.redis (.incrExpire bucket ex), ans⟩ :: m.session.log
          ∧ r = (ans.mapError Exn.redis).map some) m := by
    refine Svc.complies_redis (f := fun n => pure (some n)) fun w _ c _ => ⟨hbump c w, ?_⟩
    have hlog := exec_log env c (.redis (.incrExpire bucket ex)) (m.inWorld w)
    rcases hexec : (RedisCmd.incrExpire bucket ex).exec c (m.inWorld w) with ⟨e | n, m'⟩
    · simp only [exec, perform, hexec] at hlog
      exact fun w' _ => ⟨.error e, hlog, rfl⟩
    · simp only [exec, perform, hexec] at hlog
      exact fun w' _ => ⟨.ok n, hlog, rfl⟩
  refine Svc.complies_try hcmd (fun a m' h => ?_) fun e m' h w _ => ?_
  · obtain ⟨ans, hlog, hr⟩ := h
    cases ans with
    | ok n => exact ⟨.ok n, hlog, hr⟩
    | error e => cases hr
  · obtain ⟨ans, hlog, hr⟩ := h w trivial
    cases ans with
    | ok n => cases hr
    | error e => exact ⟨.error e, hlog, rfl⟩

/-- **The limiter** of a request with a valid key lets it through, or it has made no other call; it
    keeps every promise that its two calls keep. -/
theorem complies_rateLimit {G : Machine → Machine → Prop} {key : String}
    (hkey : key ∈ env.settings.apiKeySet) (hreq : req.apiKey = some key) (hlog : m.session.log = [])
    (hclock : ∀ c m, m.session.log = [] → G m (exec env c .time m).2)
    (hbump : ∀ c m time bucket ex, m.session.log = [⟨.time, time⟩] → hasPrefix "rl:" bucket = true →
      G m (exec env c (.redis (.incrExpire bucket ex)) m).2) :
    Svc.complies env (fun _ _ _ => True) (fun _ _ => True) G (rateLimit env ⟨key⟩)
      (fun r m' => match r with
        | .ok _ => LetThrough env req m'.session.log
        | .error e => LimiterOnly m'.session.log ∧ (e = tooManyRequests env.settings
            ∨ e = .zeroDivisionError ∧ env.settings.rateLimitWindowSeconds = 0)) m := by
  unfold rateLimit
  refine Svc.complies_call.mpr fun w _ c _ => ⟨hclock c (m.inWorld w) hlog, ?_⟩
  have htime := exec_log env c .time (m.inWorld w)
  generalize (exec env c .time (m.inWorld w)).1 = time at htime ⊢
  generalize (exec env c .time (m.inWorld w)).2 = m₁ at htime ⊢
  rw [show (m.inWorld w).session.log = [] from hlog] at htime
  have honly : LimiterOnly m₁.session.log := by
    rw [htime]
    exact List.forall_mem_singleton.mpr (.inl rfl)
  dsimp only
  split
  · rename_i hzero
    exact fun w' _ => ⟨honly, .inr ⟨rfl, hzero⟩⟩
  · have hbucket := hasPrefix_windowBucket env ⟨key⟩ time env.settings.rateLimitWindowSeconds
    refine Svc.complies_seq (complies_count fun c w' =>
      hbump c (m₁.inWorld w') time _ _ htime hbucket)
      (fun count m₂ h => ?_) fun e m₂ h => ?_
    · obtain ⟨ans, hlog₂, hans⟩ := h m₂.world trivial
      have honly₂ : LimiterOnly m₂.session.log := by
        rw [show m₂.session.log = _ from hlog₂]
        exact List.forall_mem_cons.mpr ⟨.inr ⟨_, _, hbucket, rfl⟩, honly⟩
      have hthrough (hwithin : ∀ n, ans = .ok n → n ≤ env.settings.rateLimitRequests) :
          LetThrough env req m₂.session.log := by
        refine ⟨key, hkey, hreq, time, ans, ?_, ?_, hwithin⟩
        · rw [show m₂.session.log = _ from hlog₂, htime]
          exact List.mem_cons_of_mem _ List.mem_cons_self
        · rw [show m₂.session.log = _ from hlog₂]
          exact List.mem_cons_self
      obtain rfl := Except.ok.inj hans
      cases ans with
      | error e => exact fun w' _ => hthrough fun _ h => by cases h
      | ok n =>
        show Svc.complies env _ _ G (if env.settings.rateLimitRequests < n then _ else _) _ m₂
        split
        · exact fun w' _ => ⟨honly₂, .inl rfl⟩
        · rename_i hwithin
          refine fun w' _ => hthrough fun n' h => ?_
          cases h
          exact Int.not_lt.mp hwithin
    · obtain ⟨_, -, h⟩ := h
      cases h

/-- **A request** keeps the promise, however the world moves. -/
theorem gated_serveRequest (hlog : m.session.log = []) :
    Svc.gated env req (serveRequest env req) (fun r m' => GateEnd env req m'.session.log r) m := by
  unfold serveRequest
  by_cases hvalid : ValidKey env req
  · obtain ⟨key, hkey, hreq⟩ := hvalid
    rw [hreq, requireApiKey_eq hkey, pure_bind]
    have hvalid : ValidKey env req := ⟨key, hkey, hreq⟩
    have hlimiter := complies_rateLimit (G := Gate env req) hkey hreq hlog
      (fun c m _ => ⟨_, exec_log env c _ m, hvalid, .inl (.inl rfl)⟩)
      fun c m _ bucket ex _ hbucket =>
        ⟨_, exec_log env c _ m, hvalid, .inl (.inr ⟨bucket, ex, hbucket, rfl⟩)⟩
    refine Svc.complies_seq hlimiter (fun _ m₁ h => ?_) fun e m₁ h => ?_
    · have hthrough : LetThrough env req m₁.session.log := h m₁.world trivial
      exact Svc.complies_mono (gated_letThrough _ hvalid hthrough) fun _ _ => .letThrough
    · obtain ⟨honly, rfl | ⟨rfl, hzero⟩⟩ := h
      · exact .refused honly
      · exact .noWindow honly hzero
  · rw [requireApiKey_invalid hvalid]
    exact fun w _ => .unauthorized hvalid hlog

end Gate

/-! ## Runs -/

section Runs

variable {ι : Type} [DecidableEq ι]

/-- Promises that ask nothing of the others are kept in every run. -/
theorem Traffic.allowed_all (t : Traffic ι) (s : Traffic.Threads ι)
    (trace : List (Traffic.Move ι)) :
    Guarded t.step (Pool.Allowed (fun _ _ _ _ _ => True) fun _ _ _ => True) s trace := by
  refine guarded_iff.mpr fun before m after _ => ?_
  cases m with
  | call i c => exact fun _ _ _ => trivial
  | outside w => exact fun _ => trivial

/-- **What stands before the data**, in every run of any number of requests. -/
theorem gate_before_data (t : Traffic ι) (w : World) (trace : List (Traffic.Move ι)) (i : ι) :
    Gated (t.env i) (t.request i) ((t.after w trace).own i).log
      ∧ (¬ ValidKey (t.env i) (t.request i) → ((t.after w trace).own i).log = [])
      ∧ ∀ r, (t.after w trace).prog i = .pure r →
        GateEnd (t.env i) (t.request i) ((t.after w trace).own i).log r := by
  have hfit : Pool.Compatible (fun (_ : ι) (_ _ : World) => True)
      (fun i x y => Gate (t.env i) (t.request i) ⟨x.1, x.2⟩ ⟨y.1, y.2⟩) :=
    ⟨fun _ _ => trivial, fun _ _ _ _ _ _ => trivial, fun _ _ _ _ _ _ => trivial⟩
  have hstart : Pool.AllComply (fun (_ : ι) (_ : Choice) (_ : Op) (_ : World) (_ : Session) => True)
      (fun i => handler (t.env i)) (fun (_ : ι) (_ _ : World) => True)
      (fun i x y => Gate (t.env i) (t.request i) ⟨x.1, x.2⟩ ⟨y.1, y.2⟩)
      (fun i r _ l => GateEnd (t.env i) (t.request i) l.log r) (t.start w) :=
    fun i => gated_serveRequest (m := ⟨w, {}⟩) rfl
  have hrun := t.allowed_all (t.start w) trace
  have hgated : Gated (t.env i) (t.request i) ((t.after w trace).own i).log :=
    Pool.own_run (P := fun i (l : Session) => Gated (t.env i) (t.request i) l.log) hfit hstart hrun
      (fun _ _ _ h hx => h.gated hx) (fun _ => trivial) i
  exact ⟨hgated, hgated.silent, fun r hr => Pool.ended_run hfit hstart hrun hr⟩

end Runs

end GpuIndex
