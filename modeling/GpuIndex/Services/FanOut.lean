/-
  The bounded fan-out of the ingestion.

  `fan_out_fetch` wraps every fetcher in a `guarded` task and gathers the tasks.  A task waits at
  `async with sem` until it gets a permit, calls its fetcher, and leaves the `async with` when the
  fetcher returns or raises; leaving gives the permit back either way.  The event loop decides which
  waiting task gets a free permit and which fetcher ends next, so a run is any sequence of the moves
  of `Permits`.

  **`fan_out_bounded`**: in every state of every run the permits add up and some task can move on,
  and what `gather` returns is what each fetcher returned or raised, in argument order.
-/
import GpuIndex.Core.Svc
import GpuIndex.Lib.Permits
import Mathlib.Data.List.FinRange

namespace GpuIndex

open Permits Trace

/-- The settings, with the one that bounds the fan-out. -/
structure IngestSettings extends Settings where
  ingestConcurrency : Int := 16

/-- A fetcher, as far as the fan-out knows it: how awaiting it may end, which it does. -/
structure Fetcher (ε α : Type) where
  mayEnd : Except ε α → Prop
  ends : ∃ r, mayEnd r

/-- The tasks of a list of fetchers, under their semaphore. -/
abbrev FanOut {ε α : Type} (fetchers : List (Fetcher ε α)) :=
  State (Fin fetchers.length) (Except ε α)

/-- `concurrency or get_settings().ingest_concurrency` -/
def fanOutLimit (settings : IngestSettings) : Option Int → Int
  | some concurrency => if concurrency = 0 then settings.ingestConcurrency else concurrency
  | none => settings.ingestConcurrency

section

variable {ε α : Type} {fetchers : List (Fetcher ε α)}

/-- `fan_out_fetch` up to its `await`: the semaphore, and a task for each fetcher.
    `asyncio.Semaphore` refuses a negative value. -/
def fanOutFetch (settings : IngestSettings) (concurrency : Option Int)
    (fetchers : List (Fetcher ε α)) : Except Exn (FanOut fetchers) :=
  if fanOutLimit settings concurrency < 0 then .error .valueError
  else .ok (.initial (fanOutLimit settings concurrency).toNat)

/-- The moves of the tasks: `guarded(fn)` enters `async with sem` and calls `fn`, or `fn` ends in
    one of its ways and the task ends as it did. -/
def FanOut.Allowed : FanOut fetchers → Move (Fin fetchers.length) (Except ε α) → Prop :=
  State.Allowed fun i r => (fetchers.get i).mayEnd r

/-- What `asyncio.gather(..., return_exceptions=True)` returns, once every task has ended. -/
def FanOut.gathered (s : FanOut fetchers) : Option (List (Except ε α)) :=
  (List.finRange fetchers.length).mapM fun i => (s.phase i).result?

/-- A state of the fan-out, and the moves that led to it. -/
inductive FanOutRun (settings : IngestSettings) (concurrency : Option Int)
    (fetchers : List (Fetcher ε α)) :
    List (Move (Fin fetchers.length) (Except ε α)) → FanOut fetchers → Prop where
  | run {s : FanOut fetchers} {trace : List (Move (Fin fetchers.length) (Except ε α))}
      (start : fanOutFetch settings concurrency fetchers = .ok s)
      (allowed : Guarded State.step FanOut.Allowed s trace) :
      FanOutRun settings concurrency fetchers trace (run State.step s trace)

theorem mapM_eq_some {β γ : Type} {f : β → Option γ} {l : List β} {results : List γ}
    (h : l.mapM f = some results) : List.Forall₂ (fun b r => f b = some r) l results := by
  induction l generalizing results with
  | nil =>
    cases h
    exact .nil
  | cons b l ih =>
    rw [List.mapM_cons] at h
    obtain ⟨r, hr, h⟩ := Option.bind_eq_some_iff.mp h
    obtain ⟨rest, hrest, h⟩ := Option.bind_eq_some_iff.mp h
    cases h
    exact .cons hr (ih hrest)

theorem mapM_isSome {β γ : Type} {f : β → Option γ} {l : List β} (h : ∀ b ∈ l, ∃ r, f b = some r) :
    ∃ results, l.mapM f = some results := by
  induction l with
  | nil => exact ⟨[], rfl⟩
  | cons b l ih =>
    obtain ⟨r, hr⟩ := h b List.mem_cons_self
    obtain ⟨rest, hrest⟩ := ih fun x hx => h x (List.mem_cons_of_mem _ hx)
    exact ⟨r :: rest, by rw [List.mapM_cons, hr, hrest]; rfl⟩

/-- The results are those of the tasks, by position. -/
theorem gathered_eq_some {s : FanOut fetchers} {results : List (Except ε α)}
    (h : s.gathered = some results) : results.length = fetchers.length
      ∧ ∀ i : Fin fetchers.length, ∃ r, results[i.val]? = some r ∧ s.phase i = .ended r := by
  have hall := mapM_eq_some h
  have hlength := hall.length_eq
  rw [List.length_finRange] at hlength
  refine ⟨hlength.symm, fun i => ?_⟩
  have hlt : i.val < results.length := hlength ▸ i.isLt
  have hi := List.forall₂_iff_get.mp hall
  have hget := hi.2 i.val (by rw [List.length_finRange]; exact i.isLt) hlt
  refine ⟨results[i.val], List.getElem?_eq_getElem hlt, Phase.result?_eq_some.mp ?_⟩
  simpa using hget

/-- `gather` returns once every task has ended. -/
theorem gathered_isSome {s : FanOut fetchers} (h : ∀ i, ∃ r, s.phase i = .ended r) :
    ∃ results, s.gathered = some results :=
  mapM_isSome fun i _ => by
    obtain ⟨r, hr⟩ := h i
    exact ⟨r, Phase.result?_eq_some.mpr hr⟩

/-- What holds in a state of a fan-out with that many permits, reached by these moves. -/
structure BoundedFanOut (limit : Int) (trace : List (Move (Fin fetchers.length) (Except ε α)))
    (s : FanOut fetchers) : Prop where
  /-- No more fetchers are running than there are permits. -/
  bounded : (s.running.card : Int) ≤ limit
  /-- A permit is free, or a running fetcher has it. -/
  permits : (s.running.card : Int) + s.free = limit
  /-- While a fetcher has not ended, one is running or one can start. -/
  progress : (∃ i, ∀ r, s.phase i ≠ .ended r) →
    s.running.Nonempty ∨ ∃ i, FanOut.Allowed s (.start i)
  /-- Every run ends, with every fetcher ended. -/
  ends : trace.length ≤ 2 * fetchers.length
    ∧ ((∀ m, ¬ FanOut.Allowed s m) → ∃ results, s.gathered = some results)
  /-- Each fetcher has been called once, has ended once, and its end is its result. -/
  results : ∀ results, s.gathered = some results → results.length = fetchers.length
    ∧ ∀ i : Fin fetchers.length, ∃ r, results[i.val]? = some r ∧ (fetchers.get i).mayEnd r
      ∧ (trace.filter fun m => m.task = i) = [.start i, .finish i r]

/-- **Bounded fan-out** is safe and loses nothing, for every list of fetchers, every limit from one
    on, and every order in which tasks get permits and fetchers end. -/
theorem fan_out_bounded (settings : IngestSettings) (concurrency : Option Int)
    (hlimit : 1 ≤ fanOutLimit settings concurrency) (fetchers : List (Fetcher ε α))
    (trace : List (Move (Fin fetchers.length) (Except ε α))) (s : FanOut fetchers)
    (h : FanOutRun settings concurrency fetchers trace s) :
    BoundedFanOut (fanOutLimit settings concurrency) trace s := by
  obtain ⟨hstart, hallowed⟩ := h
  rw [fanOutFetch, if_neg (by omega)] at hstart
  obtain rfl := Except.ok.inj hstart
  obtain ⟨limit, hnat⟩ :=
    Int.eq_ofNat_of_zero_le (show 0 ≤ fanOutLimit settings concurrency by omega)
  rw [hnat] at hlimit hallowed ⊢
  rw [Int.toNat_natCast] at hallowed ⊢
  have hlimit' : 1 ≤ limit := by omega
  have hpermits := running_add_free hallowed
  have hlength := length_run hallowed
  rw [left_initial, Fintype.card_fin] at hlength
  refine ⟨by omega, by omega, ?_, ⟨by omega, fun hstuck => ?_⟩, fun results hresults => ?_⟩
  · rintro ⟨i, hi⟩
    exact (exists_running_or_allowed hlimit' hallowed hi).imp_right fun hi => ⟨i, hi⟩
  · exact gathered_isSome (ended_of_stuck hlimit' (fun i => (fetchers.get i).ends) hallowed hstuck)
  · obtain ⟨hcount, hended⟩ := gathered_eq_some hresults
    refine ⟨hcount, fun i => ?_⟩
    obtain ⟨r, hr, hphase⟩ := hended i
    refine ⟨r, hr, may_run hallowed (fun _ _ h => nomatch h) i r hphase, ?_⟩
    -- the moves of the task are those its phase tells of
    have hmoves := moves_run hallowed i
    rw [hphase] at hmoves
    exact hmoves.symm

end

/-- A feed that answers and one that fails. -/
def twoFeeds : List (Fetcher Exn String) :=
  [⟨(· = .ok "ok"), _, rfl⟩, ⟨(· = .error .valueError), _, rfl⟩]

/-- The failing feed goes first, with the only permit. -/
def oneAtATime : List (Move (Fin twoFeeds.length) (Except Exn String)) :=
  [.start ⟨1, by decide⟩, .finish ⟨1, by decide⟩ (.error .valueError),
    .start ⟨0, by decide⟩, .finish ⟨0, by decide⟩ (.ok "ok")]

theorem fan_out_bounded_two :
    ∃ s : FanOut twoFeeds, s.gathered = some [.ok "ok", .error .valueError]
      ∧ BoundedFanOut (fanOutLimit {} (some 1)) oneAtATime s :=
  ⟨run State.step (.initial 1) oneAtATime, rfl, fan_out_bounded {} (some 1) (by decide) twoFeeds
    oneAtATime _ (.run rfl ⟨⟨rfl, by decide⟩, ⟨rfl, rfl⟩, ⟨rfl, by decide⟩, ⟨rfl, rfl⟩, trivial⟩)⟩

end GpuIndex
