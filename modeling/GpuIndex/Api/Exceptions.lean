/-
  What the handlers raise.

  What reads JSON or a cursor raises `Internal` exceptions only.  Redis errors stay inside the cache
  and the limiter, and only the limiter answers 429: an exception that leaves a handler is `Mild`.
  The lemmas follow the programs: what reads JSON first, then what asks the outside, then the
  handlers (`wp_handle_contained`).
-/
import GpuIndex.Api.RouteSpecs

namespace GpuIndex

open Calendar
open JsonText (FloatFormat)

/-! ## Exceptions of the code itself -/

/-- No response, and no error of Redis or of the database: Python raises it on its own. -/
def Exn.Internal : Exn → Prop
  | .http _ _ _ => False
  | .redis _ => False
  | .db _ => False
  | _ => True

/-- The result is a value, or an exception of that kind. -/
def InternalResult {α : Type} (r : Except Exn α) : Prop := ∀ e, r = .error e → e.Internal

section InternalResult

variable {α β : Type}

theorem internalResult_ok (a : α) : InternalResult (.ok a : Except Exn α) := fun _ h => nomatch h

theorem internalResult_error {e : Exn} (h : e.Internal) :
    InternalResult (.error e : Except Exn α) := by
  rintro e' ⟨⟩
  exact h

theorem internalResult_bind {r : Except Exn α} {f : α → Except Exn β} (hr : InternalResult r)
    (hf : ∀ a, InternalResult (f a)) : InternalResult (r >>= f) := by
  cases r with
  | error e => exact internalResult_error (hr e rfl)
  | ok a => exact hf a

theorem internalResult_map {r : Except Exn α} (f : α → β) (hr : InternalResult r) :
    InternalResult (r.map f) := by
  cases r with
  | error e => exact internalResult_error (hr e rfl)
  | ok a => exact internalResult_ok _

theorem internalResult_mapM {f : α → Except Exn β} (hf : ∀ a, InternalResult (f a)) (as : List α) :
    InternalResult (as.mapM f) := by
  induction as with
  | nil => exact internalResult_ok _
  | cons a as ih =>
    rw [List.mapM_cons]
    exact internalResult_bind (hf a) fun b => internalResult_bind ih fun bs => internalResult_ok _

theorem internalResult_orRaise {e : Exn} (he : e.Internal) (o : Option α) :
    InternalResult (orRaise e o) := by
  cases o with
  | none => exact internalResult_error he
  | some a => exact internalResult_ok a

end InternalResult

/-! ## Reading JSON -/

theorem internalResult_subscript (name : String) (v : Json) :
    InternalResult (subscript name v) := by
  unfold subscript
  split
  · split
    · exact internalResult_ok _
    · exact internalResult_error trivial
  · exact internalResult_error trivial

theorem internalResult_required (name : String) (v : Json) : InternalResult (required name v) := by
  unfold required
  split
  · split
    · exact internalResult_ok _
    · exact internalResult_error trivial
  · exact internalResult_error trivial

theorem internalResult_elements (v : Json) : InternalResult (elements v) := by
  unfold elements
  split
  · exact internalResult_ok _
  · exact internalResult_ok _
  · exact internalResult_ok _
  · exact internalResult_error trivial

theorem internalResult_strField (v : Json) : InternalResult (strField v) := by
  unfold strField
  split
  · exact internalResult_ok _
  · exact internalResult_error trivial

theorem internalResult_floatField (env : Env) (v : Json) : InternalResult (floatField env v) := by
  unfold floatField
  split
  · exact internalResult_ok _
  · exact internalResult_ok _
  · exact internalResult_error trivial

theorem internalResult_optionalFloatField (env : Env) (v : Json) :
    InternalResult (optionalFloatField env v) := by
  unfold optionalFloatField
  split
  · exact internalResult_ok _
  · exact internalResult_map _ (internalResult_floatField env _)

theorem internalResult_datetimeField (env : Env) (v : Json) :
    InternalResult (datetimeField env v) := by
  unfold datetimeField
  split
  · exact internalResult_ok _
  · split
    · exact internalResult_ok _
    · exact internalResult_error trivial
  · exact internalResult_error trivial

theorem internalResult_datetimeOf (v : Json) : InternalResult (datetimeOf v) := by
  unfold datetimeOf
  split
  · exact internalResult_orRaise (e := .valueError) trivial _
  · exact internalResult_orRaise (e := .valueError) trivial _
  · exact internalResult_error trivial

theorem internalResult_intOf (v : Json) : InternalResult (intOf v) := by
  unfold intOf
  split
  case h_6 =>
    split
    · exact internalResult_ok _
    · exact internalResult_error trivial
  all_goals first | exact internalResult_ok _ | exact internalResult_error trivial

theorem internalResult_decodeCursor (fmt : FloatFormat) (cursor : String) :
    InternalResult (decodeCursor fmt cursor) := by
  refine internalResult_bind (internalResult_orRaise (e := .binasciiError) trivial _)
    fun bytes => ?_
  refine internalResult_bind
    (internalResult_orRaise (e := .unicodeDecodeError) trivial _) fun text => ?_
  refine internalResult_bind (internalResult_orRaise (e := .jsonDecodeError) trivial _)
    fun raw => ?_
  refine internalResult_bind (internalResult_subscript _ _) fun o => ?_
  refine internalResult_bind (internalResult_datetimeOf _) fun d => ?_
  refine internalResult_bind (internalResult_subscript _ _) fun i => ?_
  exact internalResult_bind (internalResult_intOf _) fun n => internalResult_ok _

theorem internalResult_pricePointOfRow (env : Env) (v : Json) :
    InternalResult (PricePointOut.ofRow env v) := by
  refine internalResult_bind (internalResult_subscript _ _) fun provider => ?_
  refine internalResult_bind (internalResult_subscript _ _) fun region => ?_
  refine internalResult_bind (internalResult_subscript _ _) fun instanceType => ?_
  refine internalResult_bind (internalResult_subscript _ _) fun usdPerHour => ?_
  refine internalResult_bind (internalResult_subscript _ _) fun availability => ?_
  refine internalResult_bind (internalResult_subscript _ _) fun observedAt => ?_
  refine internalResult_bind (internalResult_strField _) fun _ => ?_
  refine internalResult_bind (internalResult_strField _) fun _ => ?_
  refine internalResult_bind (internalResult_strField _) fun _ => ?_
  refine internalResult_bind (internalResult_floatField env _) fun _ => ?_
  refine internalResult_bind (internalResult_strField _) fun _ => ?_
  exact internalResult_bind (internalResult_datetimeField env _) fun _ => internalResult_ok _

theorem internalResult_indexEntryOfRow (env : Env) (v : Json) :
    InternalResult (IndexEntryOut.ofRow env v) := by
  have hstr (name : String) {α : Type} {f : String → Except Exn α}
      (hf : ∀ s, InternalResult (f s)) :
      InternalResult (required name v >>= fun x => strField x >>= f) :=
    internalResult_bind (internalResult_required name v) fun x =>
      internalResult_bind (internalResult_strField x) hf
  have hfloat (name : String) {α : Type} {f : JsonText.FloatVal → Except Exn α}
      (hf : ∀ x, InternalResult (f x)) :
      InternalResult (required name v >>= fun x => floatField env x >>= f) :=
    internalResult_bind (internalResult_required name v) fun x =>
      internalResult_bind (internalResult_floatField env x) hf
  refine hstr _ fun _ => hstr _ fun _ => hstr _ fun _ => hstr _ fun _ => ?_
  refine hfloat _ fun _ => hfloat _ fun _ => hfloat _ fun _ => ?_
  exact hstr _ fun _ => hstr _ fun _ => internalResult_ok _

theorem internalResult_points (env : Env) (gpuModel : String) (rows : List Json)
    (regions providers : List String) (rates : List JsonText.FloatVal)
    (median : Option JsonText.FloatVal) : InternalResult (do
      let points ← rows.mapM (PricePointOut.ofRow env)
      match rates with
      | [] => .error .valueError
      | rate :: rates =>
        return ⟨gpuModel, regions.dedup.length, providers.dedup.length, minFloat rate rates, median,
          points⟩ : Except Exn PriceSummaryOut) := by
  refine internalResult_bind
    (internalResult_mapM (internalResult_pricePointOfRow env) _) fun points => ?_
  split
  · exact internalResult_error trivial
  · exact internalResult_ok _

theorem internalResult_priceSummary (env : Env) (gpuModel : String) (rows : Json) :
    InternalResult (priceSummary env gpuModel rows) := by
  unfold priceSummary
  split
  · exact internalResult_ok _
  · refine internalResult_bind (internalResult_elements rows) fun rows => ?_
    refine internalResult_bind (internalResult_mapM (fun r =>
      internalResult_bind (internalResult_subscript _ r) internalResult_strField) _)
      fun regions => ?_
    refine internalResult_bind (internalResult_mapM (fun r =>
      internalResult_bind (internalResult_subscript _ r) internalResult_strField) _)
      fun providers => ?_
    refine internalResult_bind (internalResult_mapM (fun r =>
      internalResult_bind (internalResult_subscript _ r) (internalResult_floatField env)) _)
        fun rates => ?_
    dsimp only
    split
    · exact internalResult_error trivial
    · exact internalResult_bind (internalResult_optionalFloatField env _) fun median =>
        internalResult_points env gpuModel _ regions providers rates median
    · exact internalResult_error trivial

theorem internalResult_indexPage (env : Env) (rows : Json) :
    InternalResult (indexPage env rows) := by
  refine internalResult_bind (internalResult_elements rows) fun rows => ?_
  exact internalResult_bind (internalResult_mapM (internalResult_indexEntryOfRow env) _) fun _ =>
    internalResult_ok _

theorem internalResult_minusDays (now : Instant) (days : Int) :
    InternalResult (minusDays now days) := by
  intro e he
  rw [minusDays_overflow he]
  trivial

/-! ## Exceptions that are not Redis's -/

/-- The exception is neither a Redis error nor the limiter's refusal; if it is a response, it is one
    of the client's errors. -/
def Exn.Mild : Exn → Prop
  | .redis _ => False
  | .http status _ _ => 400 ≤ status ∧ status ≠ 429
  | _ => True

/-- The result is a value, or an exception of that kind. -/
def MildResult {α : Type} (r : Except Exn α) : Prop := ∀ e, r = .error e → e.Mild

theorem mildResult_ok {α : Type} (a : α) : MildResult (.ok a : Except Exn α) := fun _ h => nomatch h

theorem mildResult_error {α : Type} {e : Exn} (h : e.Mild) :
    MildResult (.error e : Except Exn α) := by
  rintro e' ⟨⟩
  exact h

theorem Exn.Internal.mild {e : Exn} (h : e.Internal) : e.Mild := by
  cases e with
  | http _ _ _ => exact h.elim
  | redis _ => exact h
  | _ => trivial

/-! ## Programs that raise nothing else -/

/-- Whatever Redis does, the program raises only such exceptions. -/
def Svc.Mild {α : Type} (env : Env) (p : Svc α) : Prop :=
  ∀ C m, Svc.wp env C p (fun r _ => MildResult r) m

section Mild

variable {α β : Type} {env : Env}

theorem mild_pure (a : α) : (pure a : Svc α).Mild env := fun _ _ => mildResult_ok a

theorem mild_throw {e : Exn} (h : e.Mild) : (throw e : Svc α).Mild env :=
  fun _ _ => mildResult_error h

theorem mild_call (op : Op) : (call op).Mild env := fun _ _ _ _ => mildResult_ok _

theorem mild_ofExcept {r : Except Exn α} (h : InternalResult r) : (ofExcept r).Mild env :=
  fun _ _ => wp_ofExcept fun e he => (h e he).mild

theorem mild_bind {p : Svc α} {f : α → Svc β} (hp : p.Mild env) (hf : ∀ a, (f a).Mild env) :
    (p >>= f).Mild env :=
  fun C m => Svc.wp_seq (hp C m) (fun a m' _ => hf a C m') fun e _ h => mildResult_error (h e rfl)

theorem mild_query (stmt : Statement) : (query stmt).Mild env := by
  intro C m
  rw [Svc.wp_query]
  intro c _
  split
  · exact mildResult_ok _
  · exact mildResult_error trivial

/-- A read through the cache lets no Redis error out. -/
theorem mild_readThrough {key : String} {producer : Svc Json} {ttl : Option Int}
    (h : producer.Mild env) : (readThrough env key producer ttl).Mild env := by
  intro C m
  refine Svc.wp_mono (wp_readThrough (R := fun _ r _ => MildResult r) (h C) m) fun r m' hread => ?_
  cases hread with
  | hit _ _ _ => exact mildResult_ok _
  | raised _ produced => exact mildResult_error (produced _ rfl)
  | fresh _ _ _ => exact mildResult_ok _

theorem mild_invalidatePrefix (keyPrefix : String) : (invalidatePrefix keyPrefix).Mild env := by
  intro C m
  refine Svc.wp_mono (wp_invalidatePrefix env keyPrefix m) ?_
  rintro r m' ⟨⟨n, rfl⟩, -⟩
  exact mildResult_ok n

theorem mild_loadGpu (gpuId : Int) : (loadGpu gpuId).Mild env :=
  mild_bind (mild_query _) fun gpu => match gpu with
    | some _ => mild_pure _
    | none => mild_throw (by decide : 400 ≤ 404 ∧ 404 ≠ 429)

theorem mild_listGpus (q : ListGpusQuery) : (listGpus q).Mild env :=
  mild_bind (mild_query _) fun _ => mild_pure _

theorem mild_gpuBenchmarks (q : BenchmarksQuery) : (gpuBenchmarks env q).Mild env :=
  mild_bind (mild_loadGpu _) fun _ => mild_bind (mild_query _) fun _ => mild_pure _

theorem mild_pricePage (gpuModelId : Int) (limit : Nat) (cursor : Option String) :
    (pricePage env gpuModelId limit cursor).Mild env := by
  have hrest (position) : (do
      let rows ← query (.keysetPage gpuModelId position limit)
      return (rows, nextCursor env.fmt rows limit)).Mild env :=
    mild_bind (mild_query _) fun _ => mild_pure _
  unfold pricePage
  cases truthy cursor with
  | none => exact hrest none
  | some cursor =>
    exact mild_bind (mild_bind (mild_ofExcept (internalResult_decodeCursor _ _))
      fun _ => mild_pure _) hrest

theorem mild_gpuPriceHistory (q : HistoryQuery) : (gpuPriceHistory env q).Mild env :=
  mild_bind (mild_loadGpu _) fun _ => mild_bind (mild_pricePage _ _ _) fun _ => mild_pure _

theorem mild_gpuPrices (q : PricesQuery) : (gpuPrices env q).Mild env := by
  refine mild_bind (mild_loadGpu _) fun gpu => mild_bind (mild_readThrough ?_) fun v => ?_
  · refine mild_bind (mild_bind (mild_call _) fun now => ?_) fun rows => mild_pure _
    exact mild_bind (mild_ofExcept (internalResult_minusDays _ _)) fun _ => mild_query _
  · exact mild_ofExcept (internalResult_priceSummary env _ _)

theorem mild_workloadIndex (q : IndexQuery) : (workloadIndex env q).Mild env := by
  refine mild_bind (mild_readThrough ?_) fun v => mild_ofExcept (internalResult_indexPage env _)
  refine mild_bind (mild_bind (mild_call _) fun now => ?_) fun rows => mild_pure _
  exact mild_bind (mild_ofExcept (internalResult_minusDays _ _)) fun _ => mild_query _

theorem mild_ingestPrices (payload : List PricePointIn) : (ingestPrices payload).Mild env := by
  unfold ingestPrices
  split
  · exact mild_pure _
  · refine mild_bind ?_ fun catalogue => ?_
    · exact mild_bind (mild_query _) fun _ => mild_bind (mild_query _) fun _ => mild_pure _
    · dsimp only
      split
      · exact mild_pure _
      · exact mild_bind (mild_query _) fun _ => mild_bind (mild_query _) fun _ => mild_pure _

theorem mild_ingest (payload : List PricePointIn) : (ingest payload).Mild env := by
  unfold ingest
  split
  · exact mild_throw (by decide : 400 ≤ 413 ∧ 413 ≠ 429)
  · exact mild_bind (mild_ingestPrices payload) fun _ =>
      mild_bind (mild_invalidatePrefix _) fun _ =>
      mild_bind (mild_invalidatePrefix _) fun _ => mild_pure _

/-- The handler let no Redis error out, and did not refuse for the limiter. -/
structure Contained (r : Except Exn Response) : Prop where
  mild : MildResult r
  status : (respond r).status ≠ 429

theorem contained_error {e : Exn} (h : e.Mild) : Contained (.error e) where
  mild := mildResult_error h
  status := by
    cases e with
    | http status detail headers => exact h.2
    | _ => exact (by decide : (500 : Nat) ≠ 429)

theorem contained_ok {r : Response} (h : r.status ≠ 429) : Contained (.ok r) := ⟨mildResult_ok r, h⟩

/-- **Every handler** is contained. -/
theorem wp_handle_contained (env : Env) {C : Choice → Prop} (route : Route) (m : Machine) :
    Svc.wp env C (handle env route) (fun r _ => Contained r) m := by
  have hpure {α : Type} {p : Svc α} {f : α → Response} (hf : ∀ a, (f a).status ≠ 429)
      (hp : p.Mild env) : Svc.wp env C (p >>= fun a => pure (f a)) (fun r _ => Contained r) m :=
    Svc.wp_seq (hp C m) (fun a _ _ => contained_ok (hf a)) fun _ _ h => contained_error (h _ rfl)
  have h200 : (200 : Nat) ≠ 429 := by decide
  have h202 : (202 : Nat) ≠ 429 := by decide
  cases route with
  | listGpus q => exact hpure (fun _ => h200) (mild_listGpus q)
  | gpuPrices q => exact hpure (fun _ => h200) (mild_gpuPrices q)
  | gpuPriceHistory q => exact hpure (fun _ => h200) (mild_gpuPriceHistory q)
  | gpuBenchmarks q => exact hpure (fun _ => h200) (mild_gpuBenchmarks q)
  | workloadIndex q => exact hpure (fun _ => h200) (mild_workloadIndex q)
  | ingest payload => exact hpure (fun _ => h202) (mild_ingest payload)

theorem Exn.Mild.status {e : Exn} (h : e.Mild) : 400 ≤ (respond (.error e)).status := by
  cases e with
  | http status detail headers => exact h.1
  | _ => exact (by decide : 400 ≤ 500)

/-- A request that raises is answered with an error. -/
theorem served_error_status {choices : Nat → Choice} {req : Request} {w : World} {e : Exn}
    (h : (served env choices req w).1 = .error e) : 400 ≤ (respond (.error e)).status := by
  have hserved := served_of_handle env req w choices
    fun m₁ _ _ _ => wp_handle_contained env req.route m₁
  rw [h] at hserved
  generalize (served env choices req w).2 = m' at hserved
  cases hserved with
  | unauthorized _ => exact (by decide : 400 ≤ 401)
  | refused _ _ _ => exact (by decide : 400 ≤ 429)
  | noWindow _ _ => exact (by decide : 400 ≤ 500)
  | admitted _ _ _ handled => exact (handled.mild e rfl).status

end Mild

end GpuIndex
