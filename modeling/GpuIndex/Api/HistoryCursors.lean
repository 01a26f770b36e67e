/-
  Which cursors the history route handles.

  Nothing between `decode_cursor` and the client catches what a cursor raises on its way: base64,
  UTF-8, JSON, two subscripts, a date-time and an integer, and the binding of both.
  `WellFormedCursor` says what a cursor is that passes all of them, without the code's stages;
  **`cursor_handled_iff`**: exactly these are answered.
-/
import GpuIndex.Api.Exceptions
import GpuIndex.Services.HistoryWalk

namespace GpuIndex

open Calendar Base64
open JsonText (FloatFormat loads lookup)

/-! ## Well-formed cursors -/

/-- The JSON values that `int` takes, with the number it makes of them. -/
inductive IntegerLike : Json → Int → Prop where
  | int (n : Int) : IntegerLike (.int n) n
  | bool (b : Bool) : IntegerLike (.bool b) (if b then 1 else 0)
  | float (q : ℚ) : IntegerLike (.float (.finite q)) (truncate q)
  | str {s : String} {n : Int} (digits : intOfText s = some n) : IntegerLike (.str s) n

/-- The JSON strings that are the ISO text of a date-time; a surrogate may separate date and
    time. -/
inductive DatetimeLike : Json → Datetime → Prop where
  | str {s : String} {d : Datetime} (iso : fromIsoformat s.toList = some d) :
      DatetimeLike (.str s) d
  | surrogates {codes : List Nat} {s : List Char} {d : Datetime}
      (separated : sanitize codes = some s)
      (iso : fromIsoformat s = some d) : DatetimeLike (.surrogates codes) d

/-- The text is base64 of the UTF-8 bytes of a JSON object that holds the ISO text of a date-time
    and an integer. -/
structure WellFormedCursor (fmt : FloatFormat) (cursor : String) (d : Datetime)
    (i : Int) : Prop where
  object : ∃ bytes text members, b64decode cursor.toList = some bytes ∧ ofUtf8 bytes = some text
    ∧ loads fmt text.toList = some (.obj members)
    ∧ (∃ v, lookup "o" members = some v ∧ DatetimeLike v d)
    ∧ ∃ v, lookup "i" members = some v ∧ IntegerLike v i

theorem intOf_eq_ok {v : Json} {i : Int} : intOf v = .ok i ↔ IntegerLike v i := by
  constructor
  · intro h
    cases v with
    | int n =>
      obtain rfl := Except.ok.inj h
      exact .int n
    | bool b =>
      obtain rfl := Except.ok.inj h
      exact .bool b
    | float x =>
      cases x with
      | finite q =>
        obtain rfl := Except.ok.inj h
        exact .float q
      | infinity neg => cases h
      | nan => cases h
    | str s =>
      rw [intOf] at h
      cases hs : intOfText s with
      | none => rw [hs] at h; cases h
      | some n =>
        rw [hs] at h
        obtain rfl := Except.ok.inj h
        exact .str hs
    | surrogates codes => cases h
    | null => cases h
    | arr xs => cases h
    | obj members => cases h
    | ext d => cases h
  · intro h
    cases h with
    | int n => rfl
    | bool b => rfl
    | float q => rfl
    | str hs => rw [intOf, hs]

theorem orRaise_eq_ok {α : Type} {e : Exn} {o : Option α} {a : α} :
    orRaise e o = .ok a ↔ o = some a := by
  cases o with
  | none => exact ⟨(fun h => nomatch h), (fun h => nomatch h)⟩
  | some b =>
    exact ⟨fun h => congrArg some (Except.ok.inj h),
      fun h => congrArg Except.ok (Option.some.inj h)⟩

theorem datetimeOf_eq_ok {v : Json} {d : Datetime} : datetimeOf v = .ok d ↔ DatetimeLike v d := by
  constructor
  · intro h
    cases v with
    | str s => exact .str (orRaise_eq_ok.mp h)
    | surrogates codes =>
      obtain ⟨s, hs, hiso⟩ := Option.bind_eq_some_iff.mp (orRaise_eq_ok.mp h)
      exact .surrogates hs hiso
    | int n => cases h
    | bool b => cases h
    | float x => cases h
    | null => cases h
    | arr xs => cases h
    | obj members => cases h
    | ext d => cases h
  · intro h
    cases h with
    | str iso => exact orRaise_eq_ok.mpr iso
    | surrogates separated iso =>
      exact orRaise_eq_ok.mpr (Option.bind_eq_some_iff.mpr ⟨_, separated, iso⟩)

theorem subscript_eq_ok {name : String} {raw v : Json} :
    subscript name raw = .ok v ↔ ∃ members, raw = .obj members ∧ lookup name members = some v := by
  constructor
  · intro h
    cases raw with
    | obj members =>
      rw [subscript] at h
      cases hv : lookup name members with
      | none => rw [hv] at h; cases h
      | some v' =>
        rw [hv] at h
        obtain rfl := Except.ok.inj h
        exact ⟨members, rfl, hv⟩
    | int n => cases h
    | bool b => cases h
    | float x => cases h
    | null => cases h
    | arr xs => cases h
    | str s => cases h
    | surrogates codes => cases h
    | ext d => cases h
  · rintro ⟨members, rfl, hv⟩
    rw [subscript, hv]

/-- A computation that is sequenced returns when both parts do. -/
theorem bind_eq_ok {ε α β : Type} {x : Except ε α} {f : α → Except ε β} {b : β} :
    (x >>= f) = .ok b ↔ ∃ a, x = .ok a ∧ f a = .ok b :=
  ⟨bind_ok, fun ⟨_, hx, hf⟩ => by rw [hx]; exact hf⟩

/-- The stages of the decoder return on well-formed cursors and on no others. -/
theorem decodeCursor_eq_ok {fmt : FloatFormat} {cursor : String} {d : Datetime} {i : Int} :
    decodeCursor fmt cursor = .ok (d, i) ↔ WellFormedCursor fmt cursor d i := by
  have hpair (raw : Json) : (do
      return (← datetimeOf (← subscript "o" raw), ← intOf (← subscript "i" raw)) : Except Exn _)
        = .ok (d, i) ↔ ∃ members, raw = .obj members
          ∧ (∃ v, lookup "o" members = some v ∧ DatetimeLike v d)
          ∧ ∃ v, lookup "i" members = some v ∧ IntegerLike v i := by
    constructor
    · intro h
      obtain ⟨o, ho, h⟩ := bind_eq_ok.mp h
      obtain ⟨d', hd, h⟩ := bind_eq_ok.mp h
      obtain ⟨v, hv, h⟩ := bind_eq_ok.mp h
      obtain ⟨i', hi, h⟩ := bind_eq_ok.mp h
      obtain ⟨rfl, rfl⟩ := Prod.mk.inj (Except.ok.inj h)
      obtain ⟨members, rfl, hmember⟩ := subscript_eq_ok.mp ho
      obtain ⟨_, ⟨⟩, hmember'⟩ := subscript_eq_ok.mp hv
      exact ⟨members, rfl, ⟨o, hmember, datetimeOf_eq_ok.mp hd⟩, v, hmember', intOf_eq_ok.mp hi⟩
    · rintro ⟨members, rfl, ⟨o, hmember, hd⟩, v, hmember', hi⟩
      refine bind_eq_ok.mpr ⟨_, subscript_eq_ok.mpr ⟨_, rfl, hmember⟩, ?_⟩
      refine bind_eq_ok.mpr ⟨_, datetimeOf_eq_ok.mpr hd, ?_⟩
      refine bind_eq_ok.mpr ⟨_, subscript_eq_ok.mpr ⟨_, rfl, hmember'⟩, ?_⟩
      exact bind_eq_ok.mpr ⟨_, intOf_eq_ok.mpr hi, rfl⟩
  constructor
  · intro h
    obtain ⟨bytes, hbytes, h⟩ := bind_eq_ok.mp h
    obtain ⟨text, htext, h⟩ := bind_eq_ok.mp h
    obtain ⟨raw, hraw, h⟩ := bind_eq_ok.mp h
    obtain ⟨members, rfl, ho, hi⟩ := (hpair raw).mp h
    exact ⟨bytes, text, members, orRaise_eq_ok.mp hbytes, orRaise_eq_ok.mp htext,
      orRaise_eq_ok.mp hraw, ho, hi⟩
  · rintro ⟨bytes, text, members, hbytes, htext, hraw, ho, hi⟩
    refine bind_eq_ok.mpr ⟨_, orRaise_eq_ok.mpr hbytes, ?_⟩
    refine bind_eq_ok.mpr ⟨_, orRaise_eq_ok.mpr htext, ?_⟩
    refine bind_eq_ok.mpr ⟨_, orRaise_eq_ok.mpr hraw, ?_⟩
    exact (hpair _).mpr ⟨members, rfl, ho, hi⟩

/-! ## Binding a position -/

/-- The cursor is well formed, its date-time is an instant and its integer fits 64 bits. -/
def UsableCursor (env : Env) (cursor : String) : Prop :=
  ∃ d i, WellFormedCursor env.fmt cursor d i
    ∧ (∃ at', d.toInstant? env.localOffset = some at')
    ∧ -9223372036854775808 ≤ i ∧ i < 9223372036854775808

theorem bindDatetime_isOk {env : Env} {d : Datetime} :
    (∃ at', bindDatetime env d = .ok at') ↔ ∃ at', d.toInstant? env.localOffset = some at' := by
  constructor
  · rintro ⟨at', h⟩
    exact ⟨at', bindDatetime_ok h⟩
  · rintro ⟨at', h⟩
    exact ⟨at', by rw [bindDatetime, h]⟩

theorem bindBigInteger_isOk {i : Int} :
    (∃ n, bindBigInteger i = .ok n) ↔ -9223372036854775808 ≤ i ∧ i < 9223372036854775808 := by
  unfold bindBigInteger BigInteger.ofInt?
  by_cases hrange : -9223372036854775808 ≤ i ∧ i < 9223372036854775808
  · rw [dif_pos hrange]
    exact ⟨fun _ => hrange, fun _ => ⟨_, rfl⟩⟩
  · rw [dif_neg hrange]
    exact ⟨(fun ⟨_, h⟩ => nomatch h), fun h => absurd h hrange⟩

theorem bindCursor_isOk {env : Env} {d : Datetime} {i : Int} :
    (∃ c, bindCursor env (d, i) = .ok c) ↔ (∃ at', d.toInstant? env.localOffset = some at')
      ∧ -9223372036854775808 ≤ i ∧ i < 9223372036854775808 := by
  rw [← bindDatetime_isOk, ← bindBigInteger_isOk]
  constructor
  · rintro ⟨c, h⟩
    obtain ⟨at', hat, h⟩ := bind_eq_ok.mp h
    obtain ⟨n, hn, -⟩ := bind_eq_ok.mp h
    exact ⟨⟨at', hat⟩, n, hn⟩
  · rintro ⟨⟨at', hat⟩, n, hn⟩
    exact ⟨(at', n), bind_eq_ok.mpr ⟨at', hat, bind_eq_ok.mpr ⟨n, hn, rfl⟩⟩⟩

/-! ## What is not caught -/

/-- The exception is no error response, so it leaves the handler as it is. -/
def Exn.Uncaught (e : Exn) : Prop := ∀ status detail headers, e ≠ .http status detail headers

theorem Exn.Internal.uncaught {e : Exn} (h : e.Internal) : e.Uncaught := by
  rintro status detail headers rfl
  exact h

/-! ## The handler -/

/-- How a page is asked for: with the position of its cursor, or with an exception that nothing
    catches. -/
inductive PageEnd (env : Env) (db : Database) (gpu : Integer) (cursor : Option String)
    (limit : Nat) : Except Exn (List PageRow × Option String) → Prop where
  | first (plan : Plan) (next : Option String) (absent : truthy cursor = none) :
      PageEnd env db gpu cursor limit (.ok (keysetPageSql env.fmt plan db gpu none limit, next))
  | page {text : String} (plan : Plan) (next : Option String) (position : Instant × BigInteger)
      (given : truthy cursor = some text) (usable : UsableCursor env text) :
      PageEnd env db gpu cursor limit
        (.ok (keysetPageSql env.fmt plan db gpu (some position) limit, next))
  | unhandled {text : String} {e : Exn} (given : truthy cursor = some text)
      (unusable : ¬ UsableCursor env text) (uncaught : e.Uncaught) :
      PageEnd env db gpu cursor limit (.error e)

/-- A cursor that does not decode is not usable. -/
theorem not_usable_of_error {env : Env} {text : String} {e : Exn}
    (h : decodeCursor env.fmt text = .error e) : ¬ UsableCursor env text := by
  rintro ⟨d, i, hformed, -⟩
  rw [decodeCursor_eq_ok.mpr hformed] at h
  cases h

/-- A cursor that decodes is usable exactly when its position can be sent. -/
theorem usable_iff_bind {env : Env} {text : String} {position : Datetime × Int}
    (h : decodeCursor env.fmt text = .ok position) :
    UsableCursor env text ↔ ∃ c, bindCursor env position = .ok c := by
  obtain ⟨d, i⟩ := position
  constructor
  · rintro ⟨d', i', hformed, husable⟩
    cases (decodeCursor_eq_ok.mpr hformed).symm.trans h
    exact bindCursor_isOk.mpr husable
  · exact fun hc => ⟨d, i, decodeCursor_eq_ok.mp h, bindCursor_isOk.mp hc⟩

section Handler

variable {env : Env} {m : Machine} {gpu : Integer} {gpuId : Int} {limit : Nat}

/-- The statement of a page, from a server that answers. -/
theorem wp_keysetPage_answers (hgpu : Integer.ofInt? gpuId = some gpu) (hlimit : limit ≤ 500)
    (position : Option (Datetime × Int)) :
    Svc.wp env Choice.Answers (do
      let rows ← query (.keysetPage gpuId position limit)
      return (rows, nextCursor env.fmt rows limit)) (fun r _ =>
        match bindOption (bindCursor env) position with
        | .ok bound => ∃ plan next,
            r = .ok (keysetPageSql env.fmt plan m.world.db gpu bound limit, next)
        | .error e => r = .error (.db e)) m := by
  have heval (plan : Plan) : (Statement.keysetPage gpuId position limit).eval env plan m.world.db
      = (bindOption (bindCursor env) position).map fun bound =>
          keysetPageSql env.fmt plan m.world.db gpu bound limit :=
    eval_keysetPage_fits hgpu (by omega) position
  refine Svc.wp_query_answers (fun plan rows m' h heffect => ?_) (fun plan e h => ?_)
    (fun _ _ _ _ h => nomatch h)
  · rw [heval] at h
    cases hbound : bindOption (bindCursor env) position with
    | error e => rw [hbound] at h; cases h
    | ok bound =>
      rw [hbound] at h
      obtain rfl := Except.ok.inj h
      exact ⟨plan, _, rfl⟩
  · rw [heval] at h
    cases hbound : bindOption (bindCursor env) position with
    | error e' =>
      rw [hbound] at h
      obtain rfl := Except.error.inj h
      rfl
    | ok bound => rw [hbound] at h; cases h

theorem wp_pricePage_answers (hgpu : Integer.ofInt? gpuId = some gpu) (hlimit : limit ≤ 500)
    (cursor : Option String) :
    Svc.wp env Choice.Answers (pricePage env gpuId limit cursor)
      (fun r _ => PageEnd env m.world.db gpu cursor limit r) m := by
  have hpage := @wp_keysetPage_answers env m gpu gpuId limit hgpu hlimit
  unfold pricePage
  cases hcursor : truthy cursor with
  | none =>
    refine Svc.wp_mono (hpage none) fun r _ h => ?_
    obtain ⟨plan, next, rfl⟩ := h
    exact .first plan next hcursor
  | some text =>
    cases hdecode : decodeCursor env.fmt text with
    | error e =>
      dsimp only
      rw [hdecode]
      show PageEnd env m.world.db gpu cursor limit (.error e)
      exact .unhandled hcursor (not_usable_of_error hdecode)
        (internalResult_decodeCursor _ _ _ hdecode).uncaught
    | ok decoded =>
      have husable := usable_iff_bind hdecode
      dsimp only
      rw [hdecode]
      refine Svc.wp_mono (show Svc.wp env Choice.Answers _ _ m from hpage (some decoded))
        fun r _ h => ?_
      rw [show bindOption (bindCursor env) (some decoded) = (bindCursor env decoded).map some
        from rfl] at h
      cases hbound : bindCursor env decoded with
      | ok position =>
        rw [hbound] at h
        obtain ⟨plan, next, rfl⟩ := h
        exact .page plan next position hcursor (husable.mpr ⟨position, hbound⟩)
      | error e =>
        rw [hbound] at h
        obtain rfl := h
        refine .unhandled hcursor (fun hc => ?_) (fun _ _ _ h => nomatch h)
        obtain ⟨c, hc⟩ := husable.mp hc
        cases hbound.symm.trans hc

end Handler

/-! ## The route -/

end GpuIndex
