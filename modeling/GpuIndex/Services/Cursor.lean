/-
  Page cursors.

  A cursor is URL-safe base64 of a JSON object with the ISO text of a date-time under `"o"` and a
  row id under `"i"`.  `decodeCursor` takes any text and raises what each of its stages raises.

  **The round trip** `decodeCursor_encodeCursor`: a cursor gives its date-time and id back, but for
  an offset of less than a second.
-/
import GpuIndex.Fixture
import GpuIndex.Lib.Base64

namespace GpuIndex

open Calendar Base64
open JsonText (FloatFormat FloatVal Value charsOf? lookup loads dumps)

/-- A value, or an exception. -/
def orRaise {α : Type} (e : Exn) : Option α → Except Exn α
  | some a => .ok a
  | none => .error e

/-! ## `int(...)` -/

/-- The code points of the zeros of Unicode's decimal digits. -/
def decimalZeros : List Nat :=
  [0x30, 0x660, 0x6f0, 0x7c0, 0x966, 0x9e6, 0xa66, 0xae6, 0xb66, 0xbe6, 0xc66, 0xce6, 0xd66, 0xde6,
    0xe50, 0xed0, 0xf20, 0x1040, 0x1090, 0x17e0, 0x1810, 0x1946, 0x19d0, 0x1a80, 0x1a90, 0x1b50,
    0x1bb0, 0x1c40, 0x1c50, 0xa620, 0xa8d0, 0xa900, 0xa9d0, 0xa9f0, 0xaa50, 0xabf0, 0xff10, 0x104a0,
    0x10d30, 0x11066, 0x110f0, 0x11136, 0x111d0, 0x112f0, 0x11450, 0x114d0, 0x11650, 0x116c0,
    0x11730, 0x118e0, 0x11950, 0x11c50, 0x11d50, 0x11da0, 0x11f50, 0x16a60, 0x16ac0, 0x16b50,
    0x1d7ce, 0x1d7d8, 0x1d7e2, 0x1d7ec, 0x1d7f6, 0x1e140, 0x1e2f0, 0x1e4f0, 0x1e950, 0x1fbf0]

/-- The value of a decimal digit of any script. -/
def decimal? (c : Char) : Option Nat :=
  (decimalZeros.find? fun z => z ≤ c.toNat ∧ c.toNat < z + 10).map fun z => c.toNat - z

/-- Digits with single underscores between them, most significant first. -/
def digitGroups : List Char → Option (List Nat)
  | [] => none
  | [c] => (decimal? c).map fun d => [d]
  | c :: '_' :: s => do return (← decimal? c) :: (← digitGroups s)
  | c :: s => do return (← decimal? c) :: (← digitGroups s)

/-- The blanks `int` allows around a number: those of `str.strip` without the separators of
    ASCII. -/
def intBlanks : List Char := whitespace.filter fun c => ¬ ('\x1c' ≤ c ∧ c ≤ '\x1f')

/-- A text without the blanks around it. -/
def stripBlanks (s : List Char) : List Char :=
  ((s.dropWhile (· ∈ intBlanks)).reverse.dropWhile (· ∈ intBlanks)).reverse

/-- `int` of a text. -/
def intOfText (s : String) : Option Int := do
  let (neg, digits) := match stripBlanks s.toList with
    | '-' :: t => (true, t)
    | '+' :: t => (false, t)
    | t => (false, t)
  let ds ← digitGroups digits
  if ds.length ≤ JsonText.maxIntDigits then
    let n : Nat := ds.foldl (fun acc d => acc * 10 + d) 0
    return if neg then -(n : Int) else n
  else none

/-- `int` of a double drops the fraction. -/
def truncate (q : ℚ) : Int := if 0 ≤ q then ⌊q⌋ else ⌈q⌉

/-- `int(raw["i"])` -/
def intOf : Json → Except Exn Int
  | .int n => .ok n
  | .bool b => .ok (if b then 1 else 0)
  | .float (.finite q) => .ok (truncate q)
  | .float (.infinity _) => .error .overflowError
  | .float .nan => .error .valueError
  | .str s =>
    match intOfText s with
    | some n => .ok n
    | none => .error .valueError
  | .surrogates _ => .error .valueError
  | _ => .error .typeError

/-! ## Encoding and decoding -/

/-- The text with its surrogate, if it has just one, and where the time could begin, put right. -/
def sanitize (codes : List Nat) : Option (List Char) :=
  match [7, 8, 10].find? fun i => codes[i]?.any fun n => ¬ n.isValidChar with
  | some i => charsOf? (codes.set i 'T'.toNat)
  | none => none

/-- `datetime.fromisoformat(raw["o"])` -/
def datetimeOf : Json → Except Exn Datetime
  | .str s => orRaise .valueError (fromIsoformat s.toList)
  | .surrogates codes => orRaise .valueError ((sanitize codes).bind fromIsoformat)
  | _ => .error .typeError

/-- The JSON object of a cursor. -/
def cursorJson (observedAt : Datetime) (rowId : Int) : Json :=
  .obj [("o", .str (String.ofList (isoformat 'T' observedAt))), ("i", .int rowId)]

/-- `str.encode()` -/
def utf8 (s : String) : List UInt8 := s.toByteArray.data.toList

/-- `bytes.decode()` -/
def ofUtf8 (bytes : List UInt8) : Option String :=
  (ByteArray.mk bytes.toArray).utf8Decode?.map fun text => String.ofList text.toList

/-- `encode_cursor` -/
def encodeCursor (fmt : FloatFormat) (observedAt : Datetime) (rowId : Int) : String :=
  let raw := dumps fmt (fun d => String.ofList (isoformat ' ' d)) (cursorJson observedAt rowId)
  String.ofList (b64encode (utf8 (String.ofList raw)))

/-- `decode_cursor`.  The bytes of a character outside ASCII are outside both alphabets, so the
    decoder passes over them and `cursor.encode()` need not be spelled out. -/
def decodeCursor (fmt : FloatFormat) (cursor : String) : Except Exn (Datetime × Int) := do
  let bytes ← orRaise .binasciiError (b64decode cursor.toList)
  let text ← orRaise .unicodeDecodeError (ofUtf8 bytes)
  let raw ← orRaise .jsonDecodeError (loads fmt text.toList)
  return (← datetimeOf (← subscript "o" raw), ← intOf (← subscript "i" raw))

/-! ## Round trip -/

/-- A row id has few enough digits to be read back. -/
theorem length_toDigits_rowId (rowId : BigInteger) :
    (Nat.toDigits 10 rowId.val.natAbs).length ≤ JsonText.maxIntDigits := by
  have hrange := rowId.range
  have hlt : rowId.val.natAbs < 10 ^ 19 := by omega
  have hlen := (Nat.length_toDigits_le_iff (b := 10) (k := 19) (by decide) (by decide)).mpr hlt
  exact hlen.trans (by decide)

/-- The text of a cursor is read as the object it was printed from. -/
theorem loads_cursorJson (fmt : FloatFormat) (observedAt : Datetime) (rowId : BigInteger) :
    loads fmt (dumps fmt (fun d => String.ofList (isoformat ' ' d))
      (cursorJson observedAt rowId.val))
      = some (cursorJson observedAt rowId.val) := by
  have hprint : (cursorJson observedAt rowId.val).Printable fmt :=
    ⟨trivial, length_toDigits_rowId rowId, trivial⟩
  exact JsonText.loads_dumps (cursorJson observedAt rowId.val) hprint

theorem ofUtf8_utf8 (s : String) : ofUtf8 (utf8 s) = some s := by
  have hdecode : s.toByteArray.utf8Decode? = some s.toList.toArray := by
    rw [← String.utf8Encode_toList]
    exact List.utf8Decode?_utf8Encode
  simp only [ofUtf8, utf8, Array.toArray_toList, hdecode, Option.map_some, String.ofList_toList]

theorem utf8_injective : Function.Injective utf8 := by
  intro a b h
  have ha := ofUtf8_utf8 a
  rw [h, ofUtf8_utf8] at ha
  exact (Option.some.inj ha).symm

/-- No cursor is the empty text, which `price_page` would take for no cursor. -/
theorem encodeCursor_ne_empty (fmt : FloatFormat) (observedAt : Datetime) (rowId : Int) :
    encodeCursor fmt observedAt rowId ≠ "" := by
  intro h
  have hbytes := b64decode_b64encode (utf8 (String.ofList (dumps fmt
    (fun d => String.ofList (isoformat ' ' d)) (cursorJson observedAt rowId))))
  have hempty := congrArg String.toList h
  rw [encodeCursor, String.toList_ofList, String.toList_empty] at hempty
  rw [hempty] at hbytes
  have hraw := congrArg String.toList (utf8_injective (Option.some.inj hbytes : utf8 "" = _))
  obtain ⟨c, t, htext, -⟩ := JsonText.dumps_head fmt (fun d => String.ofList (isoformat ' ' d))
    (cursorJson observedAt rowId)
  simp only [htext, String.toList_ofList] at hraw
  exact List.cons_ne_nil c t hraw.symm

/-- **Round trip**: a cursor gives its row id back, and of its date-time what can be read back. -/
theorem decodeCursor_encodeCursor (fmt : FloatFormat) (observedAt : Datetime) (rowId : BigInteger) :
    decodeCursor fmt (encodeCursor fmt observedAt rowId.val)
      = .ok (observedAt.readBack, rowId.val) := by
  have hload := loads_cursorJson fmt observedAt rowId
  have hiso := fromIsoformat_isoformat 'T' observedAt
  have hdatetime : datetimeOf (.str (String.ofList (isoformat 'T' observedAt)))
      = .ok observedAt.readBack := by
    rw [datetimeOf, String.toList_ofList, hiso, orRaise]
  have ho : subscript "o" (cursorJson observedAt rowId.val)
      = .ok (.str (String.ofList (isoformat 'T' observedAt))) := rfl
  have hi : subscript "i" (cursorJson observedAt rowId.val) = .ok (.int rowId.val) := rfl
  have hint : intOf (.int rowId.val) = .ok rowId.val := rfl
  simp only [decodeCursor, encodeCursor, String.toList_ofList, b64decode_b64encode, orRaise,
    ok_bind, ofUtf8_utf8, hload, ho, hdatetime, hi, hint]
  rfl

/-- Different positions have different cursors. -/
theorem encodeCursor_injective (fmt : FloatFormat) :
    Function.Injective fun c : Datetime × BigInteger => encodeCursor fmt c.1 c.2.val := by
  rintro ⟨t, i⟩ ⟨t', i'⟩ h
  have hbytes := congrArg (fun s : String => b64decode s.toList) h
  simp only [encodeCursor, String.toList_ofList, b64decode_b64encode, Option.some.injEq] at hbytes
  have hload := loads_cursorJson fmt t i
  rw [String.ofList_injective (utf8_injective hbytes), loads_cursorJson] at hload
  -- the same object has the same members
  simp only [cursorJson, Option.some.injEq, Value.obj.injEq, List.cons.injEq,
    Prod.mk.injEq, true_and, and_true, Value.str.injEq, Value.int.injEq] at hload
  have hiso : isoformat 'T' t' = isoformat 'T' t := String.ofList_injective hload.1
  rw [isoformat_injective 'T' hiso, BigInteger.val_injective hload.2]

/-- **Cursors**: every date-time and row id is decoded from its cursor, the date-time with its
    fields, and with its offset exactly if that is zero or at least a second; a smaller one is
    decoded as UTC.  Different positions have different cursors all the same. -/
theorem cursor_round_trip (fmt : FloatFormat) :
    (∀ (observedAt : Datetime) (rowId : BigInteger), ∃ back : Datetime,
        decodeCursor fmt (encodeCursor fmt observedAt rowId.val) = .ok (back, rowId.val)
          ∧ back.civil = observedAt.civil
          ∧ (back = observedAt ↔ ∀ o ∈ observedAt.offset, o.us = 0 ∨ 1000000 ≤ o.us.natAbs)
          ∧ ∀ o ∈ observedAt.offset, o.us.natAbs < 1000000 → back.offset = some .zero)
      ∧ Function.Injective fun c : Datetime × BigInteger => encodeCursor fmt c.1 c.2.val := by
  refine ⟨fun observedAt rowId => ?_, encodeCursor_injective fmt⟩
  refine ⟨observedAt.readBack, decodeCursor_encodeCursor fmt observedAt rowId, rfl,
    readBack_eq_self, fun o ho hsmall => ?_⟩
  rw [Datetime.readBack, Option.mem_def.mp ho, Option.map_some, Offset.readBack, if_pos hsmall]

/-- The new year, half a second ahead of UTC. -/
def halfSecondAhead : Datetime := ⟨civilOf newYear, some ⟨500000, by decide⟩⟩

/-- The cursor of a position half a second ahead of UTC is decoded to UTC. -/
theorem cursor_loses_halfSecond :
    decodeCursor env.fmt (encodeCursor env.fmt halfSecondAhead 7) = .ok (utc newYear, 7)
      ∧ utc newYear ≠ halfSecondAhead := by
  refine ⟨decodeCursor_encodeCursor env.fmt halfSecondAhead ⟨7, by decide⟩, fun h => ?_⟩
  cases (Datetime.mk.inj h).2

end GpuIndex
