/-
  JSON values, printed and read.

  A `Value ε` is a JSON value whose leaves may also be of a type `ε` that JSON does not know; the
  printer turns such a leaf into a string through a caller-supplied function, so the reader gives
  the string back.  `Value.flatten` says exactly what survives: everything, with each foreign leaf
  replaced by its string.

  **The round trip** `loads_dumps`: reading a printed value gives its flattening, for every value
  whose doubles are doubles of the format and whose integers are short enough to be read
  (`Value.Printable`).  The proof follows the value: a fact about each shape of text for the leaf
  cases, and one mutual induction for arrays and objects, over any text that may follow.
-/
import GpuIndex.Lib.JsonNumber
import GpuIndex.Lib.JsonString

namespace JsonText

/-- A JSON value with foreign leaves in `ε`.  An object keeps its members in order; a repeated
    name is resolved at lookup. -/
inductive Value (ε : Type) where
  | null
  | bool (b : Bool)
  | int (n : Int)
  | float (x : FloatVal)
  | str (s : String)
  /-- A string with unpaired surrogates, by its code points. -/
  | surrogates (codes : List Nat)
  | arr (xs : List (Value ε))
  | obj (members : List (String × Value ε))
  | ext (x : ε)

/-- The member of a name, the last one where it repeats. -/
def lookup {ε : Type} (name : String) : List (String × Value ε) → Option (Value ε)
  | [] => none
  | (n, v) :: members =>
    match lookup name members with
    | some v' => some v'
    | none => if n = name then some v else none

/-! ## Printing -/

section Printing

variable {ε : Type} (fmt : FloatFormat) (default : ε → String)

/-- The text of a double. -/
def floatText : FloatVal → List Char
  | .finite q => (fmt.repr q).text
  | .infinity false => "Infinity".toList
  | .infinity true => "-Infinity".toList
  | .nan => "NaN".toList

mutual

/-- The text of a value. -/
def dumps : Value ε → List Char
  | .null => "null".toList
  | .bool true => "true".toList
  | .bool false => "false".toList
  | .int n => intText n
  | .float x => floatText fmt x
  | .str s => stringText s.toList
  | .surrogates codes => '"' :: (codes.flatMap escapeCode ++ ['"'])
  | .arr [] => "[]".toList
  | .arr (v :: vs) => '[' :: (dumps v ++ dumpsElems vs)
  | .obj [] => "{}".toList
  | .obj ((n, v) :: ms) =>
      '{' :: (stringText n.toList ++ ':' :: ' ' :: (dumps v ++ dumpsMembers ms))
  | .ext x => stringText (default x).toList

/-- The text after the first element of an array, closing bracket included. -/
def dumpsElems : List (Value ε) → List Char
  | [] => [']']
  | v :: vs => ',' :: ' ' :: (dumps v ++ dumpsElems vs)

/-- The text after the first member of an object, closing brace included. -/
def dumpsMembers : List (String × Value ε) → List Char
  | [] => ['}']
  | (n, v) :: ms =>
    ',' :: ' ' :: (stringText n.toList ++ ':' :: ' ' :: (dumps v ++ dumpsMembers ms))

end

mutual

/-- The value with each foreign leaf replaced by its string. -/
def Value.flatten : Value ε → Value ε
  | .null => .null
  | .bool b => .bool b
  | .int n => .int n
  | .float x => .float x
  | .str s => .str s
  | .surrogates codes => .surrogates codes
  | .arr vs => .arr (flattenElems vs)
  | .obj ms => .obj (flattenMembers ms)
  | .ext x => .str (default x)

def Value.flattenElems : List (Value ε) → List (Value ε)
  | [] => []
  | v :: vs => v.flatten :: flattenElems vs

def Value.flattenMembers : List (String × Value ε) → List (String × Value ε)
  | [] => []
  | (n, v) :: ms => (n, v.flatten) :: flattenMembers ms

end

theorem Value.flattenElems_eq_map (vs : List (Value ε)) :
    Value.flattenElems default vs = vs.map (Value.flatten default) := by
  induction vs with
  | nil => rfl
  | cons v vs ih => rw [flattenElems, ih, List.map_cons]

/-- The doubles of the format, infinities and not-a-number included. -/
def FloatVal.OfFormat : FloatVal → Prop
  | .finite q => fmt.round q = .finite q
  | .infinity _ => True
  | .nan => True

mutual

/-- Values the reader can take back: doubles of the format, integers of at most `maxIntDigits`
    digits, strings of characters. -/
def Value.Printable : Value ε → Prop
  | .null => True
  | .bool _ => True
  | .int n => (Nat.toDigits 10 n.natAbs).length ≤ maxIntDigits
  | .float x => x.OfFormat fmt
  | .str _ => True
  | .surrogates _ => False
  | .arr vs => PrintableElems vs
  | .obj ms => PrintableMembers ms
  | .ext _ => True

def Value.PrintableElems : List (Value ε) → Prop
  | [] => True
  | v :: vs => v.Printable ∧ PrintableElems vs

def Value.PrintableMembers : List (String × Value ε) → Prop
  | [] => True
  | (_, v) :: ms => v.Printable ∧ PrintableMembers ms

end

theorem Value.printableElems_iff (vs : List (Value ε)) :
    Value.PrintableElems fmt vs ↔ ∀ v ∈ vs, Value.Printable fmt v := by
  induction vs with
  | nil => exact iff_of_true trivial fun _ h => absurd h List.not_mem_nil
  | cons v vs ih => rw [PrintableElems, ih, List.forall_mem_cons]

end Printing

/-! ## Reading -/

section Reading

variable {ε : Type} (fmt : FloatFormat)

/-- Drop the whitespace of the grammar. -/
def skipWs : List Char → List Char
  | c :: s => if c = ' ' ∨ c = '\n' ∨ c = '\r' ∨ c = '\t' then skipWs s else c :: s
  | [] => []

/-- Read a string and its opening quote. -/
def readString : List Char → Option (List Nat × List Char)
  | '"' :: s => scanString (s.length + 1) s
  | _ => none

/-- A string as a value. -/
def strValue (codes : List Nat) : Value ε :=
  match charsOf? codes with
  | some s => .str (String.ofList s)
  | none => .surrogates codes

/-- A string as the name of a member.  Names with unpaired surrogates are not told apart. -/
def memberName (codes : List Nat) : String :=
  String.ofList ((charsOf? codes).getD ['\uFFFD'])

/-- Read one of the words of the grammar. -/
def readWord (s : List Char) : Option (Value ε × List Char) :=
  if "null".toList.isPrefixOf s then some (.null, s.drop 4)
  else if "true".toList.isPrefixOf s then some (.bool true, s.drop 4)
  else if "false".toList.isPrefixOf s then some (.bool false, s.drop 5)
  else if "NaN".toList.isPrefixOf s then some (.float .nan, s.drop 3)
  else if "Infinity".toList.isPrefixOf s then some (.float (.infinity false), s.drop 8)
  else if "-Infinity".toList.isPrefixOf s then some (.float (.infinity true), s.drop 9)
  else none

/-- A number as a value. -/
def Number.toValue : Number → Value ε
  | .int n => .int n
  | .float x => .float x

mutual

/-- Read a value.  Each bracket uses up a character and each element costs one turn more, so twice
    the length of the text is enough fuel. -/
def readValue : Nat → List Char → Option (Value ε × List Char)
  | 0, _ => none
  | fuel + 1, s =>
    match readNumber fmt s with
    | some (n, s') => some (n.toValue, s')
    | none =>
      match s with
      | '"' :: _ => (readString s).map fun r => (strValue r.1, r.2)
      | '[' :: s' =>
        match skipWs s' with
        | ']' :: s'' => some (.arr [], s'')
        | s'' => (readElems fuel s'').map fun r => (.arr r.1, r.2)
      | '{' :: s' =>
        match skipWs s' with
        | '}' :: s'' => some (.obj [], s'')
        | s'' => (readMembers fuel s'').map fun r => (.obj r.1, r.2)
      | _ => readWord s

/-- Read elements up to the closing bracket. -/
def readElems : Nat → List Char → Option (List (Value ε) × List Char)
  | 0, _ => none
  | fuel + 1, s =>
    match readValue fuel s with
    | none => none
    | some (v, s') =>
      match skipWs s' with
      | ']' :: s'' => some ([v], s'')
      | ',' :: s'' => (readElems fuel (skipWs s'')).map fun r => (v :: r.1, r.2)
      | _ => none

/-- Read members up to the closing brace. -/
def readMembers : Nat → List Char → Option (List (String × Value ε) × List Char)
  | 0, _ => none
  | fuel + 1, s =>
    match readString s with
    | none => none
    | some (codes, s') =>
      let n := memberName codes
      match skipWs s' with
      | ':' :: s'' =>
        match readValue fuel (skipWs s'') with
        | none => none
        | some (v, t) =>
          match skipWs t with
          | '}' :: t' => some ([(n, v)], t')
          | ',' :: t' => (readMembers fuel (skipWs t')).map fun r => ((n, v) :: r.1, r.2)
          | _ => none
      | _ => none

end

/-- Read a whole text: one value with whitespace around it and no byte-order mark in front. -/
def loads (s : List Char) : Option (Value ε) :=
  if s.head? = some '\uFEFF' then none
  else match readValue fmt (2 * s.length + 1) (skipWs s) with
    | some (v, rest) => if skipWs rest = [] then some v else none
    | none => none

end Reading

/-! ## What a printed value starts with, and what may follow it -/

section RoundTrip

variable {ε : Type} (fmt : FloatFormat) (default : ε → String)

/-- The first character of a value: no whitespace, closing bracket or byte-order mark. -/
def StartsValue (c : Char) : Prop :=
  c ∉ [' ', '\n', '\r', '\t', ']', '}', '\uFEFF']

instance (c : Char) : Decidable (StartsValue c) :=
  inferInstanceAs (Decidable (c ∉ [' ', '\n', '\r', '\t', ']', '}', '\uFEFF']))

theorem startsValue_of_isDigit {c : Char} (h : c.isDigit = true) : StartsValue c := by
  intro hc
  simp only [List.mem_cons, List.not_mem_nil, or_false] at hc
  rcases hc with rfl | rfl | rfl | rfl | rfl | rfl | rfl <;> exact absurd h (by decide)

theorem intText_head (n : Int) : ∃ c t, intText n = c :: t ∧ StartsValue c := by
  cases hd : Nat.toDigits 10 n.natAbs with
  | nil => exact absurd hd Nat.toDigits_ne_nil
  | cons c t =>
    have hc : c.isDigit = true := Nat.isDigit_of_mem_toDigits (b := 10) (n := n.natAbs) (by decide)
      (by decide) (by rw [hd]; exact List.mem_cons_self)
    unfold intText
    split
    · exact ⟨'-', _, rfl, by decide⟩
    · exact ⟨c, t, by simp [hd], startsValue_of_isDigit hc⟩

theorem tokenText_head (t : FloatToken) : ∃ c u, t.text = c :: u ∧ StartsValue c := by
  cases hd : Nat.toDigits 10 t.whole with
  | nil => exact absurd hd Nat.toDigits_ne_nil
  | cons c u =>
    have hc : c.isDigit = true := Nat.isDigit_of_mem_toDigits (b := 10) (n := t.whole) (by decide)
      (by decide) (by rw [hd]; exact List.mem_cons_self)
    unfold FloatToken.text
    split
    · exact ⟨'-', _, rfl, by decide⟩
    · exact ⟨c, u ++ (fracText t.frac ++ expText t.exp), by simp [hd], startsValue_of_isDigit hc⟩

/-- No printed value starts with whitespace or a closing bracket. -/
theorem dumps_head (v : Value ε) : ∃ c t, dumps fmt default v = c :: t ∧ StartsValue c := by
  cases v with
  | null => exact ⟨'n', _, rfl, by decide⟩
  | bool b => cases b <;> exact ⟨_, _, rfl, by decide⟩
  | int n => exact intText_head n
  | float x =>
    cases x with
    | finite q => exact tokenText_head _
    | infinity neg => cases neg <;> exact ⟨_, _, rfl, by decide⟩
    | nan => exact ⟨_, _, rfl, by decide⟩
  | str s => exact ⟨'"', _, rfl, by decide⟩
  | surrogates codes => exact ⟨'"', _, rfl, by decide⟩
  | arr vs => cases vs <;> exact ⟨'[', _, rfl, by decide⟩
  | obj ms => cases ms <;> exact ⟨'{', _, rfl, by decide⟩
  | ext x => exact ⟨'"', _, rfl, by decide⟩

theorem skipWs_startsValue {c : Char} (h : StartsValue c) (t : List Char) :
    skipWs (c :: t) = c :: t := by
  simp only [StartsValue, List.mem_cons, List.not_mem_nil, or_false, not_or] at h
  simp [skipWs, h.1, h.2.1, h.2.2.1, h.2.2.2.1]

theorem skipWs_dumps (v : Value ε) (rest : List Char) :
    skipWs (dumps fmt default v ++ rest) = dumps fmt default v ++ rest := by
  obtain ⟨c, t, htext, hc⟩ := dumps_head fmt default v
  rw [htext, List.cons_append, skipWs_startsValue hc]

theorem skipWs_stringText (s rest : List Char) :
    skipWs (stringText s ++ rest) = stringText s ++ rest := rfl

theorem readString_stringText (s : String) (rest : List Char) :
    readString (stringText s.toList ++ rest) = some (s.toList.map Char.toNat, rest) := by
  have hscan := scanString_flatMap s.toList rest
    ((s.toList.flatMap escapeChar ++ '"' :: rest).length + 1)
    (by rw [List.length_append]; omega)
  simp only [stringText, List.cons_append, List.append_assoc, List.nil_append, readString, hscan]

/-- The code points of a string are that string. -/
theorem strValue_map_toNat (s : String) :
    strValue (ε := ε) (s.toList.map Char.toNat) = .str s := by
  rw [strValue, charsOf?_map_toNat]
  exact congrArg Value.str String.ofList_toList

theorem memberName_map_toNat (s : String) : memberName (s.toList.map Char.toNat) = s := by
  rw [memberName, charsOf?_map_toNat, Option.getD_some, String.ofList_toList]

/-- Quotes, brackets and braces never start a number. -/
theorem readNumber_bracket (s : List Char) :
    readNumber fmt ('"' :: s) = none ∧ readNumber fmt ('[' :: s) = none
      ∧ readNumber fmt ('{' :: s) = none :=
  ⟨readNumber_eq_none fmt (by decide) (by decide), readNumber_eq_none fmt (by decide) (by decide),
    readNumber_eq_none fmt (by decide) (by decide)⟩

/-! ## Round trip -/

/-- The text after an element or member never continues a number. -/
theorem endsNumber_elems (vs : List (Value ε)) (rest : List Char) :
    EndsNumber (dumpsElems fmt default vs ++ rest) := by
  cases vs with
  | nil => simp only [dumpsElems, List.cons_append, EndsNumber]; decide
  | cons v vs => simp only [dumpsElems, List.cons_append, EndsNumber]; decide

theorem endsNumber_members (ms : List (String × Value ε)) (rest : List Char) :
    EndsNumber (dumpsMembers fmt default ms ++ rest) := by
  cases ms with
  | nil => simp only [dumpsMembers, List.cons_append, EndsNumber]; decide
  | cons m ms =>
    obtain ⟨n, v⟩ := m
    simp only [dumpsMembers, List.cons_append, EndsNumber]
    decide

/-- Words are read back. -/
theorem readValue_word {w : List Char} {v : Value ε} (rest : List Char) (fuel : Nat)
    (hnum : readNumber fmt (w ++ rest) = none) (hq : ∀ t, w ++ rest ≠ '"' :: t)
    (hb : ∀ t, w ++ rest ≠ '[' :: t) (hc : ∀ t, w ++ rest ≠ '{' :: t)
    (hword : readWord (w ++ rest) = some (v, rest)) :
    readValue fmt (fuel + 1) (w ++ rest) = some (v, rest) := by
  unfold readValue
  rw [hnum]
  dsimp only
  split
  · rename_i h; exact absurd h (hq _)
  · rename_i h; exact absurd h (hb _)
  · rename_i h; exact absurd h (hc _)
  · exact hword

theorem readValue_null (rest : List Char) (fuel : Nat) :
    readValue (ε := ε) fmt (fuel + 1) ("null".toList ++ rest) = some (.null, rest) :=
  readValue_word fmt rest fuel (readNumber_eq_none fmt (by decide) (by decide)) (by simp) (by simp)
    (by simp) rfl

theorem readValue_true (rest : List Char) (fuel : Nat) :
    readValue (ε := ε) fmt (fuel + 1) ("true".toList ++ rest) = some (.bool true, rest) :=
  readValue_word fmt rest fuel (readNumber_eq_none fmt (by decide) (by decide)) (by simp) (by simp)
    (by simp) rfl

theorem readValue_false (rest : List Char) (fuel : Nat) :
    readValue (ε := ε) fmt (fuel + 1) ("false".toList ++ rest) = some (.bool false, rest) :=
  readValue_word fmt rest fuel (readNumber_eq_none fmt (by decide) (by decide)) (by simp) (by simp)
    (by simp) rfl

theorem readValue_nan (rest : List Char) (fuel : Nat) :
    readValue (ε := ε) fmt (fuel + 1) ("NaN".toList ++ rest) = some (.float .nan, rest) :=
  readValue_word fmt rest fuel (readNumber_eq_none fmt (by decide) (by decide)) (by simp) (by simp)
    (by simp) rfl

theorem readValue_infinity (rest : List Char) (fuel : Nat) :
    readValue (ε := ε) fmt (fuel + 1) ("Infinity".toList ++ rest)
      = some (.float (.infinity false), rest) :=
  readValue_word fmt rest fuel (readNumber_eq_none fmt (by decide) (by decide)) (by simp) (by simp)
    (by simp) rfl

/-- A minus sign with no digit behind it is no number. -/
theorem readValue_negInfinity (rest : List Char) (fuel : Nat) :
    readValue (ε := ε) fmt (fuel + 1) ("-Infinity".toList ++ rest)
      = some (.float (.infinity true), rest) :=
  readValue_word fmt rest fuel (by rfl) (by simp) (by simp) (by simp) rfl

/-- A text that starts with a number is read as that number. -/
theorem readValue_number {s rest : List Char} {n : Number} (fuel : Nat)
    (h : readNumber fmt s = some (n, rest)) :
    readValue (ε := ε) fmt (fuel + 1) s = some (n.toValue, rest) := by
  simp only [readValue, h]

/-- Doubles are read back. -/
theorem readValue_float (x : FloatVal) (hx : x.OfFormat fmt) {rest : List Char}
    (hrest : EndsNumber rest) (fuel : Nat) :
    readValue (ε := ε) fmt (fuel + 1) (floatText fmt x ++ rest) = some (.float x, rest) := by
  cases x with
  | finite q =>
    simp only [FloatVal.OfFormat] at hx
    have hnum := readNumber_token fmt (fmt.repr q) hrest
    rw [fmt.round_repr q hx] at hnum
    exact readValue_number fmt fuel hnum
  | infinity neg =>
    cases neg with
    | false => exact readValue_infinity fmt rest fuel
    | true => exact readValue_negInfinity fmt rest fuel
  | nan => exact readValue_nan fmt rest fuel

/-- Strings are read back. -/
theorem readValue_string (s : String) (rest : List Char) (fuel : Nat) :
    readValue (ε := ε) fmt (fuel + 1) (stringText s.toList ++ rest) = some (.str s, rest) := by
  have hread := readString_stringText s rest
  simp only [stringText, List.cons_append] at hread ⊢
  rw [readValue, (readNumber_bracket fmt _).1]
  simp only [hread, Option.map_some, strValue_map_toNat]

/-- What the reader gives back when it has this much fuel. -/
structure ReadsBack (fuel : Nat) : Prop where
  value : ∀ v : Value ε, v.Printable fmt → ∀ rest, EndsNumber rest →
    2 * (dumps fmt default v).length ≤ fuel →
      readValue fmt fuel (dumps fmt default v ++ rest) = some (v.flatten default, rest)
  elems : ∀ (v : Value ε) vs, v.Printable fmt → Value.PrintableElems fmt vs → ∀ rest,
    2 * (dumps fmt default v ++ dumpsElems fmt default vs).length ≤ fuel + 1 →
      readElems fmt fuel (dumps fmt default v ++ (dumpsElems fmt default vs ++ rest))
        = some (v.flatten default :: Value.flattenElems default vs, rest)
  members : ∀ n (v : Value ε) ms, v.Printable fmt → Value.PrintableMembers fmt ms → ∀ rest,
    2 * (stringText n.toList ++ ':' :: ' ' :: (dumps fmt default v
      ++ dumpsMembers fmt default ms)).length ≤ fuel + 1 →
      readMembers fmt fuel (stringText n.toList ++ ':' :: ' ' :: (dumps fmt default v
        ++ (dumpsMembers fmt default ms ++ rest)))
        = some ((n, v.flatten default) :: Value.flattenMembers default ms, rest)

theorem length_dumps_pos (v : Value ε) : 0 < (dumps fmt default v).length := by
  obtain ⟨c, t, htext, -⟩ := dumps_head fmt default v
  rw [htext, List.length_cons]
  omega

theorem skipWs_space_dumps (v : Value ε) (rest : List Char) :
    skipWs (' ' :: (dumps fmt default v ++ rest)) = dumps fmt default v ++ rest := by
  rw [skipWs, if_pos (Or.inl rfl), skipWs_dumps]

theorem skipWs_space_stringText (s rest : List Char) :
    skipWs (' ' :: (stringText s ++ rest)) = stringText s ++ rest := by
  rw [skipWs, if_pos (Or.inl rfl), skipWs_stringText]

variable {fmt default}

/-- **One value is read back**, whatever follows it, as long as that does not continue a number. -/
theorem readValue_dumps {fuel : Nat} (ih : ReadsBack fmt default fuel) (v : Value ε)
    (hv : v.Printable fmt) (rest : List Char) (hrest : EndsNumber rest)
    (hf : 2 * (dumps fmt default v).length ≤ fuel + 1) :
    readValue fmt (fuel + 1) (dumps fmt default v ++ rest) = some (v.flatten default, rest) := by
  match v with
  | .null => exact readValue_null fmt rest fuel
  | .bool true => exact readValue_true fmt rest fuel
  | .bool false => exact readValue_false fmt rest fuel
  | .int n => exact readValue_number fmt fuel (readNumber_int fmt n hrest hv)
  | .float x => exact readValue_float fmt x hv hrest fuel
  | .str s => exact readValue_string fmt s rest fuel
  | .ext x => exact readValue_string fmt (default x) rest fuel
  | .arr [] => rfl
  | .obj [] => rfl
  | .arr (v :: vs) =>
    simp only [dumps, List.length_cons] at hf
    have helems := ih.elems v vs hv.1 hv.2 rest (by omega)
    obtain ⟨c, t, htext, hc⟩ := dumps_head fmt default v
    -- no value begins with the bracket that would end the array
    have hne : c ≠ ']' := by rintro rfl; exact absurd hc (by decide)
    simp only [dumps, List.cons_append, List.append_assoc]
    rw [readValue, (readNumber_bracket fmt _).2.1]
    simp only [skipWs_dumps]
    rw [htext, List.cons_append] at helems ⊢
    split
    · rename_i h
      exact absurd (List.cons.inj h).1 hne
    · simp only [helems, Option.map_some, Value.flatten, Value.flattenElems]
  | .obj ((n, v) :: ms) =>
    simp only [dumps, List.length_cons] at hf
    have hmembers := ih.members n v ms hv.1 hv.2 rest (by omega)
    simp only [dumps, List.cons_append, List.append_assoc]
    rw [readValue, (readNumber_bracket fmt _).2.2]
    simp only [skipWs_stringText]
    split
    · rename_i h
      exact absurd (List.cons.inj h).1 (by decide)
    · simp only [hmembers, Option.map_some, Value.flatten, Value.flattenMembers]

/-- The elements of an array are read back up to and including the closing bracket. -/
theorem readElems_dumps {fuel : Nat} (ih : ReadsBack fmt default fuel) (v : Value ε)
    (vs : List (Value ε)) (hv : v.Printable fmt) (hvs : Value.PrintableElems fmt vs)
    (rest : List Char)
    (hf : 2 * (dumps fmt default v ++ dumpsElems fmt default vs).length ≤ fuel + 1 + 1) :
    readElems fmt (fuel + 1) (dumps fmt default v ++ (dumpsElems fmt default vs ++ rest))
      = some (v.flatten default :: Value.flattenElems default vs, rest) := by
  rw [List.length_append] at hf
  have hpos := length_dumps_pos fmt default v
  cases vs with
  | nil =>
    simp only [dumpsElems, List.length_singleton] at hf
    have hhead := ih.value v hv (']' :: rest) (endsNumber_elems fmt default [] rest) (by omega)
    rw [readElems]
    simp only [dumpsElems, List.cons_append, List.nil_append, hhead]
    rfl
  | cons w ws =>
    simp only [dumpsElems, List.length_cons] at hf
    have hhead := ih.value v hv _ (endsNumber_elems fmt default (w :: ws) rest) (by omega)
    have htail := ih.elems w ws hvs.1 hvs.2 rest (by omega)
    have hsep : skipWs (dumpsElems fmt default (w :: ws) ++ rest)
        = ',' :: ' ' :: (dumps fmt default w ++ (dumpsElems fmt default ws ++ rest)) := by
      simp only [dumpsElems, List.cons_append, List.append_assoc]
      rfl
    rw [readElems]
    simp only [hhead, hsep, skipWs_space_dumps, htail, Option.map_some, Value.flattenElems]

/-- The members of an object are read back up to and including the closing brace. -/
theorem readMembers_dumps {fuel : Nat} (ih : ReadsBack fmt default fuel) (n : String)
    (v : Value ε) (ms : List (String × Value ε)) (hv : v.Printable fmt)
    (hms : Value.PrintableMembers fmt ms) (rest : List Char)
    (hf : 2 * (stringText n.toList ++ ':' :: ' ' :: (dumps fmt default v
      ++ dumpsMembers fmt default ms)).length ≤ fuel + 1 + 1) :
    readMembers fmt (fuel + 1) (stringText n.toList ++ ':' :: ' ' :: (dumps fmt default v
      ++ (dumpsMembers fmt default ms ++ rest)))
      = some ((n, v.flatten default) :: Value.flattenMembers default ms, rest) := by
  simp only [List.length_append, List.length_cons] at hf
  have hhead := ih.value v hv _ (endsNumber_members fmt default ms rest) (by omega)
  have hcolon (t : List Char) : skipWs (':' :: t) = ':' :: t := rfl
  rw [readMembers]
  simp only [readString_stringText, memberName_map_toNat, hcolon, skipWs_space_dumps, hhead]
  cases ms with
  | nil =>
    simp only [dumpsMembers, List.cons_append, List.nil_append]
    rfl
  | cons m ws =>
    obtain ⟨n', w⟩ := m
    simp only [dumpsMembers, List.length_cons] at hf
    have htail := ih.members n' w ws hms.1 hms.2 rest (by omega)
    have hsep : skipWs (dumpsMembers fmt default ((n', w) :: ws) ++ rest)
        = ',' :: ' ' :: (stringText n'.toList ++ ':' :: ' ' :: (dumps fmt default w
          ++ (dumpsMembers fmt default ws ++ rest))) := by
      simp only [dumpsMembers, List.cons_append, List.append_assoc]
      rfl
    have hspace := skipWs_space_stringText n'.toList (':' :: ' ' :: (dumps fmt default w
      ++ (dumpsMembers fmt default ws ++ rest)))
    simp only [hsep, hspace, htail, Option.map_some, Value.flattenMembers]

/-- Every text is read back with fuel twice its length: induction on the fuel, one case for each
    of the reader's three functions. -/
theorem readsBack (fuel : Nat) : ReadsBack fmt default fuel := by
  induction fuel with
  | zero =>
    constructor
    · intro v _ rest _ hf
      have := length_dumps_pos fmt default v
      omega
    · intro v vs _ _ rest hf
      have := length_dumps_pos fmt default v
      rw [List.length_append] at hf
      omega
    · intro n v ms _ _ rest hf
      simp only [List.length_append, List.length_cons] at hf
      omega
  | succ fuel ih =>
    exact ⟨readValue_dumps ih, readElems_dumps ih, readMembers_dumps ih⟩

/-- **Round trip**: reading a printed value gives its flattening. -/
theorem loads_dumps (v : Value ε) (hv : v.Printable fmt) :
    loads fmt (dumps fmt default v) = some (v.flatten default) := by
  have hskip := skipWs_dumps fmt default v []
  have hread := (readsBack (2 * (dumps fmt default v).length + 1)).value v hv [] trivial
    (Nat.le_succ _)
  simp only [List.append_nil] at hskip hread
  have hbom : (dumps fmt default v).head? ≠ some '\uFEFF' := by
    obtain ⟨c, t, htext, hc⟩ := dumps_head fmt default v
    rintro h
    rw [htext, List.head?_cons, Option.some_inj] at h
    exact absurd (h ▸ hc) (by decide)
  rw [loads, if_neg hbom, hskip, hread]
  rfl

end RoundTrip

end JsonText
