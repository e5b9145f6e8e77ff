/-
Purpose: JSON values and the texts that JSON.stringify writes for them, in UTF-16 code units, and
  the texts that are one object as far as braces and strings go.
Trusted boundary: none
-/
import Mathlib.Data.Nat.Digits.Defs
import Mathlib.Data.List.Basic

namespace HelixKit.JsonText

/-- The code units of a text. -/
abbrev Text := List UInt16

/-- The code units of an ASCII text. -/
def units (text : String) : Text :=
  text.toList.map fun char => UInt16.ofNat char.toNat

abbrev quoteMark : UInt16 := 0x22
abbrev backslash : UInt16 := 0x5C
abbrev openBrace : UInt16 := 0x7B
abbrev closeBrace : UInt16 := 0x7D
abbrev comma : UInt16 := 0x2C
abbrev colon : UInt16 := 0x3A
abbrev openBracket : UInt16 := 0x5B
abbrev closeBracket : UInt16 := 0x5D

/-- JSON data over any type of numbers.  The properties of an object are in the order in which they
are enumerated. -/
inductive Json (Number : Type*) where
  | null
  | boolean (value : Bool)
  | number (value : Number)
  | string (value : Text)
  | array (items : List (Json Number))
  | object (fields : List (Text × Json Number))

/-! ### Strings -/

def hexUnit (digit : Nat) : UInt16 :=
  UInt16.ofNat (if digit < 10 then 0x30 + digit else 0x61 + (digit - 10))

/-- UnicodeEscape: a code unit by its number. -/
def unicodeEscape (unit : UInt16) : Text :=
  [backslash, 0x75, hexUnit (unit.toNat / 0x1000 % 16), hexUnit (unit.toNat / 0x100 % 16),
    hexUnit (unit.toNat / 0x10 % 16), hexUnit (unit.toNat % 16)]

def isLeading (unit : UInt16) : Bool := 0xD800 ≤ unit && unit ≤ 0xDBFF

def isTrailing (unit : UInt16) : Bool := 0xDC00 ≤ unit && unit ≤ 0xDFFF

/-- The escapes of two characters. -/
def shortEscapes : List (UInt16 × UInt16) :=
  [(0x08, 0x62), (0x09, 0x74), (0x0A, 0x6E), (0x0C, 0x66), (0x0D, 0x72), (quoteMark, quoteMark),
    (backslash, backslash)]

def escape (unit : UInt16) : Text :=
  match shortEscapes.lookup unit with
  | some letter => [backslash, letter]
  | none =>
    if unit < 0x20 || isLeading unit || isTrailing unit then unicodeEscape unit else [unit]

/-- The inner part of QuoteJSONString; a pair of surrogates stands for itself. -/
def escaped : Text → Text
  | [] => []
  | [unit] => escape unit
  | unit :: next :: rest =>
    if isLeading unit && isTrailing next then unit :: next :: escaped rest
    else escape unit ++ escaped (next :: rest)

def quote (text : Text) : Text := quoteMark :: escaped text ++ [quoteMark]

/-! ### Values -/

section Stringify

variable {Number : Type*} (numberText : Number → Text)

mutual

/-- `JSON.stringify(value)`. -/
def stringify : Json Number → Text
  | .null => units "null"
  | .boolean true => units "true"
  | .boolean false => units "false"
  | .number value => numberText value
  | .string value => quote value
  | .array items => openBracket :: stringifyItems items ++ [closeBracket]
  | .object fields => openBrace :: stringifyFields fields ++ [closeBrace]

def stringifyItems : List (Json Number) → Text
  | [] => []
  | [item] => stringify item
  | item :: rest => stringify item ++ comma :: stringifyItems rest

def stringifyFields : List (Text × Json Number) → Text
  | [] => []
  | [(key, value)] => quote key ++ colon :: stringify value
  | (key, value) :: rest => quote key ++ colon :: stringify value ++ comma :: stringifyFields rest

end

end Stringify

/-! ### Numbers -/

/-- A finite number as Number::toString chooses to write it: its sign, the digits of the decimal and
the place of the point, counted from the first digit. -/
structure Decimal where
  negative : Bool := false
  digits : List (Fin 10)
  point : Int

def digitUnits (digits : List (Fin 10)) : Text :=
  digits.map fun digit => UInt16.ofNat (0x30 + digit.val)

def zeros (count : Nat) : Text := List.replicate count 0x30

def decimalText (n : Nat) : Text :=
  (Nat.toDigits 10 n).map fun digit => UInt16.ofNat digit.toNat

/-- The text of a number. -/
def Decimal.text (decimal : Decimal) : Text :=
  let count : Int := decimal.digits.length
  let point := decimal.point
  let exponent := point - 1
  let power := units "e" ++ units (if 0 ≤ exponent then "+" else "-") ++
    decimalText exponent.natAbs
  let magnitude :=
    if count ≤ point ∧ point ≤ 21 then
      digitUnits decimal.digits ++ zeros (point - count).toNat
    else if 0 < point ∧ point ≤ 21 then
      digitUnits (decimal.digits.take point.toNat) ++ units "." ++
        digitUnits (decimal.digits.drop point.toNat)
    else if -6 < point ∧ point ≤ 0 then
      units "0." ++ zeros (-point).toNat ++ digitUnits decimal.digits
    else if count = 1 then digitUnits decimal.digits ++ power
    else
      digitUnits (decimal.digits.take 1) ++ units "." ++ digitUnits (decimal.digits.drop 1) ++ power
  if decimal.negative then units "-" ++ magnitude else magnitude

/-! ### Balanced texts -/

/-- What follows the opening quote of a string, with the closing one. -/
inductive StringRest : Text → Prop where
  | close : StringRest [quoteMark]
  | plain {unit rest} (quote : unit ≠ quoteMark) (escape : unit ≠ backslash)
      (later : StringRest rest) : StringRest (unit :: rest)
  | escape (unit) {rest} (later : StringRest rest) : StringRest (backslash :: unit :: rest)

/-- What follows the opening brace of an object, with the closing one. -/
inductive ObjectRest : Text → Prop where
  | close : ObjectRest [closeBrace]
  | plain {unit rest} (quote : unit ≠ quoteMark) (opens : unit ≠ openBrace)
      (closes : unit ≠ closeBrace) (later : ObjectRest rest) : ObjectRest (unit :: rest)
  | string {text rest} (literal : StringRest text) (later : ObjectRest rest) :
      ObjectRest (quoteMark :: text ++ rest)
  | object {inner rest} (nested : ObjectRest inner) (later : ObjectRest rest) :
      ObjectRest (openBrace :: inner ++ rest)

/-- A text from an opening brace to the one that closes it. -/
def IsObject (text : Text) : Prop := ∃ rest, text = openBrace :: rest ∧ ObjectRest rest

/-- A text that changes nothing where it stands in an object. -/
def Neutral (text : Text) : Prop := ∀ ⦃rest⦄, ObjectRest rest → ObjectRest (text ++ rest)

/-- The units that are themselves, outside of strings. -/
def isPlain (unit : UInt16) : Bool :=
  unit ≠ quoteMark && unit ≠ openBrace && unit ≠ closeBrace

theorem Neutral.nil : Neutral [] := fun _ later => later

theorem Neutral.append {text more : Text} (first : Neutral text) (second : Neutral more) :
    Neutral (text ++ more) := by
  intro rest later
  rw [List.append_assoc]
  exact first (second later)

theorem Neutral.of_plain {text : Text} (plain : text.all isPlain = true) : Neutral text := by
  induction text with
  | nil => exact .nil
  | cons unit more ih =>
    simp only [List.all_cons, Bool.and_eq_true] at plain
    obtain ⟨here, there⟩ := plain
    simp only [isPlain, decide_not, Bool.and_eq_true, Bool.not_eq_true',
      decide_eq_false_iff_not] at here
    exact fun rest later => .plain here.1.1 here.1.2 here.2 (ih there later)

theorem Neutral.cons {unit : UInt16} {text : Text} (plain : isPlain unit = true)
    (later : Neutral text) : Neutral (unit :: text) := by
  have one : Neutral [unit] := .of_plain (by simp [plain])
  exact one.append later

/-! ### Texts of values are balanced -/

theorem hexUnit_plain (digit : Nat) (small : digit < 16) :
    hexUnit digit ≠ quoteMark ∧ hexUnit digit ≠ backslash := by
  revert digit
  decide

theorem StringRest.unicodeEscape {rest : Text} (unit : UInt16) (later : StringRest rest) :
    StringRest (unicodeEscape unit ++ rest) := by
  have digit : ∀ n, hexUnit (n % 16) ≠ quoteMark ∧ hexUnit (n % 16) ≠ backslash :=
    fun n => hexUnit_plain _ (Nat.mod_lt _ (by decide))
  refine .escape _ ?_
  refine .plain (digit _).1 (digit _).2 ?_
  refine .plain (digit _).1 (digit _).2 ?_
  refine .plain (digit _).1 (digit _).2 ?_
  exact .plain (digit _).1 (digit _).2 later

theorem StringRest.escaped_unit {rest : Text} (unit : UInt16) (later : StringRest rest) :
    StringRest (JsonText.escape unit ++ rest) := by
  unfold JsonText.escape
  split
  · exact .escape _ later
  next none_ =>
    split
    · exact .unicodeEscape unit later
    have absent := List.lookup_eq_none_iff.mp none_
    have quote : unit ≠ quoteMark := by
      simpa using absent (quoteMark, quoteMark) (by simp [shortEscapes])
    have slash : unit ≠ backslash := by
      simpa using absent (backslash, backslash) (by simp [shortEscapes])
    exact .plain quote slash later

theorem leading_ne (unit : UInt16) (surrogate : (isLeading unit || isTrailing unit) = true) :
    unit ≠ quoteMark ∧ unit ≠ backslash := by
  constructor <;> rintro rfl <;> cases surrogate

theorem StringRest.escaped (text : Text) {rest : Text} (later : StringRest rest) :
    StringRest (JsonText.escaped text ++ rest) := by
  induction text using JsonText.escaped.induct with
  | case1 => exact later
  | case2 unit => exact .escaped_unit unit later
  | case3 unit next more pair ih =>
    simp only [Bool.and_eq_true] at pair
    have first := leading_ne unit (by simp [pair])
    have second := leading_ne next (by simp [pair])
    simp only [JsonText.escaped, pair, Bool.and_self, if_true, List.cons_append]
    exact .plain first.1 first.2 (.plain second.1 second.2 ih)
  | case4 unit next more single ih =>
    simp only [JsonText.escaped, single, Bool.false_eq_true, if_false, List.append_assoc]
    exact .escaped_unit unit ih

theorem neutral_quote (text : Text) : Neutral (quote text) := by
  intro rest later
  exact .string (.escaped text .close) later

section Values

variable {Number : Type*} {numberText : Number → Text}

mutual

theorem neutral_stringify (plain : ∀ number, (numberText number).all isPlain = true) :
    (value : Json Number) → Neutral (stringify numberText value)
  | .null => show Neutral (units "null") from .of_plain (by decide)
  | .boolean true => show Neutral (units "true") from .of_plain (by decide)
  | .boolean false => show Neutral (units "false") from .of_plain (by decide)
  | .number value => .of_plain (plain value)
  | .string value => neutral_quote value
  | .array items => by
    rw [stringify]
    exact .cons (by decide) ((neutral_items plain items).append (.of_plain (by decide)))
  | .object fields => by
    intro rest later
    have inner := neutral_fields plain fields .close
    simpa [stringify] using ObjectRest.object inner later

theorem neutral_items (plain : ∀ number, (numberText number).all isPlain = true) :
    (items : List (Json Number)) → Neutral (stringifyItems numberText items)
  | [] => .nil
  | [item] => neutral_stringify plain item
  | item :: next :: rest =>
    (neutral_stringify plain item).append
      (.cons (by decide) (neutral_items plain (next :: rest)))

theorem neutral_fields (plain : ∀ number, (numberText number).all isPlain = true) :
    (fields : List (Text × Json Number)) → Neutral (stringifyFields numberText fields)
  | [] => .nil
  | [(key, value)] =>
    (neutral_quote key).append (.cons (by decide) (neutral_stringify plain value))
  | (key, value) :: next :: rest => by
    rw [stringifyFields]
    · refine Neutral.append (Neutral.append (neutral_quote key) ?_) ?_
      · exact .cons (by decide) (neutral_stringify plain value)
      · exact .cons (by decide) (neutral_fields plain (next :: rest))
    · simp

end

/-- The text of an object is balanced. -/
theorem isObject_stringify (plain : ∀ number, (numberText number).all isPlain = true)
    (fields : List (Text × Json Number)) :
    IsObject (stringify numberText (.object fields)) := by
  refine ⟨stringifyFields numberText fields ++ [closeBrace], ?_, neutral_fields plain fields .close⟩
  rw [stringify, List.cons_append]

end Values

/-! ### Texts of numbers are plain -/

theorem plain_digits (digits : List (Fin 10)) : (digitUnits digits).all isPlain = true := by
  have each : ∀ digit : Fin 10, isPlain (UInt16.ofNat (0x30 + digit.val)) = true := by decide
  rw [digitUnits, List.all_map, List.all_eq_true]
  exact fun digit _ => each digit

theorem plain_zeros (count : Nat) : (zeros count).all isPlain = true := by
  have zero : isPlain 0x30 = true := by decide
  simp [zeros, List.all_replicate, zero]

theorem plain_decimalText (n : Nat) : (decimalText n).all isPlain = true := by
  rw [decimalText, List.all_map, List.all_eq_true]
  intro digit member
  have isDigit := Nat.isDigit_of_mem_toDigits (by decide) (by decide) member
  have each : ∀ code < 0x3A, 0x30 ≤ code → isPlain (UInt16.ofNat code) = true := by decide
  simp only [Char.isDigit, Bool.and_eq_true, decide_eq_true_eq] at isDigit
  exact each digit.toNat (Nat.lt_succ_of_le isDigit.2) isDigit.1

theorem Decimal.text_plain (decimal : Decimal) : decimal.text.all isPlain = true := by
  have literal : ∀ text ∈ ["e", "+", "-", ".", "0."], (units text).all isPlain = true := by decide
  unfold Decimal.text
  simp only []
  split_ifs <;>
    simp [List.all_append, plain_digits, plain_zeros, plain_decimalText, literal]

end HelixKit.JsonText
