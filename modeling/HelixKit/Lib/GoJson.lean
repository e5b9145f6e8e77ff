/-
Purpose: Values of JSON as the `encoding/json` package of Go reads them, on bytes, and that an
  object is read as it was written.
Trusted boundary: none
-/
import HelixKit.Lib.GoString
import Mathlib.Data.List.TakeWhile

namespace HelixKit.GoJson

/-! ## Values -/

inductive Json where
  | null
  | bool (b : Bool)
  | number (text : Bytes)
  | string (text : Bytes)
  | array (items : List Json)
  | object (members : List (Bytes × Json))

def isSpace (b : UInt8) : Bool := b = 0x20 || b = 0x09 || b = 0x0A || b = 0x0D

def skipSpace (text : Bytes) : Bytes := text.dropWhile isSpace

def isDigit (b : UInt8) : Bool := ch '0' ≤ b && b ≤ ch '9'

/-- The digits at the start, of which there is at least one. -/
def digits (text : Bytes) : Option (Bytes × Bytes) :=
  if text.takeWhile isDigit = [] then none
  else some (text.takeWhile isDigit, text.dropWhile isDigit)

def sign : Bytes → Bytes × Bytes
  | [] => ([], [])
  | b :: rest => if b = ch '-' then ([b], rest) else ([], b :: rest)

/-- A zero, or digits that do not begin with one. -/
def integerPart : Bytes → Option (Bytes × Bytes)
  | [] => none
  | b :: rest => if b = ch '0' then some ([b], rest) else digits (b :: rest)

def fraction : Bytes → Option (Bytes × Bytes)
  | [] => some ([], [])
  | b :: rest =>
    if b = ch '.' then (digits rest).map fun found => (b :: found.1, found.2)
    else some ([], b :: rest)

def exponent : Bytes → Option (Bytes × Bytes)
  | [] => some ([], [])
  | b :: rest =>
    if b = ch 'e' ∨ b = ch 'E' then
      match rest with
      | [] => none
      | c :: after =>
        if c = ch '+' ∨ c = ch '-' then
          (digits after).map fun found => (b :: c :: found.1, found.2)
        else (digits rest).map fun found => (b :: found.1, found.2)
    else some ([], b :: rest)

def number (text : Bytes) : Option (Bytes × Bytes) := do
  let (sign, rest) := sign text
  let (whole, rest) ← integerPart rest
  let (part, rest) ← fraction rest
  let (power, rest) ← exponent rest
  return (sign ++ whole ++ part ++ power, rest)

/-- The text after this word. -/
def word (expected : String) (text : Bytes) : Option Bytes :=
  if (asciiBytes expected).isPrefixOf text then some (text.drop expected.length) else none

mutual

/-- A value, with the objects and arrays that may still be opened in it. -/
def value : Nat → Nat → Bytes → Option (Json × Bytes)
  | 0, _, _ => none
  | fuel + 1, depth, text =>
    match skipSpace text with
    | [] => none
    | b :: rest =>
      if b = ch '"' then (unquote rest).map fun found => (.string found.1, found.2)
      else if b = ch '{' then
        if depth = 0 then none
        else
          match skipSpace rest with
          | [] => none
          | c :: after =>
            if c = ch '}' then some (.object [], after)
            else (members fuel (depth - 1) rest).map fun found => (.object found.1, found.2)
      else if b = ch '[' then
        if depth = 0 then none
        else
          match skipSpace rest with
          | [] => none
          | c :: after =>
            if c = ch ']' then some (.array [], after)
            else (elements fuel (depth - 1) rest).map fun found => (.array found.1, found.2)
      else if b = ch 't' then (word "rue" rest).map fun rest => (.bool true, rest)
      else if b = ch 'f' then (word "alse" rest).map fun rest => (.bool false, rest)
      else if b = ch 'n' then (word "ull" rest).map fun rest => (.null, rest)
      else (number (b :: rest)).map fun found => (.number found.1, found.2)

/-- The members of an object up to its end. -/
def members : Nat → Nat → Bytes → Option (List (Bytes × Json) × Bytes)
  | 0, _, _ => none
  | fuel + 1, depth, text =>
    match skipSpace text with
    | [] => none
    | q :: rest =>
      if q ≠ ch '"' then none
      else
        match unquote rest with
        | none => none
        | some (key, rest) =>
          match skipSpace rest with
          | [] => none
          | c :: rest =>
            if c ≠ ch ':' then none
            else
              match value fuel depth rest with
              | none => none
              | some (item, rest) =>
                match skipSpace rest with
                | [] => none
                | d :: rest =>
                  if d = ch '}' then some ([(key, item)], rest)
                  else if d = ch ',' then
                    (members fuel depth rest).map fun found =>
                      ((key, item) :: found.1, found.2)
                  else none

/-- The items of an array up to its end. -/
def elements : Nat → Nat → Bytes → Option (List Json × Bytes)
  | 0, _, _ => none
  | fuel + 1, depth, text =>
    match value fuel depth text with
    | none => none
    | some (item, rest) =>
      match skipSpace rest with
      | [] => none
      | d :: rest =>
        if d = ch ']' then some ([item], rest)
        else if d = ch ',' then
          (elements fuel depth rest).map fun found => (item :: found.1, found.2)
        else none

end

/-- `maxNestingDepth` -/
def maxNestingDepth : Nat := 10000

/-- The value that a whole text is. Of any two steps one takes a byte of it at least. -/
def parse (text : Bytes) : Option Json :=
  match value (2 * (text.length + 1)) maxNestingDepth text with
  | none => none
  | some (json, rest) => if skipSpace rest = [] then some json else none

/-! ## Objects that are written are read -/

/-- What may follow a member's value in an object. -/
def Closes (rest : Bytes) : Prop := rest.head? = some (ch ',') ∨ rest.head? = some (ch '}')

/-- The text is read as the value, inside an object. -/
def Writes (text : Bytes) (json : Json) : Prop :=
  ∀ fuel depth rest, Closes rest → value (fuel + 1) depth (text ++ rest) = some (json, rest)

theorem skipSpace_cons {b : UInt8} (rest : Bytes) (solid : isSpace b = false) :
    skipSpace (b :: rest) = b :: rest := by
  simp [skipSpace, solid]

theorem value_quote (text : Bytes) (fuel depth : Nat) (rest : Bytes) :
    value (fuel + 1) depth (quote text ++ rest) = some (.string (toValid text), rest) := by
  have opening : quote text ++ rest =
      ch '"' :: (((runes text).flatMap Rune.escape ++ [ch '"']) ++ rest) := rfl
  rw [opening, value, skipSpace_cons _ (by decide)]
  simp only [if_true, unquote_quote, Option.map_some]

theorem writes_string (text : Bytes) : Writes (quote text) (.string (toValid text)) :=
  fun fuel depth rest _ => value_quote text fuel depth rest

theorem writes_true : Writes (asciiBytes "true") (.bool true) := by
  intro fuel depth rest _
  have written : asciiBytes "true" ++ rest = ch 't' :: (asciiBytes "rue" ++ rest) := rfl
  have read : word "rue" (asciiBytes "rue" ++ rest) = some rest := by
    have front : (asciiBytes "rue").isPrefixOf (asciiBytes "rue" ++ rest) = true := by
      simp [List.isPrefixOf_iff_prefix]
    rw [word, if_pos front]
    exact congrArg some (List.drop_left' (by decide))
  rw [written, value, skipSpace_cons _ (by decide)]
  simp only [show ch 't' ≠ ch '"' by decide, show ch 't' ≠ ch '{' by decide,
    show ch 't' ≠ ch '[' by decide, if_false, if_true, read, Option.map_some]

theorem writes_one : Writes [ch '1'] (.number [ch '1']) := by
  intro fuel depth rest closes
  obtain ⟨c, more, rfl, ends⟩ : ∃ c more, rest = c :: more ∧ (c = ch ',' ∨ c = ch '}') := by
    cases rest with
    | nil => simp [Closes] at closes
    | cons c more => exact ⟨c, more, rfl, by simpa [Closes] using closes⟩
  have read : number (ch '1' :: c :: more) = some ([ch '1'], c :: more) := by
    rcases ends with rfl | rfl <;> rfl
  rw [List.singleton_append, value, skipSpace_cons _ (by decide)]
  simp only [show ch '1' ≠ ch '"' by decide, show ch '1' ≠ ch '{' by decide,
    show ch '1' ≠ ch '[' by decide, show ch '1' ≠ ch 't' by decide,
    show ch '1' ≠ ch 'f' by decide, show ch '1' ≠ ch 'n' by decide, if_false, read,
    Option.map_some]

/-- A member of an object, with its value's text. -/
def member (key text : Bytes) : Bytes := quote key ++ ch ':' :: text

/-- The members of an object after the first one. -/
def moreMembers (list : List (Bytes × Bytes)) : Bytes :=
  list.flatMap fun item => ch ',' :: member item.1 item.2

/-- The text of an object. -/
def objectText (first : Bytes × Bytes) (more : List (Bytes × Bytes)) : Bytes :=
  ch '{' :: (member first.1 first.2 ++ moreMembers more ++ [ch '}'])

/-- A key and its value, and the text that the value is written as. -/
structure Member where
  key : Bytes
  text : Bytes
  json : Json
  valid : Valid key
  writes : Writes text json

def Member.written (m : Member) : Bytes × Bytes := (m.key, m.text)

def Member.read (m : Member) : Bytes × Json := (m.key, m.json)

theorem members_written (m : Member) (more : List Member) (depth : Nat) (rest : Bytes)
    {fuel : Nat} (enough : more.length + 2 ≤ fuel) :
    members fuel depth
      (member m.key m.text ++ moreMembers (more.map Member.written) ++ ch '}' :: rest) =
        some (m.read :: more.map Member.read, rest) := by
  induction more generalizing m fuel with
  | nil =>
    obtain ⟨fuel, rfl⟩ : ∃ n, fuel = n + 2 := ⟨fuel - 2, by simp at enough; omega⟩
    have shape : member m.key m.text ++ moreMembers [] ++ ch '}' :: rest =
        ch '"' :: (((runes m.key).flatMap Rune.escape ++ [ch '"']) ++
          ch ':' :: (m.text ++ ch '}' :: rest)) := by
      simp [member, moreMembers, quote]
    rw [List.map_nil, shape, members, skipSpace_cons _ (by decide)]
    simp only [ne_eq, not_true_eq_false, if_false, unquote_quote, toValid_of_valid m.valid]
    rw [skipSpace_cons _ (by decide)]
    have item := m.writes fuel depth (ch '}' :: rest) (.inr rfl)
    simp only [not_true_eq_false, if_false, item]
    rw [skipSpace_cons _ (by decide)]
    simp only [if_true]
    rfl
  | cons next more ih =>
    obtain ⟨fuel, rfl⟩ : ∃ n, fuel = n + 2 := ⟨fuel - 2, by simp at enough; omega⟩
    have shape : member m.key m.text ++ moreMembers ((next :: more).map Member.written) ++
        ch '}' :: rest =
        ch '"' :: (((runes m.key).flatMap Rune.escape ++ [ch '"']) ++
          ch ':' :: (m.text ++ ch ',' :: (member next.key next.text ++
            moreMembers (more.map Member.written) ++ ch '}' :: rest))) := by
      simp [member, moreMembers, quote, Member.written]
    rw [shape, members, skipSpace_cons _ (by decide)]
    simp only [ne_eq, not_true_eq_false, if_false, unquote_quote, toValid_of_valid m.valid]
    rw [skipSpace_cons _ (by decide)]
    have item := m.writes fuel depth (ch ',' :: (member next.key next.text ++
      moreMembers (more.map Member.written) ++ ch '}' :: rest)) (.inl rfl)
    simp only [not_true_eq_false, if_false, item]
    rw [skipSpace_cons _ (by decide)]
    have enoughLater : more.length + 2 ≤ fuel + 1 := by
      simp only [List.length_cons] at enough
      omega
    have later := ih next enoughLater
    simp only [show ch ',' ≠ ch '}' by decide, if_false, if_true, later, Option.map_some]
    rfl

/-- An object that is written is read, also with white space after it. -/
theorem parse_object (m : Member) (more : List Member) {space : Bytes}
    (blank : ∀ b ∈ space, isSpace b = true) :
    parse (objectText m.written (more.map Member.written) ++ space) =
      some (.object (m.read :: more.map Member.read)) := by
  have shape : objectText m.written (more.map Member.written) ++ space =
      ch '{' :: (member m.key m.text ++ moreMembers (more.map Member.written) ++
        ch '}' :: space) := by
    simp [objectText, Member.written]
  obtain ⟨tail, quoted⟩ : ∃ tail, member m.key m.text ++ moreMembers (more.map Member.written) ++
      ch '}' :: space = ch '"' :: tail := ⟨_, rfl⟩
  have long : more.length ≤ (moreMembers (more.map Member.written)).length := by
    clear shape quoted
    induction more with
    | nil => simp
    | cons next more ih =>
      simp only [moreMembers, List.map_cons, List.flatMap_cons, List.length_append,
        List.length_cons] at ih ⊢
      omega
  obtain ⟨fuel, enough, exact_⟩ : ∃ fuel, more.length + 2 ≤ fuel ∧
      2 * ((objectText m.written (more.map Member.written) ++ space).length + 1) = fuel + 1 := by
    refine ⟨2 * (objectText m.written (more.map Member.written) ++ space).length + 1, ?_, by omega⟩
    rw [shape]
    simp only [List.length_cons, List.length_append]
    omega
  have body := members_written m more (maxNestingDepth - 1) space enough
  rw [parse, exact_, shape, value, skipSpace_cons _ (by decide)]
  simp only [show ch '{' ≠ ch '"' by decide, show maxNestingDepth ≠ 0 by decide, if_false, if_true]
  rw [quoted, skipSpace_cons _ (by decide)]
  simp only [show ch '"' ≠ ch '}' by decide, if_false]
  rw [← quoted, body]
  have empty : skipSpace space = [] := List.dropWhile_eq_nil_iff.mpr blank
  simp [empty]

/-- The text of an object has no control character that its values' texts have not. -/
theorem objectText_printable {first : Bytes × Bytes} {more : List (Bytes × Bytes)}
    (printable : ∀ item ∈ first :: more, ∀ c ∈ item.2, 0x20 ≤ c) {c : UInt8}
    (inText : c ∈ objectText first more) : 0x20 ≤ c := by
  have inMember : ∀ item ∈ first :: more, ∀ c ∈ member item.1 item.2, 0x20 ≤ c := by
    intro item inList c inItem
    rcases List.mem_append.mp inItem with key | text
    · exact quote_printable key
    · rcases List.mem_cons.mp text with rfl | text
      · decide
      · exact printable item inList c text
  rcases List.mem_cons.mp inText with rfl | inside
  · decide
  · rcases List.mem_append.mp inside with body | last
    · rcases List.mem_append.mp body with inFirst | inMore
      · exact inMember first List.mem_cons_self c inFirst
      · obtain ⟨item, inList, inItem⟩ := List.mem_flatMap.mp inMore
        rcases List.mem_cons.mp inItem with rfl | inItem
        · decide
        · exact inMember item (List.mem_cons_of_mem _ inList) c inItem
    · rw [List.mem_singleton.mp last]
      decide

end HelixKit.GoJson
