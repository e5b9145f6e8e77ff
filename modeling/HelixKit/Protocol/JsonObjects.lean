/-
Purpose: The scanner that takes a JSON object out of a line of the serial port.
Trusted boundary: none
Main exports: extracts_stringified
-/
import HelixKit.Lib.JsonText
import Mathlib.Data.List.Infix

namespace HelixKit.Protocol.JsonObjects

open HelixKit.JsonText

/-- The variables of the inner loop. -/
structure Scan where
  depth : Int := 0
  escaped : Bool := false
  quoted : Bool := false

/-- A character within a string. -/
def Scan.inString (scan : Scan) (character : UInt16) : Scan :=
  if scan.escaped then { scan with escaped := false }
  else if character = backslash then { scan with escaped := true }
  else if character = quoteMark then { scan with quoted := false }
  else scan

/-- The inner loop: how many characters there are up to the closing brace, and with it. -/
def closingIndex (scan : Scan) : Text → Option Nat
  | [] => none
  | character :: rest =>
    if scan.quoted then (closingIndex (scan.inString character) rest).map (· + 1)
    else if character = quoteMark then
      (closingIndex { scan with quoted := true } rest).map (· + 1)
    else if character = openBrace then
      (closingIndex { scan with depth := scan.depth + 1 } rest).map (· + 1)
    else if character = closeBrace then
      if scan.depth - 1 = 0 then some 1
      else (closingIndex { scan with depth := scan.depth - 1 } rest).map (· + 1)
    else (closingIndex scan rest).map (· + 1)

/-- The outer loop, from one opening brace to the next. -/
def extractJsonObject : Text → Option Text
  | [] => none
  | character :: rest =>
    if character = openBrace then
      match closingIndex {} (character :: rest) with
      | some length => some ((character :: rest).take length)
      | none => extractJsonObject rest
    else extractJsonObject rest

/-! ### The scanner follows the grammar -/

section Scanner

variable {depth : Int} {rest : Text}

theorem closingIndex_quote : closingIndex { depth } (quoteMark :: rest) =
    (closingIndex { depth, quoted := true } rest).map (· + 1) := rfl

theorem closingIndex_open : closingIndex { depth } (openBrace :: rest) =
    (closingIndex { depth := depth + 1 } rest).map (· + 1) := rfl

theorem closingIndex_close : closingIndex { depth } (closeBrace :: rest) =
    if depth - 1 = 0 then some 1
    else (closingIndex { depth := depth - 1 } rest).map (· + 1) := rfl

theorem closingIndex_plain {unit : UInt16} (quote : unit ≠ quoteMark) (opens : unit ≠ openBrace)
    (closes : unit ≠ closeBrace) :
    closingIndex { depth } (unit :: rest) = (closingIndex { depth } rest).map (· + 1) := by
  simp [closingIndex, quote, opens, closes]

theorem string_quote : closingIndex { depth, quoted := true } (quoteMark :: rest) =
    (closingIndex { depth } rest).map (· + 1) := rfl

theorem string_escape (letter : UInt16) :
    closingIndex { depth, quoted := true } (backslash :: letter :: rest) =
      (closingIndex { depth, quoted := true } rest).map (· + 2) := by
  rw [closingIndex, if_pos rfl, closingIndex, if_pos (by rfl), Option.map_map]
  rfl

theorem string_plain {unit : UInt16} (quote : unit ≠ quoteMark) (escape : unit ≠ backslash) :
    closingIndex { depth, quoted := true } (unit :: rest) =
      (closingIndex { depth, quoted := true } rest).map (· + 1) := by
  simp [closingIndex, Scan.inString, quote, escape]

theorem closingIndex_stringRest {text : Text} (literal : StringRest text) (rest : Text) :
    closingIndex { depth, quoted := true } (text ++ rest) =
      (closingIndex { depth } rest).map (· + text.length) := by
  induction literal with
  | close => exact string_quote
  | plain quote escape _ ih =>
    rw [List.cons_append, string_plain quote escape, ih, Option.map_map]
    rfl
  | escape letter _ ih =>
    rw [List.cons_append, List.cons_append, string_escape, ih, Option.map_map]
    rfl

/-- The rest of an object closes one brace. -/
theorem closingIndex_objectRest {text : Text} (object : ObjectRest text) (within : 0 < depth)
    (rest : Text) :
    closingIndex { depth } (text ++ rest) =
      if depth = 1 then some text.length
      else (closingIndex { depth := depth - 1 } rest).map (· + text.length) := by
  induction object generalizing depth rest with
  | close =>
    have last : depth - 1 = 0 ↔ depth = 1 := by omega
    rw [List.singleton_append, closingIndex_close]
    simp only [last, List.length_singleton]
  | plain quote opens closes _ ih =>
    rw [List.cons_append, closingIndex_plain quote opens closes, ih within]
    split
    · rfl
    · rw [Option.map_map]
      rfl
  | @string text inner literal _ ih =>
    rw [List.append_assoc, List.cons_append, closingIndex_quote, closingIndex_stringRest literal,
      ih within]
    split <;>
      simp [Option.map_map, Function.comp_def, Nat.add_assoc, Nat.add_comm, Nat.add_left_comm]
  | @object nested inner _ _ ihNested ih =>
    have deeper : 0 < depth + 1 := by omega
    have notLast : depth + 1 ≠ 1 := by omega
    rw [List.append_assoc, List.cons_append, closingIndex_open, ihNested deeper, if_neg notLast,
      Int.add_sub_cancel, ih within]
    split <;>
      simp [Option.map_map, Function.comp_def, Nat.add_assoc, Nat.add_comm, Nat.add_left_comm]

/-- What the scanner finds at the end of a string. -/
theorem stringRest_of_closingIndex {text : Text} {length : Nat}
    (found : closingIndex { depth, quoted := true } text = some length) :
    ∃ literal rest more, text = literal ++ rest ∧ StringRest literal ∧
      closingIndex { depth } rest = some more ∧ length = literal.length + more := by
  induction size : text.length using Nat.strongRecOn generalizing text length with
  | _ _ ih =>
  subst size
  match text with
  | [] => cases found
  | unit :: text =>
    by_cases mark : unit = quoteMark
    · subst mark
      obtain ⟨after, here, rfl⟩ := Option.map_eq_some_iff.mp (string_quote.symm.trans found)
      exact ⟨[quoteMark], text, after, rfl, .close, here, Nat.add_comm _ _⟩
    · by_cases slash : unit = backslash
      · subst slash
        match text with
        | [] => cases found
        | letter :: text =>
          obtain ⟨after, here, rfl⟩ :=
            Option.map_eq_some_iff.mp ((string_escape letter).symm.trans found)
          obtain ⟨literal, rest, more, rfl, shape, ends, rfl⟩ :=
            ih _ (by simp only [List.length_cons]; omega) here rfl
          refine ⟨backslash :: letter :: literal, rest, more, rfl, .escape letter shape, ends,
            ?_⟩
          simp only [List.length_cons]
          omega
      · obtain ⟨after, here, rfl⟩ :=
          Option.map_eq_some_iff.mp ((string_plain mark slash).symm.trans found)
        obtain ⟨literal, rest, more, rfl, shape, ends, rfl⟩ :=
          ih _ (by simp only [List.length_cons]; omega) here rfl
        refine ⟨unit :: literal, rest, more, rfl, .plain mark slash shape, ends, ?_⟩
        simp only [List.length_cons]
        omega

/-- Where the scanner is after an object's closing brace, when it began with `depth` braces. -/
def Continues (depth : Int) (rest : Text) (passed length : Nat) : Prop :=
  if depth = 1 then length = passed
  else ∃ more, closingIndex { depth := depth - 1 } rest = some more ∧ length = passed + more

theorem Continues.add {passed length : Nat} (continues : Continues depth rest passed length)
    (before : Nat) : Continues depth rest (before + passed) (before + length) := by
  unfold Continues at continues ⊢
  split at continues
  next last => rw [if_pos last, continues]
  next deeper =>
    obtain ⟨more, ends, rfl⟩ := continues
    rw [if_neg deeper]
    exact ⟨more, ends, by omega⟩

/-- What the scanner finds at the end of an object. -/
theorem objectRest_of_closingIndex (within : 0 < depth) {text : Text} {length : Nat}
    (found : closingIndex { depth } text = some length) :
    ∃ inner rest, text = inner ++ rest ∧ ObjectRest inner ∧
      Continues depth rest inner.length length := by
  induction size : text.length using Nat.strongRecOn generalizing depth text length with
  | _ _ ih =>
  subst size
  match text with
  | [] => cases found
  | unit :: text =>
    by_cases mark : unit = quoteMark
    · subst mark
      obtain ⟨after, here, rfl⟩ := Option.map_eq_some_iff.mp (closingIndex_quote.symm.trans found)
      obtain ⟨literal, rest, more, rfl, string, later, rfl⟩ := stringRest_of_closingIndex here
      obtain ⟨inner, tail, rfl, shape, ends⟩ :=
        ih _ (by simp only [List.length_cons, List.length_append]; omega) within later rfl
      refine ⟨quoteMark :: literal ++ inner, tail, by simp, .string string shape, ?_⟩
      have continues := ends.add (literal.length + 1)
      rwa [Nat.add_right_comm, Nat.add_right_comm _ _ more, ← List.length_append,
        ← List.length_cons (a := quoteMark)] at continues
    · by_cases opens : unit = openBrace
      · subst opens
        obtain ⟨after, here, rfl⟩ :=
          Option.map_eq_some_iff.mp (closingIndex_open.symm.trans found)
        obtain ⟨nested, rest, rfl, shape, ends⟩ :=
          ih _ (by simp only [List.length_cons]; omega) (by omega) here rfl
        rw [Continues, if_neg (by omega), Int.add_sub_cancel] at ends
        obtain ⟨more, later, rfl⟩ := ends
        obtain ⟨inner, tail, rfl, outer, ends⟩ :=
          ih _ (by simp only [List.length_cons, List.length_append]; omega) within later rfl
        refine ⟨openBrace :: nested ++ inner, tail, by simp, .object shape outer, ?_⟩
        have continues := ends.add (nested.length + 1)
        rwa [Nat.add_right_comm, Nat.add_right_comm _ _ more, ← List.length_append,
          ← List.length_cons (a := openBrace)] at continues
      · by_cases closes : unit = closeBrace
        · subst closes
          refine ⟨[closeBrace], text, rfl, .close, ?_⟩
          rw [closingIndex_close] at found
          unfold Continues
          split at found
          · cases found
            rw [if_pos (by omega)]
            rfl
          · obtain ⟨after, here, rfl⟩ := Option.map_eq_some_iff.mp found
            rw [if_neg (by omega)]
            exact ⟨after, here, Nat.add_comm _ _⟩
        · obtain ⟨after, here, rfl⟩ :=
            Option.map_eq_some_iff.mp ((closingIndex_plain mark opens closes).symm.trans found)
          obtain ⟨inner, rest, rfl, shape, ends⟩ :=
            ih _ (by simp only [List.length_cons]; omega) within here rfl
          refine ⟨unit :: inner, rest, rfl, .plain mark opens closes shape, ?_⟩
          have continues := ends.add 1
          rwa [Nat.add_comm 1, Nat.add_comm 1] at continues

end Scanner

/-! ### Objects in a line -/

/-- From an opening brace the scanner finds an object exactly when one begins there. -/
theorem closingIndex_brace {rest : Text} {length : Nat} :
    closingIndex {} (openBrace :: rest) = some length ↔
      ∃ block tail, openBrace :: rest = block ++ tail ∧ IsObject block ∧ block.length = length := by
  have opened : closingIndex {} (openBrace :: rest) =
      (closingIndex { depth := 1 } rest).map (· + 1) := rfl
  rw [opened, Option.map_eq_some_iff]
  constructor
  · rintro ⟨inside, found, rfl⟩
    obtain ⟨inner, tail, rfl, shape, ends⟩ := objectRest_of_closingIndex (by decide) found
    rw [Continues, if_pos rfl] at ends
    exact ⟨openBrace :: inner, tail, rfl, ⟨inner, rfl, shape⟩, by rw [ends]; rfl⟩
  · rintro ⟨block, tail, same, ⟨inner, rfl, shape⟩, rfl⟩
    obtain rfl : rest = inner ++ tail := by simpa using same
    exact ⟨inner.length, closingIndex_objectRest shape (by decide) tail, by simp⟩

theorem extractJsonObject_append {before : Text} (free : openBrace ∉ before) (text : Text) :
    extractJsonObject (before ++ text) = extractJsonObject text := by
  induction before with
  | nil => rfl
  | cons unit rest ih =>
    have other : unit ≠ openBrace := fun same => free (same ▸ List.mem_cons_self)
    rw [List.cons_append, extractJsonObject, if_neg other]
    exact ih fun later => free (List.mem_cons_of_mem _ later)

/-- An object is found where it begins. -/
theorem extractJsonObject_object {block : Text} (object : IsObject block) (after : Text) :
    extractJsonObject (block ++ after) = some block := by
  obtain ⟨inner, rfl, shape⟩ := object
  have found : closingIndex {} (openBrace :: (inner ++ after)) = some (inner.length + 1) :=
    closingIndex_brace.mpr ⟨openBrace :: inner, after, rfl, ⟨inner, rfl, shape⟩, rfl⟩
  simp only [List.cons_append, extractJsonObject, if_true, found, List.take_succ_cons,
    List.take_left]

/-- Nothing is found exactly in a text without an object. -/
theorem extractJsonObject_none_iff {text : Text} :
    extractJsonObject text = none ↔ ∀ block, block <:+: text → ¬ IsObject block := by
  constructor
  · rintro none_ block ⟨before, after, rfl⟩ object
    induction before with
    | nil =>
      rw [List.nil_append, extractJsonObject_object object] at none_
      cases none_
    | cons unit rest ih =>
      refine ih ?_
      simp only [List.cons_append, extractJsonObject] at none_
      split at none_
      · split at none_
        · cases none_
        · exact none_
      · exact none_
  · intro absent
    induction text with
    | nil => rfl
    | cons unit rest ih =>
      have later := ih fun block within =>
        absent block (within.trans (List.suffix_cons _ _).isInfix)
      by_cases opens : unit = openBrace
      · subst opens
        cases found : closingIndex {} (openBrace :: rest) with
        | none => simp only [extractJsonObject, if_true, found, later]
        | some length =>
          obtain ⟨block, tail, same, object, -⟩ := closingIndex_brace.mp found
          exact absurd object (absent block (same ▸ (List.prefix_append _ _).isInfix))
      · rw [extractJsonObject, if_neg opens, later]

/-- The text of an object is taken out of any line it stands in, after a text without an opening
brace; and nothing is taken out of a line without an object. -/
theorem extracts_stringified (fields : List (Text × Json Decimal)) (before after : Text)
    (free : openBrace ∉ before) :
    extractJsonObject (before ++ stringify Decimal.text (.object fields) ++ after) =
        some (stringify Decimal.text (.object fields)) ∧
      ∀ text, (∀ block, block <:+: text → ¬ IsObject block) → extractJsonObject text = none := by
  have object := isObject_stringify Decimal.text_plain fields
  rw [List.append_assoc, extractJsonObject_append free, extractJsonObject_object object]
  exact ⟨rfl, fun text absent => extractJsonObject_none_iff.mpr absent⟩

/-- A packet with braces, quotes and a lone surrogate in its strings. -/
def samplePacket : List (Text × Json Decimal) :=
  [(units "message", .object [(units "method", .string (units "\x7b\"\\ \x7d")),
      (units "payload",
        .array [.number ⟨true, [1, 5], 1⟩, .string [0xD83D, 0xDE00, 0xDC00], .null])]),
    (units "requestId", .string (units "request-1"))]

theorem extracts_stringified_packet :
    extractJsonObject (units "ok " ++ stringify Decimal.text (.object samplePacket) ++
        units " \x7d \x7b") = some (stringify Decimal.text (.object samplePacket)) ∧
      ∀ text, (∀ block, block <:+: text → ¬ IsObject block) → extractJsonObject text = none :=
  extracts_stringified samplePacket (units "ok ") (units " \x7d \x7b") (by decide)

end HelixKit.Protocol.JsonObjects
