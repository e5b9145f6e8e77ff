/-
Purpose: JSON as a JavaScript program reads it, and the schemas a program checks it with after the
  documented rules of zod.
Trusted boundary: a number is the rational its digits stand for, as for every text that was written
  from a double or from an integer that a double holds
-/
import Mathlib.Algebra.Order.Ring.Rat
import Mathlib.Algebra.Order.Ring.Cast

namespace HelixKit.JsonSchema

abbrev Text := List Char

def text (literal : String) : Text := literal.toList

inductive Json where
  | null
  | bool (value : Bool)
  | number (value : ℚ)
  | string (value : Text)
  | array (items : List Json)
  | object (fields : List (Text × Json))

/-- The value of a property, when the value is an object that has it. -/
def Json.get? (json : Json) (key : Text) : Option Json :=
  match json with
  | .object fields => fields.lookup key
  | _ => none

/-- `length` of a string: its UTF-16 code units. -/
def utf16Length (value : Text) : Nat :=
  (value.map fun char => if char.val < 0x10000 then 1 else 2).sum

/-! ## Schemas -/

/-- What `.min()` and `.max()` were called with. -/
structure Range where
  minimum : Option ℚ := none
  maximum : Option ℚ := none
deriving DecidableEq

def Range.Holds (range : Range) (value : ℚ) : Prop :=
  (∀ bound ∈ range.minimum, bound ≤ value) ∧ ∀ bound ∈ range.maximum, value ≤ bound

instance (range : Range) (value : ℚ) : Decidable (range.Holds value) :=
  inferInstanceAs (Decidable ((∀ bound ∈ range.minimum, bound ≤ value) ∧
    ∀ bound ∈ range.maximum, value ≤ bound))

theorem Range.holds_any (value : ℚ) : Range.Holds {} value := by
  simp [Range.Holds]

/-- `Number.isSafeInteger`. -/
def SafeInteger (value : ℚ) : Prop := value.den = 1 ∧ |value| < 2 ^ 53

instance (value : ℚ) : Decidable (SafeInteger value) :=
  inferInstanceAs (Decidable (value.den = 1 ∧ |value| < 2 ^ 53))

theorem safeInteger_intCast (value : ℤ) : SafeInteger value ↔ |value| < 2 ^ 53 := by
  have bound : |(value : ℚ)| < 2 ^ 53 ↔ |value| < 2 ^ 53 := by
    rw [← Int.cast_abs]
    constructor <;> intro small <;> exact_mod_cast small
  simp [SafeInteger, bound]

mutual

inductive Zod where
  | string (range : Range)
  | number (int : Bool) (range : Range)
  | boolean
  | unknown
  | array (item : Zod) (range : Range)
  | object (shape : Shape)

/-- The keys of `z.object()`, each with its schema and whether that is `.optional()`. -/
inductive Shape where
  | nil
  | cons (key : Text) (optional : Bool) (schema : Zod) (rest : Shape)

end

/-- `.int()`; the other schemas have no such method. -/
def Zod.toInt : Zod → Option Zod
  | .number _ range => some (.number true range)
  | _ => none

/-- `.min()`. -/
def Zod.min (schema : Zod) (bound : ℚ) : Option Zod :=
  match schema with
  | .string range => some (.string { range with minimum := some bound })
  | .number int range => some (.number int { range with minimum := some bound })
  | .array item range => some (.array item { range with minimum := some bound })
  | _ => none

/-- `.max()`. -/
def Zod.max (schema : Zod) (bound : ℚ) : Option Zod :=
  match schema with
  | .string range => some (.string { range with maximum := some bound })
  | .number int range => some (.number int { range with maximum := some bound })
  | .array item range => some (.array item { range with maximum := some bound })
  | _ => none

/-- Whether the schema takes `undefined`. -/
def Zod.isUnknown : Zod → Bool
  | .unknown => true
  | _ => false

mutual

/-- `safeParse`: the parsed value, or nothing where the schema has an issue. -/
def Zod.parse : Zod → Json → Option Json
  | .string range, .string value =>
    if range.Holds (utf16Length value) then some (.string value) else none
  | .number int range, .number value =>
    if (int → SafeInteger value) ∧ range.Holds value then some (.number value) else none
  | .boolean, .bool value => some (.bool value)
  | .unknown, json => some json
  | .array item range, .array items =>
    if range.Holds items.length then (items.mapM item.parse).map .array else none
  | .object shape, .object fields => (shape.parse fields).map .object
  | _, _ => none

/-- Keys that the shape does not name are left out of the result. -/
def Shape.parse : Shape → List (Text × Json) → Option (List (Text × Json))
  | .nil, _ => some []
  | .cons key optional schema rest, fields =>
    match fields.lookup key with
    | none => if optional || schema.isUnknown then rest.parse fields else none
    | some json => do
      let parsed ← schema.parse json
      let others ← rest.parse fields
      some ((key, parsed) :: others)

end

/-- The keys of a shape, first to last. -/
def Shape.keys : Shape → List Text
  | .nil => []
  | .cons key _ _ rest => key :: rest.keys

theorem Shape.parse_lookup_none {shape : Shape} {fields parsed : List (Text × Json)} {key : Text}
    (fresh : key ∉ shape.keys) (accepted : shape.parse fields = some parsed) :
    parsed.lookup key = none := by
  match shape with
  | .nil =>
    simp only [Shape.parse, Option.some.injEq] at accepted
    simp [← accepted]
  | .cons first optional schema rest =>
    have apart : key ≠ first := fun same => fresh (same ▸ List.mem_cons_self)
    have below : key ∉ rest.keys := fun inRest => fresh (List.mem_cons_of_mem _ inRest)
    rw [Shape.parse] at accepted
    split at accepted
    · split at accepted
      · exact Shape.parse_lookup_none below accepted
      · cases accepted
    · simp only [Option.bind_eq_bind, Option.bind_eq_some_iff, Option.some.injEq] at accepted
      obtain ⟨value, _, others, taken, rfl⟩ := accepted
      rw [List.lookup_cons, beq_false_of_ne apart]
      exact Shape.parse_lookup_none below taken
termination_by sizeOf shape

end HelixKit.JsonSchema
