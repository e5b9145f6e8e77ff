/-
Purpose: The values of Go structs, what encoding/json writes for them, and when a program that
  reads the JSON holds the same values.
Trusted boundary: encoding/json as documented; a field is written under the name its tag gives
-/
import HelixKit.Lib.JsonSchema
import Mathlib.Data.List.Nodup

namespace HelixKit.GoValues

open JsonSchema (Text Json Range)

inductive GoType where
  | string
  | bool
  | int
  | float64
  | rawMessage
  | slice (item : GoType)
  | named (struct : Text)
deriving DecidableEq

/-- A field of a struct and its `json` tag, with the bounds it was declared with, which Go itself
does not know. -/
structure GoField where
  name : Text
  type : GoType
  tag : Text
  omitempty : Bool
  exported : Bool
  declared : Range := {}
deriving DecidableEq

structure GoStruct where
  name : Text
  fields : List GoField
deriving DecidableEq

/-- A `json.RawMessage` is nil or the JSON it holds. -/
inductive GoValue where
  | string (value : Text)
  | bool (value : Bool)
  | int (value : ℤ)
  | float64 (value : ℚ)
  | rawMessage (json : Option Json)
  | nilSlice
  | slice (items : List GoValue)
  | struct (type : GoStruct) (values : List GoValue)

namespace GoValue

/-- What `omitempty` leaves out. -/
def isEmpty : GoValue → Bool
  | .string value => value.isEmpty
  | .bool value => !value
  | .int value => value = 0
  | .float64 value => value = 0
  | .rawMessage json => json.isNone
  | .nilSlice => true
  | .slice items => items.isEmpty
  | .struct _ _ => false

def isNil : GoValue → Bool
  | .rawMessage none | .nilSlice => true
  | _ => false

/-- Whether the encoder writes the field. -/
def written (field : GoField) (value : GoValue) : Bool :=
  field.exported && !(field.omitempty && value.isEmpty)

mutual

/-- `json.Marshal`. -/
def marshal : GoValue → Json
  | .string value => .string value
  | .bool value => .bool value
  | .int value => .number value
  | .float64 value => .number value
  | .rawMessage json => json.getD .null
  | .nilSlice => .null
  | .slice items => .array (marshalItems items)
  | .struct type values => .object (marshalFields values type.fields)

def marshalItems : List GoValue → List Json
  | [] => []
  | item :: items => item.marshal :: marshalItems items

def marshalFields : List GoValue → List GoField → List (Text × Json)
  | value :: values, field :: fields =>
    if written field value then (field.tag, value.marshal) :: marshalFields values fields
    else marshalFields values fields
  | _, _ => []

end

theorem written_iff {field : GoField} {value : GoValue} :
    written field value = true ↔ field.exported ∧ (field.omitempty → ¬value.isEmpty) := by
  simp only [written, Bool.and_eq_true, Bool.not_eq_true', Bool.and_eq_false_iff]
  cases field.omitempty <;> simp

theorem isEmpty_of_isNil {value : GoValue} (absent : value.isNil = true) :
    value.isEmpty = true := by
  unfold isNil at absent
  split at absent
  · rfl
  · rfl
  · cases absent

@[simp] theorem length_marshalItems (items : List GoValue) :
    (marshalItems items).length = items.length := by
  induction items with
  | nil => rfl
  | cons item items ih => simp [marshalItems, ih]

theorem lookup_marshalFields_none {values : List GoValue} {fields : List GoField} {tag : Text}
    (fresh : tag ∉ fields.map (·.tag)) : (marshalFields values fields).lookup tag = none := by
  induction values generalizing fields with
  | nil => simp [marshalFields]
  | cons value values ih =>
    cases fields with
    | nil => simp [marshalFields]
    | cons field fields =>
      simp only [List.map_cons, List.mem_cons, not_or] at fresh
      rw [marshalFields]
      split
      · rw [List.lookup_cons, beq_false_of_ne fresh.1]
        exact ih fresh.2
      · exact ih fresh.2

/-- An object has each field that is written, under its tag. -/
theorem lookup_marshalFields {values : List GoValue} {fields : List GoField}
    (tags : (fields.map (·.tag)).Nodup) {value : GoValue} {field : GoField}
    (member : (value, field) ∈ values.zip fields) :
    (marshalFields values fields).lookup field.tag =
      if written field value then some value.marshal else none := by
  induction values generalizing fields with
  | nil => simp at member
  | cons first values ih =>
    cases fields with
    | nil => simp at member
    | cons head fields =>
      rw [List.map_cons, List.nodup_cons] at tags
      obtain ⟨fresh, tags⟩ := tags
      simp only [List.zip_cons_cons, List.mem_cons, Prod.mk.injEq] at member
      rw [marshalFields]
      obtain ⟨rfl, rfl⟩ | member := member
      · split
        · rw [List.lookup_cons, beq_self_eq_true]
        · exact lookup_marshalFields_none fresh
      · have inFields : field.tag ∈ fields.map (·.tag) :=
          List.mem_map.mpr ⟨field, (List.of_mem_zip member).2, rfl⟩
        have apart : field.tag ≠ head.tag := fun same => fresh (same ▸ inFields)
        split
        · rw [List.lookup_cons, beq_false_of_ne apart]
          exact ih tags member
        · exact ih tags member

/-! ## Typed values -/

/-- A number is in the bounds its field was declared with. -/
def InRange (range : Range) : GoValue → Prop
  | .int value => range.Holds value
  | .float64 value => range.Holds value
  | _ => True

theorem inRange_any (value : GoValue) : InRange {} value := by
  unfold InRange
  split
  · exact Range.holds_any _
  · exact Range.holds_any _
  · trivial

mutual

/-- The values of a type, with integers that a double can hold and numbers in their declared
bounds. -/
def Has (structs : List GoStruct) : GoValue → GoType → Prop
  | .string _, .string => True
  | .bool _, .bool => True
  | .int value, .int => |value| ≤ 2 ^ 53
  | .float64 _, .float64 => True
  | .rawMessage _, .rawMessage => True
  | .nilSlice, .slice _ => True
  | .slice items, .slice item => HasItems structs items item
  | .struct type values, .named name =>
    type ∈ structs ∧ type.name = name ∧ HasFields structs values type.fields
  | _, _ => False

def HasItems (structs : List GoStruct) : List GoValue → GoType → Prop
  | [], _ => True
  | item :: items, type => item.Has structs type ∧ HasItems structs items type

def HasFields (structs : List GoStruct) : List GoValue → List GoField → Prop
  | [], [] => True
  | value :: values, field :: fields =>
    value.Has structs field.type ∧ InRange field.declared value ∧ HasFields structs values fields
  | _, _ => False

end

/-! ## The reader's side -/

mutual

/-- The JSON a program holds has the same value. A nil slice is null and the absent value of a
field is nil. -/
def ReadAs : GoValue → Json → Prop
  | .string value, json => json = .string value
  | .bool value, json => json = .bool value
  | .int value, json => json = .number value
  | .float64 value, json => json = .number value
  | .rawMessage held, json => json = held.getD .null
  | .nilSlice, json => json = .null
  | .slice items, json => ∃ read, json = .array read ∧ ItemsReadAs items read
  | .struct type values, json =>
    ∃ read, json = .object read ∧ FieldsReadAs values type.fields read

def ItemsReadAs : List GoValue → List Json → Prop
  | [], [] => True
  | item :: items, json :: read => item.ReadAs json ∧ ItemsReadAs items read
  | _, _ => False

def FieldsReadAs : List GoValue → List GoField → List (Text × Json) → Prop
  | value :: values, field :: fields, read =>
    (match read.lookup field.tag with
      | some json => value.ReadAs json
      | none => field.omitempty ∧ value.isNil) ∧
    FieldsReadAs values fields read
  | _, _, _ => True

end

theorem fieldsReadAs_cons {values : List GoValue} {fields : List GoField}
    {read : List (Text × Json)} {tag : Text} (json : Json) (fresh : tag ∉ fields.map (·.tag)) :
    FieldsReadAs values fields ((tag, json) :: read) ↔ FieldsReadAs values fields read := by
  induction values generalizing fields with
  | nil => simp [FieldsReadAs]
  | cons value values ih =>
    cases fields with
    | nil => simp [FieldsReadAs]
    | cons field fields =>
      simp only [List.map_cons, List.mem_cons, not_or] at fresh
      have apart : (field.tag == tag) = false := beq_false_of_ne (Ne.symm fresh.1)
      simp only [FieldsReadAs, List.lookup_cons, apart, ih fresh.2]

end GoValue

end HelixKit.GoValues
