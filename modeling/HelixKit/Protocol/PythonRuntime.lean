/-
Purpose: The runtime of the generated Python dataclasses (`tooling/protocol/commands.py`), and which
  values come back from the wire as they were.
Trusted boundary: a class is its fields, whose wire names differ; what a conversion makes of a value
  that is not of the annotation's kind is a parameter
Main exports: round_trip_iff
-/
import Mathlib.Data.List.Nodup
import HelixKit.Lib.Fallible

namespace HelixKit.Contracts.Python

open HelixKit.Fallible

variable {Float : Type}

/-! ### Values and types -/

/-- Members of a mapping are in the order of their insertion; an instance of a class has one value
for each field. -/
inductive PyValue (Float : Type) where
  | none
  | bool (value : Bool)
  | int (value : Int)
  | float (value : Float)
  | str (value : String)
  | list (items : List (PyValue Float))
  | dict (members : List (String × PyValue Float))
  | dataclass (cls : String) (values : List (PyValue Float))

inductive PyType where
  | any
  | bool
  | int
  | float
  | str
  | list (item : PyType)
  | cls (name : String)

/-- A field of a class; one that is not required has an `Optional` type and the default `None`. -/
structure Field where
  wire_name : String
  type : PyType
  required : Bool

/-- The fields of the classes, by the names of the classes. -/
structure Classes where
  fields : String → List Field
  distinct : ∀ cls, ((fields cls).map Field.wire_name).Nodup

def PyValue.isNone : PyValue Float → Bool
  | .none => true
  | _ => false

inductive Failure where
  /-- "expected mapping" -/
  | notMapping
  /-- A class is called without an argument that it requires. -/
  | missingArgument (wire_name : String)
  | other

/-! ### The wire -/

section Wire

variable (classes : Classes)

mutual

def to_wire_value : PyValue Float → PyValue Float
  | .dataclass cls values => .dict (wireFields (classes.fields cls) values)
  | .list items => .list (wireItems items)
  | .dict members => .dict (wireMembers members)
  | value => value

def wireItems : List (PyValue Float) → List (PyValue Float)
  | [] => []
  | item :: items => to_wire_value item :: wireItems items

def wireMembers : List (String × PyValue Float) → List (String × PyValue Float)
  | [] => []
  | (key, item) :: members =>
    if item.isNone then wireMembers members
    else (key, to_wire_value item) :: wireMembers members

def wireFields : List Field → List (PyValue Float) → List (String × PyValue Float)
  | field :: fields, child :: values =>
    if child.isNone then wireFields fields values
    else (field.wire_name, to_wire_value child) :: wireFields fields values
  | _, _ => []

end

def missing (field : Field) : Except Failure (PyValue Float) :=
  if field.required then .error (.missingArgument field.wire_name) else .ok .none

-- What is made of a value that is not of the kind of the annotation.
variable (otherwise : PyType → PyValue Float → Except Failure (PyValue Float))

/-- `value or []`, `value or {}`: whether the value gives way. -/
def PyValue.falsy (isZero : Float → Bool) : PyValue Float → Bool
  | .none => true
  | .bool value => !value
  | .int value => value = 0
  | .float value => isZero value
  | .str value => value.isEmpty
  | .list items => items.isEmpty
  | .dict members => members.isEmpty
  | .dataclass _ _ => false

def _convert_primitive (value : PyValue Float) ( annotation : PyType) :
    Except Failure (PyValue Float) :=
  match annotation, value with
  | _, .none => .ok .none
  | .bool, .bool value => .ok (.bool value)
  | .int, .int value => .ok (.int value)
  | .float, .float value => .ok (.float value)
  | .str, .str value => .ok (.str value)
  | annotation, value => otherwise annotation value

variable (isZero : Float → Bool)

mutual

/-- `convert_value`; a value in the place of a list that is no list is one for `otherwise`. -/
def convert_value : PyValue Float → PyType → Except Failure (PyValue Float)
  | value, .any => .ok value
  | .list items, .list item => do return .list (← convertItems items item)
  | value, .list item =>
    if value.falsy isZero then .ok (.list []) else otherwise (.list item) value
  | .dict members, .cls name => do
    return .dataclass name (← (classes.fields name).mapM fun field => convertField members field)
  | value, .cls name =>
    if value.falsy isZero then do return .dataclass name (← (classes.fields name).mapM missing)
    else .error .notMapping
  | value, annotation => _convert_primitive otherwise value annotation

def convertItems : List (PyValue Float) → PyType → Except Failure (List (PyValue Float))
  | [], _ => .ok []
  | item :: items, item_type => do
    let first ← convert_value item item_type
    return first :: (← convertItems items item_type)

/-- The argument for a field, from the members of a mapping. -/
def convertField : List (String × PyValue Float) → Field → Except Failure (PyValue Float)
  | [], field => missing field
  | (key, value) :: raw, field =>
    if key = field.wire_name then
      if !field.required && value.isNone then .ok .none else convert_value value field.type
    else convertField raw field

end

end Wire

/-! ### What comes back -/

section Types

variable (classes : Classes)

mutual

/-- A value of the type, where those of a free-form part are JSON. -/
def HasType : PyValue Float → PyType → Prop
  | .none, .any | .bool _, .any | .int _, .any | .float _, .any | .str _, .any => True
  | .bool _, .bool | .int _, .int | .float _, .float | .str _, .str => True
  | .list items, .any => ItemsHaveType items .any
  | .list items, .list item => ItemsHaveType items item
  | .dict members, .any => MembersHaveType members
  | .dataclass cls values, .cls name => cls = name ∧ FieldsHaveType (classes.fields cls) values
  | _, _ => False

def ItemsHaveType : List (PyValue Float) → PyType → Prop
  | [], _ => True
  | item :: items, type => HasType item type ∧ ItemsHaveType items type

def MembersHaveType : List (String × PyValue Float) → Prop
  | [] => True
  | (_, item) :: members => HasType item .any ∧ MembersHaveType members

def FieldsHaveType : List Field → List (PyValue Float) → Prop
  | [], [] => True
  | field :: fields, child :: values =>
    (child = .none ∧ field.required = false ∨ HasType child field.type) ∧
      FieldsHaveType fields values
  | _, _ => False

end

mutual

/-- No mapping has a member that is `None`, and no required field is `None`. -/
def Kept : PyValue Float → Prop
  | .list items => ItemsKept items
  | .dict members => MembersKept members
  | .dataclass cls values => FieldsKept (classes.fields cls) values
  | _ => True

def ItemsKept : List (PyValue Float) → Prop
  | [] => True
  | item :: items => Kept item ∧ ItemsKept items

def MembersKept : List (String × PyValue Float) → Prop
  | [] => True
  | (_, item) :: members => item ≠ .none ∧ Kept item ∧ MembersKept members

def FieldsKept : List Field → List (PyValue Float) → Prop
  | field :: fields, child :: values =>
    (child = .none → field.required = false) ∧ Kept child ∧ FieldsKept fields values
  | _, _ => True

end

end Types

variable {classes : Classes} {otherwise : PyType → PyValue Float → Except Failure (PyValue Float)}
  {isZero : Float → Bool}

theorem isNone_iff {value : PyValue Float} : value.isNone = true ↔ value = .none := by
  cases value <;> simp [PyValue.isNone]

theorem wireMembers_length (members : List (String × PyValue Float)) :
    (wireMembers classes members).length ≤ members.length := by
  induction members with
  | nil => simp [wireMembers]
  | cons member members ih =>
    rw [wireMembers]
    split
    · exact Nat.le_succ_of_le ih
    · exact Nat.succ_le_succ ih

mutual

/-- What is sent of a free-form part. -/
theorem wire_json : ∀ value : PyValue Float, HasType classes value .any →
    (to_wire_value classes value = value ↔ Kept classes value)
  | .none, _ | .bool _, _ | .int _, _ | .float _, _ | .str _, _ => by simp [to_wire_value, Kept]
  | .list items, typed => by
    rw [HasType] at typed
    rw [to_wire_value, Kept, PyValue.list.injEq]
    exact wire_items items typed
  | .dict members, typed => by
    rw [HasType] at typed
    rw [to_wire_value, Kept, PyValue.dict.injEq]
    exact wire_members members typed
  | .dataclass _ _, typed => by simp [HasType] at typed

theorem wire_items : ∀ items : List (PyValue Float), ItemsHaveType classes items .any →
    (wireItems classes items = items ↔ ItemsKept classes items)
  | [], _ => by simp [wireItems, ItemsKept]
  | item :: items, typed => by
    rw [ItemsHaveType] at typed
    rw [wireItems, ItemsKept, List.cons.injEq, wire_json item typed.1, wire_items items typed.2]

theorem wire_members : ∀ members : List (String × PyValue Float),
    MembersHaveType classes members →
    (wireMembers classes members = members ↔ MembersKept classes members)
  | [], _ => by simp [wireMembers, MembersKept]
  | (key, item) :: members, typed => by
    rw [MembersHaveType] at typed
    rw [wireMembers, MembersKept]
    by_cases absent : item = .none
    · rw [if_pos (isNone_iff.mpr absent)]
      refine iff_of_false (fun same => ?_) fun kept => kept.1 absent
      have short := @wireMembers_length _ classes members
      rw [same] at short
      exact absurd short (Nat.not_succ_le_self _)
    · rw [if_neg (mt isNone_iff.mp absent), List.cons.injEq, Prod.mk.injEq,
        wire_json item typed.1, wire_members members typed.2]
      simp [absent]

end

theorem to_wire_value_isNone (value : PyValue Float) :
    (to_wire_value classes value).isNone = value.isNone := by
  cases value <;> simp [to_wire_value, PyValue.isNone]

theorem convertField_absent {fields : List Field} (values : List (PyValue Float)) {field : Field}
    (absent : ∀ other ∈ fields, other.wire_name ≠ field.wire_name) :
    convertField classes otherwise isZero (wireFields classes fields values) field =
      missing field := by
  induction fields generalizing values with
  | nil => cases values <;> simp [wireFields, convertField]
  | cons other fields ih =>
    cases values with
    | nil => simp [wireFields, convertField]
    | cons child values =>
      have later := ih values fun other member => absent other (List.mem_cons_of_mem _ member)
      rw [wireFields]
      split
      · exact later
      · rw [convertField, if_neg (absent other List.mem_cons_self), later]

/-- The argument for a field of a record that was sent. -/
theorem convertField_wireFields {fields : List Field} {values : List (PyValue Float)}
    (distinct : (fields.map Field.wire_name).Nodup) {field : Field} {child : PyValue Float}
    (member : (field, child) ∈ fields.zip values) :
    convertField classes otherwise isZero (wireFields classes fields values) field =
      if child.isNone then missing field
      else convert_value classes otherwise isZero (to_wire_value classes child) field.type := by
  induction fields generalizing values with
  | nil => cases member
  | cons first fields ih =>
    cases values with
    | nil => cases member
    | cons value values =>
      obtain ⟨apart, distinct⟩ := List.nodup_cons.mp distinct
      rw [wireFields]
      rcases List.mem_cons.mp member with same | later
      · cases same
        split
        · refine convertField_absent values fun other member same => apart ?_
          exact same ▸ List.mem_map_of_mem member
        next present => simp [convertField, to_wire_value_isNone, present]
      · have other : first.wire_name ≠ field.wire_name := fun same =>
          apart (same ▸ List.mem_map_of_mem (List.of_mem_zip later).1)
        split
        · exact ih distinct later
        · rw [convertField, if_neg other]
          exact ih distinct later

mutual

/-- A value comes back from the wire just when it holds no `None` in a mapping, nor in a field that
is required. -/
theorem round_trip_iff : ∀ (value : PyValue Float) (type : PyType), HasType classes value type →
    (convert_value classes otherwise isZero (to_wire_value classes value) type = .ok value ↔
      Kept classes value)
  | value, .any, typed => by rw [convert_value, Except.ok.injEq, wire_json value typed]
  | .bool _, .bool, _ | .int _, .int, _ | .float _, .float, _ | .str _, .str, _ => by
    simp [to_wire_value, convert_value, _convert_primitive, Kept]
  | .list items, .list item, typed => by
    rw [HasType] at typed
    rw [to_wire_value, convert_value, bind_eq_ok, Kept, ← round_trip_items items item typed]
    simp [pure, Except.pure]
  | .dataclass cls values, .cls name, typed => by
    rw [HasType] at typed
    obtain ⟨rfl, typed⟩ := typed
    rw [to_wire_value, convert_value, bind_eq_ok, Kept, ← round_trip_fields values _ typed _
      fun _ _ member => convertField_wireFields (classes.distinct cls) member]
    simp [pure, Except.pure]

theorem round_trip_items : ∀ (items : List (PyValue Float)) (item : PyType),
    ItemsHaveType classes items item →
    (convertItems classes otherwise isZero (wireItems classes items) item = .ok items ↔
      ItemsKept classes items)
  | [], _, _ => by simp [wireItems, convertItems, ItemsKept]
  | first :: items, item, typed => by
    rw [ItemsHaveType] at typed
    rw [wireItems, convertItems, ItemsKept, ← round_trip_iff first item typed.1,
      ← round_trip_items items item typed.2]
    simp [bind_eq_ok, pure, Except.pure]

theorem round_trip_fields : ∀ (values : List (PyValue Float)) (fields : List Field),
    FieldsHaveType classes fields values → ∀ convert : Field → Except Failure (PyValue Float),
    (∀ field child, (field, child) ∈ fields.zip values → convert field =
      if child.isNone then missing field
      else convert_value classes otherwise isZero (to_wire_value classes child) field.type) →
    (fields.mapM convert = .ok values ↔ FieldsKept classes fields values)
  | [], [], _, _, _ => by simp [FieldsKept, pure, Except.pure]
  | child :: values, field :: fields, typed, convert, converts => by
    rw [FieldsHaveType] at typed
    have later := round_trip_fields values fields typed.2 convert
      fun other value member => converts other value (List.mem_cons_of_mem _ member)
    rw [mapM_cons_eq_ok, FieldsKept, ← later, converts field child List.mem_cons_self]
    by_cases absent : child = .none
    · subst absent
      cases required : field.required <;> simp [PyValue.isNone, missing, required, Kept]
    · have typed := typed.1.resolve_left fun optional => absent optional.1
      rw [← round_trip_iff child field.type typed, if_neg (mt isNone_iff.mp absent)]
      simp [absent]

end

/-- A record with a free-form field and an optional one. -/
def record : Classes where
  fields cls := if cls = "R" then [⟨"data", .any, true⟩, ⟨"note", .str, false⟩] else []
  distinct cls := by split <;> simp

theorem round_trip_record :
    convert_value record (fun _ _ => .error .other) (fun value : Int => value = 0)
        (to_wire_value record (.dataclass "R" [.list [.none], .none])) (.cls "R") =
      .ok (.dataclass "R" [.list [.none], .none]) :=
  (round_trip_iff (.dataclass "R" [.list [.none], .none]) (.cls "R")
    (by simp [HasType, ItemsHaveType, FieldsHaveType, record])).mpr
    (by simp [Kept, ItemsKept, FieldsKept, record])

/-- A `None` in a mapping does not come back. -/
theorem nested_none_lost :
    ¬ ∀ value : PyValue Int, HasType record value (.cls "R") →
      convert_value record (fun _ _ => .error .other) (fun value : Int => value = 0)
        (to_wire_value record value) (.cls "R") = .ok value := by
  intro same
  have back := same (.dataclass "R" [.dict [("a", .none)], .none])
    (by simp [HasType, MembersHaveType, FieldsHaveType, record])
  have lost : convert_value record (fun _ _ => .error .other) (fun value : Int => value = 0)
      (to_wire_value record (.dataclass "R" [.dict [("a", .none)], .none])) (.cls "R") =
        .ok (.dataclass "R" [.dict [], .none]) := rfl
  simp [lost] at back

end HelixKit.Contracts.Python
