/-
Purpose: The JavaScript data that the backend works on: strings, values, the objects
  it uses as records, and what is left of a value that was stored as JSON.
Trusted boundary: none
-/
import Mathlib.Data.Nat.Digits.Defs
import Mathlib.Data.List.Basic

namespace HelixKit.Backend

/-- A JavaScript string: its UTF-16 code units. -/
abbrev JsString := List UInt16

def decimal (n : Nat) : JsString :=
  (Nat.toDigits 10 n).map fun digit => UInt16.ofNat digit.toNat

/-- The code units of an ASCII text. -/
def js (text : String) : JsString :=
  text.toList.map fun char => UInt16.ofNat char.toNat

/-- Data, without functions and prototypes of its own. A number is its 64 bits, and
the properties of an object are in the order they were added. -/
inductive JsValue where
  | undefined
  | null
  | boolean (value : Bool)
  | number (bits : UInt64)
  | string (value : JsString)
  | array (items : List JsValue)
  | object (fields : List (JsString × JsValue))
deriving Repr

abbrev Fields := List (JsString × JsValue)

def indexed (items : List JsValue) : Fields :=
  items.mapIdx fun index item => (decimal index, item)

/-- The enumerable properties of a value itself. -/
def JsValue.fields : JsValue → Fields
  | .object fields => fields
  | .array items => indexed items
  | .string value => indexed (value.map fun unit => .string [unit])
  | .undefined | .null | .boolean _ | .number _ => []

def JsValue.get (value : JsValue) (key : JsString) : JsValue :=
  (value.fields.lookup key).getD .undefined

/-- `value === true`. -/
def JsValue.isTrue : JsValue → Bool
  | .boolean value => value
  | _ => false

/-! ### Stored as JSON -/

/-- NaN and the infinities become null, and -0 becomes 0. -/
def jsonNumber (bits : UInt64) : JsValue :=
  if (bits >>> 52) &&& 0x7FF = 0x7FF then .null
  else if bits = 0x8000000000000000 then .number 0
  else .number bits

mutual

/-- `JSON.parse(JSON.stringify(value))`. -/
def JsValue.json : JsValue → JsValue
  | .number bits => jsonNumber bits
  | .array items => .array (jsonItems items)
  | .object fields => .object (jsonFields fields)
  | .undefined => .undefined
  | .null => .null
  | .boolean value => .boolean value
  | .string value => .string value

def jsonItems : List JsValue → List JsValue
  | [] => []
  | .undefined :: rest => .null :: jsonItems rest
  | item :: rest => item.json :: jsonItems rest

def jsonFields : List (JsString × JsValue) → List (JsString × JsValue)
  | [] => []
  | (_, .undefined) :: rest => jsonFields rest
  | (key, value) :: rest => (key, value.json) :: jsonFields rest

end

/-- Nothing of the value is lost when it is stored. -/
def JsValue.Stable (value : JsValue) : Prop :=
  value.json = value

theorem jsonFields_stable {fields : Fields}
    (stable : ∀ field ∈ fields, field.2 ≠ .undefined ∧ field.2.Stable) :
    jsonFields fields = fields := by
  induction fields with
  | nil => rfl
  | cons field rest ih =>
    obtain ⟨key, value⟩ := field
    obtain ⟨defined, same⟩ := stable (key, value) List.mem_cons_self
    have later := ih fun other member => stable other (List.mem_cons_of_mem _ member)
    cases value <;> simp_all [jsonFields, JsValue.Stable]

/-! ### Records -/

/-- An object that the code uses as a record. `proto` is the prototype that an
assignment to `__proto__` gave it. -/
structure JsObject where
  own : Fields := []
  proto : Option JsValue := none
deriving Repr

def protoKey : JsString := js "__proto__"

/-- Whether `__proto__` is the accessor of Object.prototype, which reads and sets the
prototype, and not a property like any other. -/
def JsObject.accessor (object : JsObject) : Bool :=
  (object.own.lookup protoKey).isNone &&
    match object.proto with
    | none => true
    | some .null => false
    | some proto => (proto.fields.lookup protoKey).isNone

/-- `object[key]`. What Object.prototype has for every object has no properties that
could be copied, and reads as undefined here. -/
def JsObject.get (object : JsObject) (key : JsString) : JsValue :=
  match object.own.lookup key, object.proto with
  | some value, _ => value
  | none, none => .undefined
  | none, some proto => if key = protoKey ∧ object.accessor then proto else proto.get key

def setOwn (key : JsString) (value : JsValue) : Fields → Fields
  | [] => [(key, value)]
  | field :: rest => if field.1 = key then (key, value) :: rest else field :: setOwn key value rest

/-- `object[key] = value`. -/
def JsObject.set (object : JsObject) (key : JsString) (value : JsValue) : JsObject :=
  if key = protoKey ∧ object.accessor then
    match value with
    | .null | .array _ | .object _ => { object with proto := some value }
    | .undefined | .boolean _ | .number _ | .string _ => object
  else { object with own := setOwn key value object.own }

/-- `Object.assign(object, source)`. -/
def JsObject.assign (object : JsObject) (source : JsValue) : JsObject :=
  source.fields.foldl (fun object field => object.set field.1 field.2) object

/-- `{ ...object }`. -/
def JsObject.spread (object : JsObject) : JsObject :=
  { own := object.own }

theorem mem_setOwn {key : JsString} {value : JsValue} {fields : Fields}
    {field : JsString × JsValue} (member : field ∈ setOwn key value fields) :
    field = (key, value) ∨ field ∈ fields := by
  induction fields with
  | nil => exact .inl (List.mem_singleton.mp member)
  | cons first rest ih =>
    simp only [setOwn] at member
    split at member
    · exact (List.mem_cons.mp member).imp_right (List.mem_cons_of_mem first)
    · rcases List.mem_cons.mp member with rfl | later
      · exact .inr List.mem_cons_self
      · exact (ih later).imp_right (List.mem_cons_of_mem first)

/-- An assignment adds no property but its own. -/
theorem JsObject.mem_set {object : JsObject} {key : JsString} {value : JsValue}
    {field : JsString × JsValue} (member : field ∈ (object.set key value).own) :
    field = (key, value) ∨ field ∈ object.own := by
  unfold JsObject.set at member
  split at member
  · cases value <;> exact .inr member
  · exact mem_setOwn member

end HelixKit.Backend
