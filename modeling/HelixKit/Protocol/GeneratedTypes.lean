/-
Purpose: The two sides that are generated from one contract against each other: which values of a
  Go struct the TypeScript schema takes and reads back as they were.
Trusted boundary: a Go package that compiles has one field for each field of a schema
Main exports: structs_delivered
-/
import HelixKit.Protocol.Contracts

namespace HelixKit.Contracts

open JsonSchema GoValues GoValues.GoValue Fallible

/-! ## The TypeScript module -/

/-- An expression where the constants before it are defined. `True` is not a name in it. -/
def Expression.eval (scope : List (Text × Zod)) : Expression → Option Zod
  | .string => some (.string {})
  | .number => some (.number false {})
  | .boolean => some .boolean
  | .unknown => some .unknown
  | .array item => (item.eval scope).map fun schema => .array schema {}
  | .schema const => scope.lookup const
  | .int of => (of.eval scope).bind Zod.toInt
  | .min of (.number bound) => (of.eval scope).bind (·.min bound)
  | .max of (.number bound) => (of.eval scope).bind (·.max bound)
  | .min _ _ | .max _ _ => none

def proto : Text := text "__proto__"

/-- The argument of `z.object()`. In an object literal `__proto__` is not a key but sets the
prototype. -/
def evalProperties (scope : List (Text × Zod)) : List Property → Option Shape
  | [] => some .nil
  | property :: properties => do
    let schema ← property.schema.eval scope
    let rest ← evalProperties scope properties
    some (if property.key = proto then rest
      else .cons property.key property.optional schema rest)

/-- A constant is declared once. -/
def evalDeclarations : List Declaration → List (Text × Zod) → Option (List (Text × Zod))
  | [], scope => some scope
  | declaration :: declarations, scope =>
    if (scope.lookup declaration.const).isSome then none
    else do
      let shape ← evalProperties scope declaration.properties
      evalDeclarations declarations ((declaration.const, .object shape) :: scope)

/-- The schemas that the generated module exports, when it loads. -/
def typescriptSchemas {u : Unicode} (contract : Contract u) : Option (List (Text × Zod)) :=
  match typescriptContract contract with
  | .ok declarations => evalDeclarations declarations []
  | .error _ => none

/-! ## The Go package -/

def Unicode.goIdentifier (u : Unicode) : Text → Bool
  | [] => false
  | first :: rest => u.isLetter first && rest.all fun char => u.isLetter char || u.isDigit char

/-- What the compiler asks of the declared structs. -/
structure Compiles (u : Unicode) (structs : List GoStruct) : Prop where
  structNames : (structs.map (·.name)).Nodup
  fieldNames : ∀ struct ∈ structs, (struct.fields.map (·.name)).Nodup
  identifiers : ∀ struct ∈ structs, u.goIdentifier struct.name ∧
    ∀ field ∈ struct.fields, u.goIdentifier field.name

/-! ## What corresponds -/

mutual

/-- The schema was generated for the type and the bounds of a field. -/
inductive Generated (structs : List GoStruct) : GoType → Range → Zod → Prop
  | string (range : Range) : Generated structs .string range (.string range)
  | int (range : Range) : Generated structs .int range (.number true range)
  | float64 (range : Range) : Generated structs .float64 range (.number false range)
  | bool : Generated structs .bool {} .boolean
  | rawMessage : Generated structs .rawMessage {} .unknown
  | slice {item : GoType} {schema : Zod} (range : Range)
    (items : Generated structs item {} schema) :
    Generated structs (.slice item) range (.array schema range)
  | named {name : Text} {shape : Shape}
    (fields : ∀ struct ∈ structs, struct.name = name →
      GeneratedFields structs struct.fields shape) :
    Generated structs (.named name) {} (.object shape)

inductive GeneratedFields (structs : List GoStruct) : List GoField → Shape → Prop
  | nil : GeneratedFields structs [] .nil
  | cons {field : GoField} {schema : Zod} {fields : List GoField} {shape : Shape}
    (plain : field.tag ≠ proto) (head : Generated structs field.type field.declared schema)
    (rest : GeneratedFields structs fields shape) :
    GeneratedFields structs (field :: fields) (.cons field.tag field.omitempty schema shape)
  | proto {field : GoField} {fields : List GoField} {shape : Shape} (special : field.tag = proto)
    (rest : GeneratedFields structs fields shape) :
    GeneratedFields structs (field :: fields) shape

end

variable {shape : Shape}

theorem GeneratedFields.keys {structs : List GoStruct} {fields : List GoField}
    (generated : GeneratedFields structs fields shape) {key : Text} (member : key ∈ shape.keys) :
    key ∈ fields.map (·.tag) := by
  induction fields generalizing shape with
  | nil =>
    cases generated
    simp [Shape.keys] at member
  | cons field fields ih =>
    cases generated with
    | cons plain head rest =>
      simp only [Shape.keys, List.mem_cons, List.map_cons] at member ⊢
      exact member.imp id (ih rest)
    | proto special rest => exact List.mem_cons_of_mem _ (ih rest member)

/-! ## Which values arrive -/

mutual

/-- A string and an array have as many units and items as declared, an integer is safe, and no
slice is nil. -/
def Arrives (range : Range) : GoValue → Prop
  | .string value => range.Holds (utf16Length value)
  | .int value => |value| < 2 ^ 53
  | .nilSlice => False
  | .slice items => range.Holds items.length ∧ ItemsArrive items
  | .struct type values => FieldsArrive values type.fields
  | .bool _ | .float64 _ | .rawMessage _ => True

def ItemsArrive : List GoValue → Prop
  | [] => True
  | item :: items => Arrives {} item ∧ ItemsArrive items

/-- An optional field is nil, or the field is one that both sides have, its value arrives and
`omitempty` does not leave it out. -/
def FieldsArrive : List GoValue → List GoField → Prop
  | value :: values, field :: fields =>
    (field.omitempty ∧ value.isNil ∨
      field.tag ≠ proto ∧ field.exported ∧ (field.omitempty → ¬value.isEmpty) ∧
        Arrives field.declared value) ∧
    FieldsArrive values fields
  | _, _ => True

end

/-- The schema accepts what is marshalled and reads the same value back. -/
def Reads (schema : Zod) (value : GoValue) : Prop :=
  ∃ read, schema.parse value.marshal = some read ∧ value.ReadAs read

section Values

variable {structs : List GoStruct}

/-- The object that was sent has each field that is written. -/
def Sent (values : List GoValue) (fields : List GoField) (sent : Dict) : Prop :=
  ∀ value field, (value, field) ∈ values.zip fields →
    sent.lookup field.tag = if written field value then some value.marshal else none

variable {field : GoField}

theorem Sent.tail {value : GoValue} {values : List GoValue}
    {fields : List GoField} {sent : Dict} (whole : Sent (value :: values) (field :: fields) sent) :
    Sent values fields sent :=
  fun value field member => whole value field (List.mem_cons_of_mem _ member)

def ReadFields (shape : Shape) (sent : Dict) (values : List GoValue)
    (fields : List GoField) : Prop :=
  ∃ read, shape.parse sent = some read ∧ FieldsReadAs values fields read

/-- A field that is not in the result is read as nil. -/
theorem readFields_absent {value : GoValue} {values : List GoValue}
    {fields : List GoField} {sent : Dict} (fresh : field.tag ∉ shape.keys) :
    ReadFields shape sent (value :: values) (field :: fields) ↔
      (field.omitempty ∧ value.isNil) ∧ ReadFields shape sent values fields := by
  constructor
  · rintro ⟨read, accepted, reads⟩
    rw [FieldsReadAs, Shape.parse_lookup_none fresh accepted] at reads
    exact ⟨reads.1, read, accepted, reads.2⟩
  · rintro ⟨absent, read, accepted, reads⟩
    refine ⟨read, accepted, ?_⟩
    rw [FieldsReadAs, Shape.parse_lookup_none fresh accepted]
    exact ⟨absent, reads⟩

/-- A field that was sent is parsed on its own. -/
theorem readFields_present {value : GoValue} {values : List GoValue}
    {fields : List GoField} {schema : Zod} {sent : Dict} (fresh : field.tag ∉ fields.map (·.tag))
    (found : sent.lookup field.tag = some value.marshal) :
    ReadFields (.cons field.tag field.omitempty schema shape) sent (value :: values)
        (field :: fields) ↔
      Reads schema value ∧ ReadFields shape sent values fields := by
  have parsed : (Shape.cons field.tag field.omitempty schema shape).parse sent =
      (schema.parse value.marshal).bind fun json =>
        (shape.parse sent).bind fun others => some ((field.tag, json) :: others) := by
    rw [Shape.parse, found]
    rfl
  constructor
  · rintro ⟨read, accepted, reads⟩
    rw [parsed] at accepted
    simp only [Option.bind_eq_some_iff, Option.some.injEq] at accepted
    obtain ⟨json, taken, others, rest, rfl⟩ := accepted
    rw [FieldsReadAs, List.lookup_cons, beq_self_eq_true, fieldsReadAs_cons json fresh] at reads
    exact ⟨⟨json, taken, reads.1⟩, others, rest, reads.2⟩
  · rintro ⟨⟨json, taken, same⟩, others, rest, reads⟩
    refine ⟨(field.tag, json) :: others, ?_, ?_⟩
    · rw [parsed, taken, rest]
      rfl
    · rw [FieldsReadAs, List.lookup_cons, beq_self_eq_true, fieldsReadAs_cons json fresh]
      exact ⟨same, reads⟩

/-- A field that was not sent is skipped when it may be, and then read as nil. -/
theorem readFields_missing {value : GoValue} {values : List GoValue}
    {fields : List GoField} {schema : Zod} {sent : Dict}
    (fresh : field.tag ∉ shape.keys) (missing : sent.lookup field.tag = none) :
    ReadFields (.cons field.tag field.omitempty schema shape) sent (value :: values)
        (field :: fields) ↔
      (field.omitempty ∧ value.isNil) ∧ ReadFields shape sent values fields := by
  by_cases skipped : field.omitempty || schema.isUnknown
  · have parsed : (Shape.cons field.tag field.omitempty schema shape).parse sent =
        shape.parse sent := by
      rw [Shape.parse, missing]
      exact if_pos skipped
    unfold ReadFields
    rw [parsed]
    exact readFields_absent fresh
  · have parsed : (Shape.cons field.tag field.omitempty schema shape).parse sent = none := by
      rw [Shape.parse, missing]
      exact if_neg skipped
    have required : field.omitempty = false := by
      simp only [Bool.or_eq_true, not_or, Bool.not_eq_true] at skipped
      exact skipped.1
    unfold ReadFields
    rw [parsed, required]
    simp

mutual

/-- By the value: what its schema reads back is the value exactly when the value arrives. -/
theorem reads_iff (tags : ∀ struct ∈ structs, (struct.fields.map (·.tag)).Nodup)
    {type : GoType} {range : Range} {schema : Zod}
    (generated : Generated structs type range schema) :
    ∀ value : GoValue, value.Has structs type → InRange range value →
      (Reads schema value ↔ Arrives range value)
  | .string value, has, _ => by
    cases generated <;> try exact has.elim
    simp [Reads, marshal, Zod.parse, ReadAs, Arrives]
  | .bool value, has, _ => by
    cases generated <;> try exact has.elim
    simp [Reads, marshal, Zod.parse, ReadAs, Arrives]
  | .int value, has, within => by
    cases generated <;> try exact has.elim
    have bounds : range.Holds value := within
    simp [Reads, marshal, Zod.parse, ReadAs, Arrives, safeInteger_intCast, bounds]
  | .float64 value, has, within => by
    cases generated <;> try exact has.elim
    have bounds : range.Holds value := within
    simp [Reads, marshal, Zod.parse, ReadAs, Arrives, bounds]
  | .rawMessage held, has, _ => by
    cases generated <;> try exact has.elim
    simp [Reads, marshal, Zod.parse, ReadAs, Arrives]
  | .nilSlice, has, _ => by
    cases generated <;> try exact has.elim
    simp [Reads, marshal, Zod.parse, Arrives]
  | .slice items, has, _ => by
    cases generated <;> try exact has.elim
    rename_i item schema generated
    have below := itemsRead_iff tags generated items has
    have bounds : Reads (.array schema range) (.slice items) ↔ range.Holds items.length ∧
        ∃ read, (marshalItems items).mapM schema.parse = some read ∧ ItemsReadAs items read := by
      simp only [Reads, marshal, Zod.parse, length_marshalItems]
      split
      next holds => simp [holds, ReadAs]
      next fails => simp [fails]
    rw [bounds, below, Arrives]
  | .struct declared values, has, within => by
    cases generated <;> try exact has.elim
    clear within
    rename_i name shape generated
    obtain ⟨member, named, has⟩ := has
    have apart := tags declared member
    have whole : Sent values declared.fields (marshalFields values declared.fields) :=
      fun _ _ inZip => lookup_marshalFields apart inZip
    have below := fieldsRead_iff tags (generated declared member named) apart values has whole
    have object : Reads (.object shape) (.struct declared values) ↔
        ReadFields shape (marshalFields values declared.fields) values declared.fields := by
      simp [Reads, marshal, Zod.parse, ReadAs, ReadFields]
    rw [object, below, Arrives]

theorem itemsRead_iff (tags : ∀ struct ∈ structs, (struct.fields.map (·.tag)).Nodup)
    {type : GoType} {schema : Zod} (generated : Generated structs type {} schema) :
    ∀ items : List GoValue, HasItems structs items type →
      ((∃ read, (marshalItems items).mapM schema.parse = some read ∧ ItemsReadAs items read) ↔
        ItemsArrive items)
  | [], _ => by simp [marshalItems, ItemsReadAs, ItemsArrive]
  | item :: items, has => by
    have head := reads_iff tags generated item has.1 (inRange_any item)
    have rest := itemsRead_iff tags generated items has.2
    rw [ItemsArrive, ← head, ← rest]
    constructor
    · rintro ⟨read, accepted, same⟩
      rw [marshalItems, List.mapM_cons] at accepted
      simp only [Option.bind_eq_bind, Option.bind_eq_some_iff, Option.pure_def,
        Option.some.injEq] at accepted
      obtain ⟨json, taken, others, more, rfl⟩ := accepted
      exact ⟨⟨json, taken, same.1⟩, others, more, same.2⟩
    · rintro ⟨⟨json, taken, same⟩, others, more, reads⟩
      refine ⟨json :: others, ?_, same, reads⟩
      rw [marshalItems, List.mapM_cons, taken, more]
      rfl

theorem fieldsRead_iff (tags : ∀ struct ∈ structs, (struct.fields.map (·.tag)).Nodup)
    {fields : List GoField} {shape : Shape} {sent : Dict}
    (generated : GeneratedFields structs fields shape) (apart : (fields.map (·.tag)).Nodup) :
    ∀ values : List GoValue, HasFields structs values fields → Sent values fields sent →
      (ReadFields shape sent values fields ↔ FieldsArrive values fields)
  | [], has, _ => by
    cases generated with
    | nil => simp [ReadFields, Shape.parse, FieldsReadAs, FieldsArrive]
    | cons => exact has.elim
    | proto => exact has.elim
  | value :: values, has, whole => by
    cases generated with
    | nil => exact has.elim
    | @proto field fields _ special generated =>
      obtain ⟨_, _, has⟩ := has
      rw [List.map_cons, List.nodup_cons] at apart
      have rest := fieldsRead_iff tags generated apart.2 values has whole.tail
      have unread : ¬field.tag ≠ proto := not_not.mpr special
      rw [readFields_absent (fun known => apart.1 (generated.keys known)), rest, FieldsArrive]
      simp [unread]
    | @cons field schema fields shape plain head generated =>
      obtain ⟨hasHead, within, has⟩ := has
      rw [List.map_cons, List.nodup_cons] at apart
      have arrives := reads_iff tags head value hasHead within
      have rest := fieldsRead_iff tags generated apart.2 values has whole.tail
      have found := whole value field List.mem_cons_self
      rw [FieldsArrive, ← rest, ← arrives]
      by_cases sends : written field value
      · rw [if_pos sends] at found
        have kept := written_iff.mp sends
        have filled : ¬(field.omitempty ∧ value.isNil) := fun ⟨optional, empty⟩ =>
          kept.2 optional (isEmpty_of_isNil empty)
        rw [readFields_present apart.1 found]
        have sentOnly : (field.tag ≠ proto ∧ field.exported ∧ (field.omitempty → ¬value.isEmpty) ∧
            Reads schema value) ↔ Reads schema value :=
          ⟨fun ⟨_, _, _, reads⟩ => reads, fun reads => ⟨plain, kept.1, kept.2, reads⟩⟩
        simp only [filled, sentOnly, false_or]
      · rw [if_neg sends] at found
        have dropped := mt written_iff.mpr sends
        rw [readFields_missing (fun known => apart.1 (generated.keys known)) found]
        have unsent : ¬(field.tag ≠ proto ∧ field.exported ∧ (field.omitempty → ¬value.isEmpty) ∧
            Reads schema value) := fun ⟨_, exported, kept, _⟩ => dropped ⟨exported, kept⟩
        simp only [unsent, or_false]

end

end Values

/-! ## The generators -/

section Generators

variable {u : Unicode} {service : Text} {structs : List GoStruct} {scope : List (Text × Zod)}

/-- Every constant in scope was generated for a struct. -/
def Linked (u : Unicode) (service : Text) (structs : List GoStruct)
    (scope : List (Text × Zod)) : Prop :=
  ∀ const zod, scope.lookup const = some zod → ∃ schema, identifier u schema = .ok const ∧
    Generated structs (.named (goStructName u service schema)) {} zod

theorem Linked.generated (linked : Linked u service structs scope) {schema const : Text} {zod : Zod}
    (named : identifier u schema = .ok const) (found : scope.lookup const = some zod) :
    Generated structs (.named (goStructName u service schema)) {} zod := by
  obtain ⟨other, same, generated⟩ := linked const zod found
  have names : pascal u other = pascal u schema := by
    rw [← capitalized_identifier same, ← capitalized_identifier named]
  rwa [goStructName, names] at generated

/-- A method called with a bound, when there is one. -/
def limit (method : Zod → ℚ → Option Zod) (bound : Option ℚ) (schema : Zod) : Option Zod :=
  match bound with
  | some bound => method schema bound
  | none => some schema

@[simp] theorem limit_none (method : Zod → ℚ → Option Zod) : limit method none = some := rfl

@[simp] theorem limit_some (method : Zod → ℚ → Option Zod) (bound : ℚ) :
    limit method (some bound) = fun schema => method schema bound := rfl

variable {definition : Json} {expression : Expression} {zod : Zod}

theorem eval_withMinimum (loaded : (withMinimum definition expression).eval scope = some zod) :
    (expression.eval scope).bind (limit Zod.min (declaredRange definition).minimum) = some zod := by
  unfold withMinimum bound? at loaded
  unfold declaredRange
  cases given : definition.get? (text "minimum") with
  | none => simpa [given] using loaded
  | some value =>
    cases value with
    | number bound => simpa [given, Expression.eval] using loaded
    | bool bound => simp [given, Expression.eval] at loaded
    | _ => simpa [given] using loaded

theorem eval_withMaximum (loaded : (withMaximum definition expression).eval scope = some zod) :
    (expression.eval scope).bind (limit Zod.max (declaredRange definition).maximum) = some zod := by
  unfold withMaximum bound? at loaded
  unfold declaredRange
  cases given : definition.get? (text "maximum") with
  | none => simpa [given] using loaded
  | some value =>
    cases value with
    | number bound => simpa [given, Expression.eval] using loaded
    | bool bound => simp [given, Expression.eval] at loaded
    | _ => simpa [given] using loaded

theorem eval_bounds {base : Zod} (found : expression.eval scope = some base)
    (loaded : (withMaximum definition (withMinimum definition expression)).eval scope = some zod) :
    ∃ lower, limit Zod.min (declaredRange definition).minimum base = some lower ∧
      limit Zod.max (declaredRange definition).maximum lower = some zod := by
  obtain ⟨lower, below, above⟩ := Option.bind_eq_some_iff.mp (eval_withMaximum loaded)
  have limited := eval_withMinimum below
  rw [found, Option.bind_some] at limited
  exact ⟨lower, limited, above⟩

/-- A schema with bounds takes those that were declared. -/
theorem eval_limited (limited : Range → Zod) (low : ∀ range bound,
      (limited range).min bound = some (limited { range with minimum := some bound }))
    (high : ∀ range bound,
      (limited range).max bound = some (limited { range with maximum := some bound }))
    (found : expression.eval scope = some (limited {}))
    (loaded : (withMaximum definition (withMinimum definition expression)).eval scope = some zod) :
    zod = limited (declaredRange definition) := by
  obtain ⟨lower, below, above⟩ := eval_bounds found loaded
  generalize declaredRange definition = range at below above ⊢
  obtain ⟨minimum, maximum⟩ := range
  have raised : lower = limited { minimum } := by
    cases minimum with
    | none => exact (Option.some.inj below).symm
    | some bound => exact (Option.some.inj ((low _ _).symm.trans below)).symm
  subst raised
  cases maximum with
  | none => exact (Option.some.inj above).symm
  | some bound => exact (Option.some.inj ((high _ _).symm.trans above)).symm

/-- A schema without bounds is generated where none were declared. -/
theorem eval_unlimited (base : Zod)
    (low : ∀ bound, base.min bound = none) (high : ∀ bound, base.max bound = none)
    (found : expression.eval scope = some base)
    (loaded : (withMaximum definition (withMinimum definition expression)).eval scope = some zod) :
    zod = base ∧ declaredRange definition = {} := by
  obtain ⟨lower, below, above⟩ := eval_bounds found loaded
  generalize declaredRange definition = range at below above ⊢
  obtain ⟨minimum, maximum⟩ := range
  cases minimum with
  | some bound => simp [low] at below
  | none =>
    cases below
    cases maximum with
    | some bound => simp [high] at above
    | none => exact ⟨(Option.some.inj above).symm, rfl⟩

/-- The items of an array have the type of a primitive or of a struct on both sides. -/
theorem generated_items (linked : Linked u service structs scope) {items : Text}
    (written : typescriptItems u items = .ok expression)
    (loaded : expression.eval scope = some zod) :
    Generated structs ((goPrimitiveType items (.object [])).getD
      (.named (goStructName u service items))) {} zod := by
  unfold typescriptItems at written
  by_cases isString : items = text "string"
  · subst isString
    cases written
    cases loaded
    exact .string {}
  by_cases isNumber : items = text "number"
  · subst isNumber
    cases written
    cases loaded
    exact .float64 {}
  by_cases isBoolean : items = text "boolean"
  · subst isBoolean
    cases written
    cases loaded
    exact .bool
  by_cases isJson : items = text "json"
  · subst isJson
    cases written
    cases loaded
    exact .rawMessage
  simp only [isString, isNumber, isBoolean, isJson, if_false] at written
  obtain ⟨const, named, rfl⟩ := map_eq_ok.mp written
  simp only [goPrimitiveType, isString, isNumber, isBoolean, isJson, if_false, Option.getD_none]
  exact linked.generated named loaded

theorem generated_array (linked : Linked u service structs scope)
    {goType : GoType} {base : Expression}
    (go : goTypeExpr u service (text "array") definition = .ok goType)
    (typed : typescriptType u (text "array") definition = .ok base)
    (loaded : (withMaximum definition (withMinimum definition base)).eval scope = some zod) :
    Generated structs goType (declaredRange definition) zod := by
  have notPrimitive : goPrimitiveType (text "array") definition = none := rfl
  simp only [goTypeExpr, notPrimitive, if_true] at go
  rw [typescriptType, if_neg (by decide), if_neg (by decide), if_neg (by decide),
    if_neg (by decide), if_pos rfl] at typed
  cases given : items? definition with
  | none => simp [given] at go
  | some items =>
    simp only [given] at go typed
    obtain ⟨item, written, rfl⟩ := map_eq_ok.mp typed
    have itemType : goType = .slice ((goPrimitiveType items (.object [])).getD
        (.named (goStructName u service items))) := by
      cases primitive : goPrimitiveType items (.object []) with
      | none => simpa [primitive] using go.symm
      | some type => simpa [primitive] using go.symm
    obtain ⟨lower, below, _⟩ := Option.bind_eq_some_iff.mp (eval_withMaximum loaded)
    obtain ⟨array, found, _⟩ := Option.bind_eq_some_iff.mp (eval_withMinimum below)
    obtain ⟨schema, evaluated, rfl⟩ := Option.map_eq_some_iff.mp found
    have bounds := eval_limited (.array schema) (fun _ _ => rfl) (fun _ _ => rfl) found
      loaded
    rw [itemType, bounds]
    exact .slice _ (generated_items linked written evaluated)

/-- A type and an expression that are generated for one definition correspond. -/
theorem generated_type (linked : Linked u service structs scope) {type : Text} {goType : GoType}
    (go : goTypeExpr u service type definition = .ok goType)
    (written : typescriptSchemaExpression u type definition = .ok expression)
    (loaded : expression.eval scope = some zod) :
    Generated structs goType (declaredRange definition) zod := by
  obtain ⟨base, typed, same⟩ := bind_eq_ok.mp written
  cases same
  by_cases isString : type = text "string"
  · subst isString
    cases typed
    cases go
    rw [withInt_of_ne (by decide)] at loaded
    rw [eval_limited .string (fun _ _ => rfl) (fun _ _ => rfl) rfl loaded]
    exact .string _
  by_cases isNumber : type = text "number"
  · subst isNumber
    cases typed
    rw [withInt_number] at loaded
    have go : (if isTrue definition (text "integer") then GoType.int else .float64) = goType :=
      Except.ok.inj go
    subst go
    cases integer : isTrue definition (text "integer") with
    | true =>
      rw [integer, if_pos rfl] at loaded
      rw [eval_limited (.number true) (fun _ _ => rfl) (fun _ _ => rfl) rfl loaded]
      exact .int _
    | false =>
      rw [integer, if_neg Bool.false_ne_true] at loaded
      rw [eval_limited (.number false) (fun _ _ => rfl) (fun _ _ => rfl) rfl loaded]
      exact .float64 _
  by_cases isBoolean : type = text "boolean"
  · subst isBoolean
    cases typed
    cases go
    rw [withInt_of_ne (by decide)] at loaded
    obtain ⟨rfl, unbounded⟩ :=
      eval_unlimited .boolean (fun _ => rfl) (fun _ => rfl) rfl loaded
    rw [unbounded]
    exact .bool
  by_cases isJson : type = text "json"
  · subst isJson
    cases typed
    cases go
    rw [withInt_of_ne (by decide)] at loaded
    obtain ⟨rfl, unbounded⟩ :=
      eval_unlimited .unknown (fun _ => rfl) (fun _ => rfl) rfl loaded
    rw [unbounded]
    exact .rawMessage
  by_cases isArray : type = text "array"
  · subst isArray
    rw [withInt_of_ne (by decide)] at loaded
    exact generated_array linked go typed loaded
  · simp [typescriptType, isString, isNumber, isBoolean, isJson, isArray] at typed

/-- The fields of a struct and the keys of a shape that are generated for one schema. -/
theorem generated_fields (linked : Linked u service structs scope) {schema : Text} {fields : Dict}
    {goFields : List GoField} {properties : List Property}
    (go : fields.mapM (goField u service schema) = .ok goFields)
    (written : fields.mapM (typescriptProperty u schema) = .ok properties)
    (loaded : evalProperties scope properties = some shape) :
    GeneratedFields structs goFields shape := by
  induction fields generalizing goFields properties shape with
  | nil =>
    cases go
    cases written
    cases loaded
    exact .nil
  | cons field fields ih =>
    obtain ⟨goHead, goRest, goTaken, goMore, rfl⟩ := mapM_cons_eq_ok.mp go
    obtain ⟨property, rest, taken, more, rfl⟩ := mapM_cons_eq_ok.mp written
    obtain ⟨⟨type, required⟩, spec, goReturned⟩ := bind_eq_ok.mp goTaken
    obtain ⟨goType, goTyped, goMade⟩ := bind_eq_ok.mp goReturned
    cases goMade
    obtain ⟨⟨_, _⟩, sameSpec, returned⟩ := bind_eq_ok.mp taken
    cases spec.symm.trans sameSpec
    obtain ⟨expression, typed, made⟩ := bind_eq_ok.mp returned
    cases made
    obtain ⟨zod, evaluated, loaded⟩ := Option.bind_eq_some_iff.mp loaded
    obtain ⟨others, below, made⟩ := Option.bind_eq_some_iff.mp loaded
    cases made
    have generated := generated_type linked goTyped typed evaluated
    have tail := ih goMore more below
    by_cases special : field.1 = proto
    · rw [if_pos special]
      exact .proto special tail
    · rw [if_neg special]
      exact .cons special generated tail

theorem goField_spec {schema : Text} {field : Text × Json} {made : GoField}
    (returned : goField u service schema field = .ok made) :
    made.tag = field.1 ∧ made.name = pascal u field.1 := by
  obtain ⟨_, _, returned⟩ := bind_eq_ok.mp returned
  obtain ⟨_, _, returned⟩ := bind_eq_ok.mp returned
  cases returned
  exact ⟨rfl, rfl⟩

theorem goStruct_spec {schema : Text × Dict} {made : GoStruct}
    (returned : goStruct u service schema = .ok made) :
    made.name = goStructName u service schema.1 ∧
      schema.2.mapM (goField u service schema.1) = .ok made.fields := by
  obtain ⟨fields, mapped, returned⟩ := bind_eq_ok.mp returned
  cases returned
  exact ⟨rfl, mapped⟩

end Generators

section Contracts

variable {u : Unicode} {contract : Contract u} {structs : List GoStruct}

theorem goContract_structs (go : goContract contract = .ok structs) :
    contract.schemas.mapM (goStruct u contract.service) = .ok structs := by
  obtain ⟨made, mapped, returned⟩ := bind_eq_ok.mp go
  obtain ⟨_, _, returned⟩ := bind_eq_ok.mp returned
  cases returned
  exact mapped

/-- Tags are apart, as the names that are made from them are. -/
theorem Compiles.tags (go : goContract contract = .ok structs) (compiles : Compiles u structs)
    {struct : GoStruct} (member : struct ∈ structs) : (struct.fields.map (·.tag)).Nodup := by
  obtain ⟨schema, _, made⟩ := mem_mapM (goContract_structs go) member
  have names : struct.fields.map (·.name) = (struct.fields.map (·.tag)).map (pascal u) := by
    rw [List.map_map]
    refine List.map_congr_left fun field inFields => ?_
    obtain ⟨source, _, returned⟩ := mem_mapM (goStruct_spec made).2 inFields
    obtain ⟨tag, name⟩ := goField_spec returned
    rw [Function.comp_apply, name, tag]
  have apart := compiles.fieldNames struct member
  rw [names] at apart
  exact apart.of_map

/-- The struct of a schema is the one of its name. -/
theorem Compiles.struct_fields (go : goContract contract = .ok structs)
    (compiles : Compiles u structs) {schema : Text × Dict} (member : schema ∈ contract.schemas)
    {struct : GoStruct} (inStructs : struct ∈ structs)
    (named : struct.name = goStructName u contract.service schema.1) :
    schema.2.mapM (goField u contract.service schema.1) = .ok struct.fields := by
  obtain ⟨made, inMade, returned⟩ := mapM_mem (goContract_structs go) member
  obtain ⟨name, fields⟩ := goStruct_spec returned
  have same : made = struct :=
    List.inj_on_of_nodup_map compiles.structNames inMade inStructs (name.trans named.symm)
  rwa [← same]

/-- By the declarations: a module that loads leaves every constant linked, and keeps those that it
had. -/
theorem evalDeclarations_spec (go : goContract contract = .ok structs)
    (compiles : Compiles u structs) {declarations : List Declaration}
    {before after : List (Text × Zod)}
    (declared : ∀ declaration ∈ declarations, ∃ schema ∈ contract.schemas,
      typescriptDeclaration u schema = .ok declaration)
    (loaded : evalDeclarations declarations before = some after)
    (linked : Linked u contract.service structs before) :
    Linked u contract.service structs after ∧
      (∀ const, (before.lookup const).isSome → (after.lookup const).isSome) ∧
      ∀ declaration ∈ declarations, (after.lookup declaration.const).isSome := by
  induction declarations generalizing before with
  | nil =>
    cases loaded
    exact ⟨linked, fun _ known => known, fun _ member => nomatch member⟩
  | cons declaration declarations ih =>
    rw [evalDeclarations] at loaded
    split at loaded
    · cases loaded
    next new =>
      obtain ⟨shape, evaluated, loaded⟩ := Option.bind_eq_some_iff.mp loaded
      obtain ⟨schema, member, made⟩ := declared declaration List.mem_cons_self
      obtain ⟨const, named, returned⟩ := bind_eq_ok.mp made
      obtain ⟨properties, mapped, returned⟩ := bind_eq_ok.mp returned
      cases returned
      have generated : Generated structs (.named (goStructName u contract.service schema.1)) {}
          (.object shape) := .named fun struct inStructs same =>
        generated_fields linked (compiles.struct_fields go member inStructs same) mapped evaluated
      have extended : Linked u contract.service structs ((const, .object shape) :: before) := by
        intro key zod found
        rw [List.lookup_cons] at found
        split at found
        next same =>
          cases found
          exact ⟨schema.1, (eq_of_beq same) ▸ named, generated⟩
        next => exact linked key zod found
      obtain ⟨after_linked, keeps, defines⟩ := ih
        (fun declaration inRest => declared declaration (List.mem_cons_of_mem _ inRest)) loaded
        extended
      refine ⟨after_linked, fun key known => keeps key ?_, fun declaration member => ?_⟩
      · rw [List.lookup_cons]
        split
        · rfl
        · exact known
      · obtain rfl | inRest := List.mem_cons.mp member
        · exact keeps const (by simp)
        · exact defines declaration inRest

/-- The schema that a module exports for a schema of the contract. -/
theorem typescriptSchemas_spec {schemas : List (Text × Zod)}
    (go : goContract contract = .ok structs) (compiles : Compiles u structs)
    (loads : typescriptSchemas contract = some schemas) {schema : Text} {fields : Dict}
    (member : (schema, fields) ∈ contract.schemas) :
    ∃ const zod, identifier u schema = .ok const ∧ schemas.lookup const = some zod ∧
      Generated structs (.named (goStructName u contract.service schema)) {} zod := by
  unfold typescriptSchemas at loads
  split at loads
  next declarations written =>
    obtain ⟨_, _, written⟩ := bind_eq_ok.mp written
    obtain ⟨ordered, order, mapped⟩ := bind_eq_ok.mp written
    obtain ⟨known, emitted⟩ := dependencyOrder_spec order
    have declared : ∀ declaration ∈ declarations, ∃ schema ∈ contract.schemas,
        typescriptDeclaration u schema = .ok declaration := by
      intro declaration inDeclarations
      obtain ⟨schema, inOrder, made⟩ := mem_mapM mapped inDeclarations
      exact ⟨schema, known schema inOrder, made⟩
    obtain ⟨linked, _, defines⟩ := evalDeclarations_spec go compiles declared loads
      (fun _ _ found => nomatch found)
    obtain ⟨⟨_, other⟩, inOrder, rfl⟩ := List.mem_map.mp (emitted (schema, fields) member)
    obtain ⟨declaration, inDeclarations, made⟩ := mapM_mem mapped inOrder
    have found := defines declaration inDeclarations
    obtain ⟨const, named, returned⟩ := bind_eq_ok.mp made
    obtain ⟨_, _, returned⟩ := bind_eq_ok.mp returned
    cases returned
    obtain ⟨zod, found⟩ := Option.isSome_iff_exists.mp found
    exact ⟨const, zod, named, found, linked.generated named found⟩
  · cases loads

end Contracts

/-- The schema that is exported for a schema of the contract accepts the JSON of a Go value and
reads the same value back. -/
def Delivered (u : Unicode) (schemas : List (Text × Zod)) (schema : Text) (value : GoValue) :
    Prop :=
  ∃ const zod, identifier u schema = .ok const ∧ schemas.lookup const = some zod ∧ Reads zod value

/-- Of the values of a generated struct exactly those that arrive are delivered. -/
theorem structs_delivered (u : Unicode) (contract : Contract u) {structs : List GoStruct}
    {schemas : List (Text × Zod)} (go : goContract contract = .ok structs)
    (compiles : Compiles u structs) (loads : typescriptSchemas contract = some schemas)
    {schema : Text} {fields : Dict} (member : (schema, fields) ∈ contract.schemas)
    {value : GoValue} (has : value.Has structs (.named (goStructName u contract.service schema))) :
    Delivered u schemas schema value ↔ Arrives {} value := by
  obtain ⟨const, zod, named, found, generated⟩ := typescriptSchemas_spec go compiles loads member
  have decides := reads_iff (fun _ inStructs => compiles.tags go inStructs) generated value has
    (inRange_any value)
  rw [← decides]
  constructor
  · rintro ⟨_, _, sameName, sameZod, reads⟩
    cases named.symm.trans sameName
    cases found.symm.trans sameZod
    exact reads
  · exact fun reads => ⟨const, zod, named, found, reads⟩

/-! ### The roots of the files service -/

def ascii : Unicode where
  isSpace char := char.isWhitespace
  isLetter char := char.isAlpha
  isDigit char := char.isDigit
  isUpper char := char.isUpper
  lower char := [char.toLower]
  upper char := [char.toUpper]

def rootsFields : Dict :=
  [(text "roots", .object [(text "type", .string (text "array")),
    (text "items", .string (text "string")), (text "required", .bool true)])]

def rootsData : Dict :=
  [(text "service", .string (text "files")),
    (text "schemas", .object [(text "RootsInput", .object []),
      (text "RootsOutput", .object rootsFields)]),
    (text "methods", .object [(text "roots", .object [(text "name", .string (text "roots")),
      (text "outputName", .string (text "roots")), (text "input", .string (text "RootsInput")),
      (text "output", .string (text "RootsOutput"))])])]

def rootsContract : Contract ascii where
  data := rootsData
  valid := rfl

def rootsInput : GoStruct := { name := text "FilesRootsInput", fields := [] }

def rootsOutput : GoStruct where
  name := text "FilesRootsOutput"
  fields := [{
    name := text "Roots"
    type := .slice .string
    tag := text "roots"
    omitempty := false
    exported := true }]

theorem rootsContract_go : goContract rootsContract = .ok [rootsInput, rootsOutput] := rfl

theorem rootsContract_compiles : Compiles ascii [rootsInput, rootsOutput] where
  structNames := by decide
  fieldNames := by decide
  identifiers := by decide

theorem rootsContract_order : schemasInDependencyOrder rootsContract.schemas =
    .ok [(text "RootsInput", []), (text "RootsOutput", rootsFields)] := by
  have input : visit rootsContract.schemas [] (text "RootsInput") [] =
      .ok [(text "RootsInput", [])] := by
    rw [visit]
    rfl
  have items : visit rootsContract.schemas [text "RootsOutput"] (text "string")
      [(text "RootsInput", [])] = .ok [(text "RootsInput", [])] := by
    rw [visit]
    rfl
  have output : visit rootsContract.schemas [] (text "RootsOutput") [(text "RootsInput", [])] =
      .ok [(text "RootsInput", []), (text "RootsOutput", rootsFields)] := by
    rw [visit, if_neg (by decide)]
    split
    next unknown => cases unknown
    next fields found =>
      cases found
      rw [dif_pos (by decide)]
      change ((visit rootsContract.schemas [text "RootsOutput"] (text "string")
        [(text "RootsInput", [])] >>= pure) >>= fun ordered => _) = _
      rw [items]
      rfl
  change (visit rootsContract.schemas [] (text "RootsInput") [] >>= fun ordered =>
    visit rootsContract.schemas [] (text "RootsOutput") ordered >>= pure) = _
  rw [input]
  change (visit rootsContract.schemas [] (text "RootsOutput") [(text "RootsInput", [])] >>=
    pure) = _
  rw [output]
  rfl

def rootsSchemas : List (Text × Zod) :=
  [(text "RootsOutput", .object (.cons (text "roots") false (.array (.string {}) {}) .nil)),
    (text "RootsInput", .object .nil)]

theorem rootsContract_typescript : typescriptSchemas rootsContract = some rootsSchemas := by
  have written : typescriptContract rootsContract =
      [(text "RootsInput", []), (text "RootsOutput", rootsFields)].mapM
        (typescriptDeclaration ascii) := by
    unfold typescriptContract
    rw [rootsContract_order]
    rfl
  unfold typescriptSchemas
  rw [written]
  rfl

theorem rootsOutput_member : (text "RootsOutput", rootsFields) ∈ rootsContract.schemas :=
  List.mem_cons_of_mem _ List.mem_cons_self

def oneRoot : GoValue := .struct rootsOutput [.slice [.string (text "/data")]]

theorem oneRoot_has : oneRoot.Has [rootsInput, rootsOutput]
    (.named (goStructName ascii rootsContract.service (text "RootsOutput"))) :=
  ⟨by decide, rfl, ⟨trivial, trivial⟩, trivial, trivial⟩

theorem structs_delivered_roots : Delivered ascii rootsSchemas (text "RootsOutput") oneRoot :=
  (structs_delivered ascii rootsContract rootsContract_go rootsContract_compiles
    rootsContract_typescript rootsOutput_member oneRoot_has).mpr
    ⟨.inr ⟨by decide, rfl, by decide, Range.holds_any _, Range.holds_any _, trivial⟩, trivial⟩

/-- The zero value of the struct: its required array is a nil slice. -/
def noRoots : GoValue := .struct rootsOutput [.nilSlice]

theorem structs_not_delivered :
    goContract rootsContract = .ok [rootsInput, rootsOutput] ∧
      Compiles ascii [rootsInput, rootsOutput] ∧
      typescriptSchemas rootsContract = some rootsSchemas ∧
      (text "RootsOutput", rootsFields) ∈ rootsContract.schemas ∧
      noRoots.Has [rootsInput, rootsOutput]
        (.named (goStructName ascii rootsContract.service (text "RootsOutput"))) ∧
      noRoots.marshal = .object [(text "roots", .null)] ∧
      ¬Delivered ascii rootsSchemas (text "RootsOutput") noRoots := by
  refine ⟨rootsContract_go, rootsContract_compiles, rootsContract_typescript,
    rootsOutput_member, ⟨by decide, rfl, trivial, trivial, trivial⟩, rfl, ?_⟩
  rintro ⟨const, zod, named, found, read, accepted, _⟩
  cases named
  cases found
  cases accepted

end HelixKit.Contracts
