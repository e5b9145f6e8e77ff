/-
Purpose: Protocol contracts, what their validation accepts, and the Go structs and the TypeScript
  schemas that are generated from them.
Trusted boundary: the character tables of the two languages are parameters; a contract is its JSON
  after the includes were merged into it
-/
import HelixKit.Lib.Fallible
import HelixKit.Lib.GoValues

namespace HelixKit.Contracts

open JsonSchema GoValues Fallible

/-- A dictionary that was read from JSON, in the order of its keys. -/
abbrev Dict := List (Text × Json)

/-- What `str` and `unicode` know about a character. -/
structure Unicode where
  isSpace : Char → Bool
  isLetter : Char → Bool
  isDigit : Char → Bool
  isUpper : Char → Bool
  lower : Char → Text
  upper : Char → Text

def Unicode.blank (u : Unicode) (value : Text) : Bool := value.all u.isSpace

/-! ## Validation -/

def reservedPayloadFields : List Text := [text "requestid", text "requesttype"]

/-- A string that is not blank. -/
def nonEmptyString (u : Unicode) : Option Json → Bool
  | some (.string value) => !u.blank value
  | _ => false

def notGiven : Option Json → Bool
  | none | some .null => true
  | _ => false

def isString : Option Json → Bool
  | some (.string _) => true
  | _ => false

def schemaRoles : List Text := [text "input", text "output", text "error"]

def validateMethod (u : Unicode) (key : Text) (definition : Json) : Except Text Unit := do
  if u.blank key then throw (text "Method keys must be non-empty strings.")
  let .object fields := definition
    | throw (text "Method " ++ key ++ text " must be an object.")
  unless nonEmptyString u (fields.lookup (text "name")) do
    throw (text "Method " ++ key ++ text " must define a non-empty name.")
  let outputName := fields.lookup (text "outputName")
  unless notGiven outputName || nonEmptyString u outputName do
    throw (text "Method " ++ key ++
      text ".outputName must be a non-empty string when provided.")
  for role in schemaRoles do
    unless notGiven (fields.lookup role) || isString (fields.lookup role) do
      throw (text "Method " ++ key ++ text "." ++ role ++ text " must name a schema.")

def validateMessage (u : Unicode) (key : Text) (definition : Json) : Except Text Unit := do
  if u.blank key then throw (text "Message keys must be non-empty strings.")
  let .object fields := definition
    | throw (text "Message " ++ key ++ text " must be an object.")
  unless nonEmptyString u (fields.lookup (text "name")) do
    throw (text "Message " ++ key ++ text " must define a non-empty name.")
  let payload := fields.lookup (text "payload")
  unless notGiven payload || isString payload do
    throw (text "Message " ++ key ++ text ".payload must name a schema.")

/-- `str(field_name).replace("_", "").lower()`. -/
def normalizedField (u : Unicode) (name : Text) : Text :=
  (name.filter (· ≠ '_')).flatMap u.lower

def validateSchema (u : Unicode) (name : Text) (fields : Json) : Except Text Unit := do
  let .object fields := fields | throw (text "Schema " ++ name ++ text " must be an object.")
  for (field, _) in fields do
    if normalizedField u field ∈ reservedPayloadFields then
      throw (text "Schema " ++ name ++ text " contains reserved protocol field " ++ field ++
        text ".")

/-- The schema that a method or a message names under a key is one of the contract. -/
def validateReference (schemas : Dict) (definition : Json) (role : Text) (place : Text) :
    Except Text Unit :=
  match definition.get? role with
  | some (.string schema) =>
    if (schemas.lookup schema).isSome then .ok ()
    else .error (place ++ text "." ++ role ++ text " references unknown schema " ++ schema ++
      text ".")
  | _ => .ok ()

/-- `data.get(key, {})`, which has to be an object. -/
def optionalObject (data : Dict) (key : Text) (error : Text) : Except Text Dict :=
  match data.lookup key with
  | none => .ok []
  | some (.object fields) => .ok fields
  | some _ => .error error

def validateContractData (u : Unicode) (data : Dict) : Except Text Unit := do
  unless nonEmptyString u (data.lookup (text "service")) do
    throw (text "Contract must define a non-empty string field: service.")
  let some (.object methods) := data.lookup (text "methods")
    | throw (text "Contract must define an object field: methods.")
  for (key, definition) in methods do validateMethod u key definition
  let messages ← optionalObject data (text "messages")
    (text "Contract messages must be an object when provided.")
  for (key, definition) in messages do validateMessage u key definition
  let schemas ← optionalObject data (text "schemas")
    (text "Contract schemas must be an object when provided.")
  for (name, fields) in schemas do validateSchema u name fields
  for (key, definition) in methods do
    for role in schemaRoles do
      validateReference schemas definition role (text "Method " ++ key)
  for (key, definition) in messages do
    validateReference schemas definition (text "payload") (text "Message " ++ key)

/-- A contract that was validated. -/
structure Contract (u : Unicode) where
  data : Dict
  valid : validateContractData u data = .ok ()

namespace Contract

variable {u : Unicode}

def service (contract : Contract u) : Text :=
  match contract.data.lookup (text "service") with
  | some (.string service) => service
  | _ => []

def dict (contract : Contract u) (key : Text) : Dict :=
  match contract.data.lookup key with
  | some (.object fields) => fields
  | _ => []

def methods (contract : Contract u) : Dict := contract.dict (text "methods")

/-- The schemas, each with its fields. -/
def schemas (contract : Contract u) : List (Text × Dict) :=
  (contract.dict (text "schemas")).filterMap fun (name, fields) =>
    match fields with
    | .object fields => some (name, fields)
    | _ => none

end Contract

/-! ## Names -/

/-- The parts between dashes and underscores that are not empty. -/
def parts (value : Text) : List Text :=
  (value.splitOnP fun char => char = '-' || char = '_').filter fun part => !part.isEmpty

/-- `part[:1].upper() + part[1:]`. -/
def capitalized (u : Unicode) : Text → Text
  | [] => []
  | first :: rest => u.upper first ++ rest

/-- Unpacking the parts fails when there are none. -/
def identifier (u : Unicode) (value : Text) : Except Text Text :=
  match parts value with
  | [] => .error (text "not enough values to unpack (expected at least 1, got 0)")
  | head :: tail => .ok (head ++ tail.flatMap (capitalized u))

def pascal (u : Unicode) (value : Text) : Text :=
  (parts value).flatMap (capitalized u)

/-- The name of a constant determines the name of a struct. -/
theorem capitalized_identifier {u : Unicode} {value const : Text}
    (named : identifier u value = .ok const) : capitalized u const = pascal u value := by
  unfold identifier at named
  split at named
  · cases named
  next head tail found =>
    have filled : head ≠ [] := by
      have member : head ∈ parts value := found ▸ List.mem_cons_self
      simpa [parts] using (List.mem_filter.mp member).2
    obtain ⟨first, rest, rfl⟩ := List.exists_cons_of_ne_nil filled
    cases named
    simp [pascal, found, capitalized]

def goStructName (u : Unicode) (service schema : Text) : Text :=
  pascal u service ++ pascal u schema

/-! ## Fields -/

/-- The type of a field and whether it is required. -/
def embeddedCFieldSpec (schema field : Text) (definition : Json) : Except Text (Text × Bool) :=
  match definition with
  | .string type => .ok (type, false)
  | .object fields =>
    match fields.lookup (text "type"), fields.lookup (text "required") with
    | some (.string type), none => .ok (type, false)
    | some (.string type), some (.bool required) => .ok (type, required)
    | some (.string _), some _ =>
      .error (text "Field " ++ schema ++ text "." ++ field ++ text ".required must be boolean.")
    | _, _ =>
      .error (text "Field " ++ schema ++ text "." ++ field ++
        text " must define a string type.")
  | _ =>
    .error (text "Field " ++ schema ++ text "." ++ field ++
      text " must be a string type or field definition.")

/-- `definition.get(key) is True` of a dictionary. -/
def isTrue (definition : Json) (key : Text) : Bool :=
  match definition.get? key with
  | some (.bool value) => value
  | _ => false

def items? (definition : Json) : Option Text :=
  match definition.get? (text "items") with
  | some (.string items) => some items
  | _ => none

def primitiveTypes : List Text :=
  [text "string", text "number", text "boolean", text "json"]

/-! ## TypeScript -/

def visitedItems (fields : Dict) : List Text := fields.filterMap fun field => items? field.2

/-- The schemas that a visit has not come from. -/
def outside (schemas : List (Text × Dict)) (visiting : List Text) : List (Text × Dict) :=
  schemas.filter fun schema => schema.1 ∉ visiting

theorem outside_cons_le (schemas : List (Text × Dict)) (visiting : List Text) (name : Text) :
    (outside schemas (name :: visiting)).length ≤ (outside schemas visiting).length := by
  refine (List.monotone_filter_right schemas fun schema apart => ?_).length_le
  simp only [List.mem_cons, not_or, decide_eq_true_eq] at apart ⊢
  exact apart.2

variable {visiting : List Text}

theorem outside_cons_lt {schemas : List (Text × Dict)} {name : Text}
    {fields : Dict} (found : schemas.lookup name = some fields) (fresh : name ∉ visiting) :
    (outside schemas (name :: visiting)).length < (outside schemas visiting).length := by
  obtain ⟨before, after, rfl, _⟩ := List.lookup_eq_some_iff.mp found
  have left := outside_cons_le before visiting name
  have right := outside_cons_le after visiting name
  simp only [outside, List.filter_append, List.length_append, List.filter_cons, List.mem_cons,
    true_or, not_true_eq_false, decide_false, fresh, not_false_eq_true, decide_true, if_true,
    Bool.false_eq_true, if_false, List.length_cons] at left right ⊢
  omega

/-- Schemas are added to the list once those they refer to are on it. -/
def visit (schemas : List (Text × Dict)) (visiting : List Text) (name : Text)
    (ordered : List (Text × Dict)) : Except Text (List (Text × Dict)) :=
  if name ∈ ordered.map Prod.fst then .ok ordered
  else match found : schemas.lookup name with
    | none => .ok ordered
    | some fields =>
      if fresh : name ∉ visiting then do
        have _shorter := outside_cons_lt found fresh
        let ordered ← (visitedItems fields).foldlM
          (fun ordered item => visit schemas (name :: visiting) item ordered) ordered
        .ok (ordered ++ [(name, fields)])
      else .error (text "Contract schemas form a reference cycle at " ++ name ++ text ".")
termination_by (outside schemas visiting).length

def schemasInDependencyOrder (schemas : List (Text × Dict)) :
    Except Text (List (Text × Dict)) :=
  schemas.foldlM (fun ordered schema => visit schemas [] schema.1 ordered) []

/-- What a visit does to the list. -/
structure Grows (schemas before after : List (Text × Dict)) : Prop where
  kept : ∀ schema ∈ before, schema ∈ after
  known : ∀ schema ∈ after, schema ∈ before ∨ schema ∈ schemas

theorem Grows.refl {schemas : List (Text × Dict)} (ordered : List (Text × Dict)) :
    Grows schemas ordered ordered :=
  ⟨fun _ member => member, fun _ member => .inl member⟩

theorem Grows.trans {schemas first second third : List (Text × Dict)}
    (one : Grows schemas first second) (two : Grows schemas second third) :
    Grows schemas first third :=
  ⟨fun schema member => two.kept schema (one.kept schema member), fun schema member =>
    (two.known schema member).elim (one.known schema) .inr⟩

/-- A visit that returned found the schema on the list, or not in the contract, or it came after
those that it refers to. -/
theorem visit_cases {schemas : List (Text × Dict)} {name : Text}
    {before after : List (Text × Dict)} (visited : visit schemas visiting name before = .ok after) :
    (after = before ∧ (name ∈ before.map Prod.fst ∨ schemas.lookup name = none)) ∨
      ∃ fields below, schemas.lookup name = some fields ∧ name ∉ visiting ∧
        (visitedItems fields).foldlM
          (fun ordered item => visit schemas (name :: visiting) item ordered) before = .ok below ∧
        after = below ++ [(name, fields)] := by
  rw [visit] at visited
  split at visited
  next done =>
    cases visited
    exact .inl ⟨rfl, .inl done⟩
  next new =>
    split at visited
    next unknown =>
      cases visited
      exact .inl ⟨rfl, .inr unknown⟩
    next fields found =>
      split at visited
      next fresh =>
        obtain ⟨below, folded, returned⟩ := bind_eq_ok.mp visited
        exact .inr ⟨fields, below, found, fresh, folded, (Except.ok.inj returned).symm⟩
      next cycle => cases visited

theorem visit_grows {schemas : List (Text × Dict)} {visiting : List Text} {name : Text}
    {before after : List (Text × Dict)} (visited : visit schemas visiting name before = .ok after) :
    Grows schemas before after := by
  obtain ⟨rfl, _⟩ | ⟨fields, below, found, fresh, folded, rfl⟩ := visit_cases visited
  · exact .refl _
  · have _shorter := outside_cons_lt found fresh
    have items : Grows schemas before below := foldlM_related Grows.refl Grows.trans
      (fun _ _ _ _ step => visit_grows step) folded
    refine ⟨fun schema member => List.mem_append_left _ (items.kept schema member),
      fun schema member => ?_⟩
    obtain old | new := List.mem_append.mp member
    · exact items.known schema old
    · rw [List.mem_singleton.mp new]
      obtain ⟨front, rest, rfl, _⟩ := List.lookup_eq_some_iff.mp found
      exact .inr (List.mem_append_right _ List.mem_cons_self)
termination_by (outside schemas visiting).length

theorem visit_emits {schemas : List (Text × Dict)} {name : Text}
    {before after : List (Text × Dict)} (visited : visit schemas visiting name before = .ok after)
    (known : name ∈ schemas.map Prod.fst) : name ∈ after.map Prod.fst := by
  obtain ⟨rfl, done | unknown⟩ | ⟨fields, below, found, fresh, folded, rfl⟩ := visit_cases visited
  · exact done
  · obtain ⟨⟨key, fields⟩, member, rfl⟩ := List.mem_map.mp known
    have apart := List.lookup_eq_none_iff.mp unknown (key, fields) member
    simp at apart
  · simp

/-- The order has all schemas of the contract and no others. -/
theorem dependencyOrder_spec {schemas ordered : List (Text × Dict)}
    (returned : schemasInDependencyOrder schemas = .ok ordered) :
    (∀ schema ∈ ordered, schema ∈ schemas) ∧
      ∀ schema ∈ schemas, schema.1 ∈ ordered.map Prod.fst := by
  have grows : Grows schemas [] ordered := foldlM_related Grows.refl Grows.trans
    (fun _ _ _ _ step => visit_grows step) returned
  refine ⟨fun schema member => (grows.known schema member).resolve_left List.not_mem_nil, ?_⟩
  have steps : ∀ before, ∀ schema ∈ schemas, ∀ after,
      visit schemas [] schema.1 before = .ok after →
        Grows schemas before after ∧ schema.1 ∈ after.map Prod.fst :=
    fun _ schema member _ step =>
      ⟨visit_grows step, visit_emits step (List.mem_map_of_mem member)⟩
  have kept : ∀ (schema : Text × Dict) before after, Grows schemas before after →
      schema.1 ∈ before.map Prod.fst → schema.1 ∈ after.map Prod.fst := by
    intro schema before after grows emitted
    obtain ⟨entry, member, same⟩ := List.mem_map.mp emitted
    exact List.mem_map.mpr ⟨entry, grows.kept entry member, same⟩
  exact foldlM_reached Grows.refl Grows.trans steps kept returned

/-- The expressions that are generated for the type of a field. A reference is to the constant of
a schema, and a bound is as the contract has it. -/
inductive Expression where
  | string
  | number
  | boolean
  | unknown
  | array (item : Expression)
  | schema (const : Text)
  | int (of : Expression)
  | min (of : Expression) (bound : Json)
  | max (of : Expression) (bound : Json)

def typescriptItems (u : Unicode) (items : Text) : Except Text Expression :=
  if items = text "string" then .ok .string
  else if items = text "number" then .ok .number
  else if items = text "boolean" then .ok .boolean
  else if items = text "json" then .ok .unknown
  else (identifier u items).map .schema

def typescriptType (u : Unicode) (type : Text) (definition : Json) : Except Text Expression :=
  if type = text "string" then .ok .string
  else if type = text "number" then .ok .number
  else if type = text "boolean" then .ok .boolean
  else if type = text "json" then .ok .unknown
  else if type = text "array" then
    match items? definition with
    | some items => (typescriptItems u items).map .array
    | none =>
      .error (text "TypeScript array fields must define a type or schema name in items.")
  else .error (text "Unsupported TypeScript field type: " ++ type)

/-- A bound that is an instance of `(int, float)`, as `True` and `False` are. -/
def bound? (definition : Json) (key : Text) : Option Json :=
  match definition.get? key with
  | some (.number value) => some (.number value)
  | some (.bool value) => some (.bool value)
  | _ => none

def withInt (type : Text) (definition : Json) (expression : Expression) : Expression :=
  if isTrue definition (text "integer") && type = text "number" then .int expression
  else expression

theorem withInt_of_ne {type : Text} (other : type ≠ text "number") (definition : Json)
    (expression : Expression) : withInt type definition expression = expression := by
  simp [withInt, other]

theorem withInt_number (definition : Json) (expression : Expression) :
    withInt (text "number") definition expression =
      if isTrue definition (text "integer") then .int expression else expression := by
  simp [withInt]

def withMinimum (definition : Json) (expression : Expression) : Expression :=
  match bound? definition (text "minimum") with
  | some bound => .min expression bound
  | none => expression

def withMaximum (definition : Json) (expression : Expression) : Expression :=
  match bound? definition (text "maximum") with
  | some bound => .max expression bound
  | none => expression

def typescriptSchemaExpression (u : Unicode) (type : Text) (definition : Json) :
    Except Text Expression := do
  let expression ← typescriptType u type definition
  return withMaximum definition (withMinimum definition (withInt type definition expression))

structure Property where
  key : Text
  schema : Expression
  optional : Bool

/-- `export const …Schema = z.object({…})`. -/
structure Declaration where
  const : Text
  properties : List Property

def typescriptProperty (u : Unicode) (schema : Text) (field : Text × Json) :
    Except Text Property := do
  let (type, required) ← embeddedCFieldSpec schema field.1 field.2
  let expression ← typescriptSchemaExpression u type field.2
  return { key := field.1, schema := expression, optional := !required }

def typescriptDeclaration (u : Unicode) (schema : Text × Dict) : Except Text Declaration := do
  let const ← identifier u schema.1
  let properties ← schema.2.mapM (typescriptProperty u schema.1)
  return { const, properties }

def typescriptContract {u : Unicode} (contract : Contract u) : Except Text (List Declaration) := do
  let _ ← identifier u contract.service
  let ordered ← schemasInDependencyOrder contract.schemas
  ordered.mapM (typescriptDeclaration u)

/-! ## Go -/

def goPrimitiveType (type : Text) (definition : Json) : Option GoType :=
  if type = text "string" then some .string
  else if type = text "boolean" then some .bool
  else if type = text "number" then
    some (if isTrue definition (text "integer") then .int else .float64)
  else if type = text "json" then some .rawMessage
  else none

def goTypeExpr (u : Unicode) (service type : Text) (definition : Json) : Except Text GoType :=
  match goPrimitiveType type definition with
  | some primitive => .ok primitive
  | none =>
    if type = text "array" then
      match items? definition with
      | none => .error (text "Go array fields must define a type or schema name in items.")
      | some item =>
        match goPrimitiveType item (.object []) with
        | some primitive => .ok (.slice primitive)
        | none => .ok (.slice (.named (goStructName u service item)))
    else .error (text "Unsupported Go field type: " ++ type)

/-- The bounds a field declares. -/
def declaredRange (definition : Json) : Range where
  minimum := match definition.get? (text "minimum") with
    | some (.number bound) => some bound
    | _ => none
  maximum := match definition.get? (text "maximum") with
    | some (.number bound) => some bound
    | _ => none

/-- Go exports a field whose name starts with an upper-case letter. -/
def goField (u : Unicode) (service schema : Text) (field : Text × Json) :
    Except Text GoField := do
  let (type, required) ← embeddedCFieldSpec schema field.1 field.2
  let goType ← goTypeExpr u service type field.2
  return {
    name := pascal u field.1
    type := goType
    tag := field.1
    omitempty := !required
    exported := (pascal u field.1).head?.any u.isUpper
    declared := declaredRange field.2 }

def goStruct (u : Unicode) (service : Text) (schema : Text × Dict) : Except Text GoStruct := do
  let fields ← schema.2.mapM (goField u service schema.1)
  return { name := goStructName u service schema.1, fields }

def methodIoSchemas (key : Text) (definition : Json) : Except Text Unit :=
  if isString (definition.get? (text "input")) && isString (definition.get? (text "output")) then
    .ok ()
  else .error (text "Method " ++ key ++
    text " must name both input and output schemas for Go/Python targets.")

def goContract {u : Unicode} (contract : Contract u) : Except Text (List GoStruct) := do
  let structs ← contract.schemas.mapM (goStruct u contract.service)
  for (key, definition) in contract.methods do methodIoSchemas key definition
  return structs

end HelixKit.Contracts
