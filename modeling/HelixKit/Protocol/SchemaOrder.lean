/-
Purpose: The order in which the schemas of a contract are generated, for every graph of references
  between them, and the constants that the generated TypeScript uses.
Trusted boundary: none
Main exports: schemas_ordered_iff
-/
import HelixKit.Protocol.GeneratedTypes
import Mathlib.Data.List.Infix
import Mathlib.Logic.Relation

namespace HelixKit.Contracts

open JsonSchema Fallible Relation

/-! ## References -/

section References

variable {schemas : List (Text × Dict)}

/-- A field of the one schema names the other as its items. -/
def Refers (schemas : List (Text × Dict)) (name item : Text) : Prop :=
  ∃ fields, schemas.lookup name = some fields ∧ item ∈ visitedItems fields

def Cyclic (schemas : List (Text × Dict)) : Prop := ∃ name, TransGen (Refers schemas) name name

/-- Schemas, each once, that come after those they refer to. -/
structure Settled (schemas ordered : List (Text × Dict)) : Prop where
  once : (ordered.map Prod.fst).Nodup
  after : ∀ before schema rest, ordered = before ++ schema :: rest →
    ∀ item ∈ visitedItems schema.2, item ∈ schemas.map Prod.fst → item ∈ before.map Prod.fst

theorem Settled.nil : Settled schemas [] where
  once := List.nodup_nil
  after before schema rest split := by simp at split

theorem Settled.snoc {ordered : List (Text × Dict)} (settled : Settled schemas ordered)
    {schema : Text × Dict} (new : schema.1 ∉ ordered.map Prod.fst)
    (below : ∀ item ∈ visitedItems schema.2, item ∈ schemas.map Prod.fst →
      item ∈ ordered.map Prod.fst) : Settled schemas (ordered ++ [schema]) where
  once := by
    rw [List.map_append]
    refine List.Nodup.append settled.once (List.nodup_singleton _) ?_
    intro name inside last
    rw [List.map_singleton, List.mem_singleton] at last
    exact new (last ▸ inside)
  after before found rest split := by
    obtain rfl | ⟨more, last, rfl⟩ := List.eq_nil_or_concat rest
    · obtain ⟨rfl, same⟩ := List.append_inj' split rfl
      cases same
      exact below
    · rw [List.concat_eq_append, ← List.cons_append, ← List.append_assoc] at split
      obtain ⟨rfl, _⟩ := List.append_inj' split rfl
      exact settled.after before found more rfl

/-! ## Visits -/

/-- What a visit keeps of the order, and that it adds no schema it has come from. -/
structure Visits (schemas : List (Text × Dict)) (visiting : List Text)
    (before after : List (Text × Dict)) : Prop where
  settles : Settled schemas before → Settled schemas after
  apart : ∀ name ∈ visiting, name ∈ after.map Prod.fst → name ∈ before.map Prod.fst

variable {visiting : List Text}

theorem Visits.refl (ordered : List (Text × Dict)) :
    Visits schemas visiting ordered ordered :=
  ⟨id, fun _ _ => id⟩

theorem Visits.trans {first second third : List (Text × Dict)}
    (one : Visits schemas visiting first second) (two : Visits schemas visiting second third) :
    Visits schemas visiting first third :=
  ⟨two.settles ∘ one.settles, fun name member => one.apart name member ∘ two.apart name member⟩

theorem visit_of_emitted {name : Text} {ordered : List (Text × Dict)}
    (done : name ∈ ordered.map Prod.fst) : visit schemas visiting name ordered = .ok ordered := by
  rw [visit, if_pos done]

/-- The schemas that the items of a schema name are on the list once all were visited. -/
theorem items_emitted {items : List Text} {before after : List (Text × Dict)}
    (folded : items.foldlM (fun ordered item => visit schemas visiting item ordered) before =
      .ok after) :
    ∀ item ∈ items, item ∈ schemas.map Prod.fst → item ∈ after.map Prod.fst := by
  have steps : ∀ before, ∀ item ∈ items, ∀ after, visit schemas visiting item before = .ok after →
      Grows schemas before after ∧ (item ∈ schemas.map Prod.fst → item ∈ after.map Prod.fst) :=
    fun _ _ _ _ step => ⟨visit_grows step, visit_emits step⟩
  have kept : ∀ (item : Text) before after, Grows schemas before after →
      (item ∈ schemas.map Prod.fst → item ∈ before.map Prod.fst) →
        item ∈ schemas.map Prod.fst → item ∈ after.map Prod.fst := by
    intro item before after grows reached known
    obtain ⟨entry, member, same⟩ := List.mem_map.mp (reached known)
    exact List.mem_map.mpr ⟨entry, grows.kept entry member, same⟩
  exact foldlM_reached Grows.refl Grows.trans steps kept folded

theorem visit_visits {visiting : List Text} {name : Text} {before after : List (Text × Dict)}
    (visited : visit schemas visiting name before = .ok after) :
    Visits schemas visiting before after := by
  by_cases done : name ∈ before.map Prod.fst
  · cases (visit_of_emitted done).symm.trans visited
    exact .refl _
  obtain ⟨rfl, _⟩ | ⟨fields, below, found, fresh, folded, rfl⟩ := visit_cases visited
  · exact .refl _
  · have _shorter := outside_cons_lt found fresh
    have items : Visits schemas (name :: visiting) before below := foldlM_related Visits.refl
      Visits.trans (fun _ _ _ _ step => visit_visits step) folded
    have new : name ∉ below.map Prod.fst := fun member =>
      done (items.apart name List.mem_cons_self member)
    refine ⟨fun settled => (items.settles settled).snoc new (items_emitted folded), ?_⟩
    intro other member emitted
    rw [List.map_append, List.mem_append] at emitted
    obtain old | last := emitted
    · exact items.apart other (List.mem_cons_of_mem _ member) old
    · rw [List.map_singleton, List.mem_singleton] at last
      subst last
      exact absurd member fresh
termination_by (outside schemas visiting).length

/-- A visit fails only at a schema that it has come from. -/
theorem visit_error {visiting : List Text} {name : Text} {ordered : List (Text × Dict)}
    {failure : Text} (failed : visit schemas visiting name ordered = .error failure)
    (path : ∀ earlier ∈ visiting, TransGen (Refers schemas) earlier name) : Cyclic schemas := by
  rw [visit] at failed
  split at failed
  · cases failed
  split at failed
  · cases failed
  next fields found =>
    split at failed
    next fresh =>
      have _shorter := outside_cons_lt found fresh
      obtain stuck | ⟨below, _, impossible⟩ := bind_eq_error.mp failed
      · obtain ⟨item, member, state, stops⟩ := foldlM_error stuck
        refine visit_error stops ?_
        intro earlier reaches
        have last : Refers schemas name item := ⟨fields, found, member⟩
        obtain rfl | older := List.mem_cons.mp reaches
        · exact .single last
        · exact (path earlier older).tail last
      · cases impossible
    next again =>
      exact ⟨name, path name (not_not.mp again)⟩
termination_by (outside schemas visiting).length

/-! ## The order -/

theorem order_settled {ordered : List (Text × Dict)}
    (returned : schemasInDependencyOrder schemas = .ok ordered) : Settled schemas ordered := by
  have visits : Visits schemas [] [] ordered := foldlM_related Visits.refl Visits.trans
    (fun _ _ _ _ step => visit_visits step) returned
  exact visits.settles .nil

theorem order_error {failure : Text} (failed : schemasInDependencyOrder schemas = .error failure) :
    Cyclic schemas := by
  obtain ⟨schema, _, state, stops⟩ := foldlM_error failed
  exact visit_error stops fun _ member => nomatch member

theorem mem_names_of_lookup {name : Text} {fields : Dict}
    (found : schemas.lookup name = some fields) : name ∈ schemas.map Prod.fst := by
  obtain ⟨front, rest, rfl, _⟩ := List.lookup_eq_some_iff.mp found
  simp

/-- Along references the position in the order goes down. -/
theorem transGen_refers_before {ordered : List (Text × Dict)}
    (returned : schemasInDependencyOrder schemas = .ok ordered)
    (keyed : (schemas.map Prod.fst).Nodup) {name item : Text}
    (reaches : TransGen (Refers schemas) name item) (known : item ∈ schemas.map Prod.fst) :
    (ordered.map Prod.fst).idxOf item < (ordered.map Prod.fst).idxOf name := by
  have settled := order_settled returned
  obtain ⟨within, emitted⟩ := dependencyOrder_spec returned
  have one : ∀ {name item : Text}, Refers schemas name item → item ∈ schemas.map Prod.fst →
      (ordered.map Prod.fst).idxOf item < (ordered.map Prod.fst).idxOf name := by
    rintro name item ⟨fields, found, member⟩ known
    obtain ⟨front, back, shape, _⟩ := List.lookup_eq_some_iff.mp found
    have entry : (name, fields) ∈ schemas := shape ▸ List.mem_append_right _ List.mem_cons_self
    obtain ⟨⟨same, others⟩, placed, rfl⟩ := List.mem_map.mp (emitted _ entry)
    have equal : others = fields := by
      have inSchemas := within _ placed
      exact congrArg Prod.snd (List.inj_on_of_nodup_map keyed inSchemas entry rfl)
    subst equal
    obtain ⟨before, rest, split⟩ := List.append_of_mem placed
    have first : item ∈ before.map Prod.fst := settled.after before _ rest split item member known
    have apart : same ∉ before.map Prod.fst := by
      have once := settled.once
      rw [split, List.map_append, List.map_cons] at once
      exact fun inside => (List.nodup_append.mp once).2.2 _ inside _ List.mem_cons_self rfl
    rw [split, List.map_append, List.idxOf_append_of_mem first, List.idxOf_append_of_notMem apart]
    have short := List.idxOf_lt_length_of_mem first
    omega
  induction reaches with
  | single last => exact one last known
  | tail _ last ih =>
    obtain ⟨fields, found, _⟩ := id last
    exact (one last known).trans (ih (mem_names_of_lookup found))

theorem order_error_iff (keyed : (schemas.map Prod.fst).Nodup) :
    (∃ failure, schemasInDependencyOrder schemas = .error failure) ↔ Cyclic schemas := by
  constructor
  · rintro ⟨failure, failed⟩
    exact order_error failed
  · rintro ⟨name, cycle⟩
    cases returned : schemasInDependencyOrder schemas with
    | error failure => exact ⟨failure, rfl⟩
    | ok ordered =>
      have known : name ∈ schemas.map Prod.fst := by
        obtain ⟨next, ⟨fields, found, _⟩, _⟩ := TransGen.head'_iff.mp cycle
        exact mem_names_of_lookup found
      exact absurd (transGen_refers_before returned keyed cycle known) (lt_irrefl _)

theorem order_perm (keyed : (schemas.map Prod.fst).Nodup) {ordered : List (Text × Dict)}
    (returned : schemasInDependencyOrder schemas = .ok ordered) : ordered.Perm schemas := by
  obtain ⟨within, emitted⟩ := dependencyOrder_spec returned
  refine (List.perm_ext_iff_of_nodup (order_settled returned).once.of_map keyed.of_map).mpr
    fun schema => ⟨within schema, fun member => ?_⟩
  obtain ⟨other, placed, same⟩ := List.mem_map.mp (emitted schema member)
  rwa [← List.inj_on_of_nodup_map keyed (within other placed) member same]

end References

/-! ## Constants -/

/-- The items of a field that the generated TypeScript has the constant of. -/
def usedItem (schema : Text) (field : Text × Json) : Option Text :=
  match embeddedCFieldSpec schema field.1 field.2 with
  | .ok (type, _) =>
    if type = text "array" then (items? field.2).filter (!primitiveTypes.contains ·) else none
  | .error _ => none

def usedItems (schema : Text × Dict) : List Text := schema.2.filterMap (usedItem schema.1)

theorem usedItems_visited {schema : Text × Dict} {item : Text} (used : item ∈ usedItems schema) :
    item ∈ visitedItems schema.2 := by
  obtain ⟨field, member, found⟩ := List.mem_filterMap.mp used
  refine List.mem_filterMap.mpr ⟨field, member, ?_⟩
  unfold usedItem at found
  split at found
  · split at found
    · exact (Option.filter_eq_some_iff.mp found).1
    · cases found
  · cases found

/-- The constants in an expression. -/
def Expression.consts : Expression → List Text
  | .string | .number | .boolean | .unknown => []
  | .array item => item.consts
  | .schema const => [const]
  | .int of | .min of _ | .max of _ => of.consts

def Declaration.consts (declaration : Declaration) : List Text :=
  declaration.properties.flatMap fun property => property.schema.consts

/-- No declaration uses a constant that those before it do not define. -/
def DefinedFirst (declarations : List Declaration) : Prop :=
  ∀ before declaration rest, declarations = before ++ declaration :: rest →
    ∀ const ∈ declaration.consts, const ∈ before.map Declaration.const

section Constants

variable {u : Unicode}

@[simp] theorem consts_withInt (type : Text) (definition : Json) (expression : Expression) :
    (withInt type definition expression).consts = expression.consts := by
  unfold withInt
  split <;> rfl

@[simp] theorem consts_withMinimum (definition : Json) (expression : Expression) :
    (withMinimum definition expression).consts = expression.consts := by
  unfold withMinimum
  split <;> rfl

@[simp] theorem consts_withMaximum (definition : Json) (expression : Expression) :
    (withMaximum definition expression).consts = expression.consts := by
  unfold withMaximum
  split <;> rfl

variable {const : Text}

theorem consts_typescriptItems {items : Text} {expression : Expression}
    (typed : typescriptItems u items = .ok expression) (used : const ∈ expression.consts) :
    items ∉ primitiveTypes ∧ identifier u items = .ok const := by
  unfold typescriptItems at typed
  split at typed
  · cases typed
    cases used
  next string =>
  split at typed
  · cases typed
    cases used
  next number =>
  split at typed
  · cases typed
    cases used
  next boolean =>
  split at typed
  · cases typed
    cases used
  next json =>
    obtain ⟨named, returned, rfl⟩ := map_eq_ok.mp typed
    cases List.mem_singleton.mp used
    exact ⟨by simp [primitiveTypes, string, number, boolean, json], returned⟩

theorem consts_typescriptType {type : Text} {definition : Json} {expression : Expression}
    (typed : typescriptType u type definition = .ok expression) (used : const ∈ expression.consts) :
    type = text "array" ∧ ∃ items, items? definition = some items ∧ items ∉ primitiveTypes ∧
      identifier u items = .ok const := by
  unfold typescriptType at typed
  split at typed
  · cases typed
    cases used
  split at typed
  · cases typed
    cases used
  split at typed
  · cases typed
    cases used
  split at typed
  · cases typed
    cases used
  split at typed
  next array =>
    split at typed
    next items found =>
      obtain ⟨item, returned, rfl⟩ := map_eq_ok.mp typed
      exact ⟨array, items, found, consts_typescriptItems returned used⟩
    · cases typed
  · cases typed

/-- A declaration uses the constants of the items of its schema. -/
theorem consts_typescriptDeclaration {schema : Text × Dict} {declaration : Declaration}
    (declared : typescriptDeclaration u schema = .ok declaration)
    (used : const ∈ declaration.consts) :
    ∃ item ∈ usedItems schema, identifier u item = .ok const := by
  obtain ⟨name, _, rest⟩ := bind_eq_ok.mp declared
  obtain ⟨properties, mapped, same⟩ := bind_eq_ok.mp rest
  cases same
  obtain ⟨property, member, inside⟩ := List.mem_flatMap.mp used
  obtain ⟨field, inFields, made⟩ := mem_mapM mapped member
  obtain ⟨⟨type, required⟩, spec, typed⟩ := bind_eq_ok.mp made
  obtain ⟨expression, returned, same⟩ := bind_eq_ok.mp typed
  cases same
  obtain ⟨base, basic, limited⟩ := bind_eq_ok.mp returned
  cases limited
  simp only [consts_withMaximum, consts_withMinimum, consts_withInt] at inside
  obtain ⟨array, items, found, other, named⟩ := consts_typescriptType basic inside
  refine ⟨items, List.mem_filterMap.mpr ⟨field, inFields, ?_⟩, named⟩
  simp [usedItem, spec, array, found, other]

/-! ## Contracts -/

/-- The schemas of a contract are ordered by their references, unless these have a cycle, and a
constant is used after its schema. -/
structure OrderedSchemas (schemas : List (Text × Dict)) : Prop where
  fails : (∃ failure, schemasInDependencyOrder schemas = .error failure) ↔ Cyclic schemas
  perm : ∀ ordered, schemasInDependencyOrder schemas = .ok ordered → ordered.Perm schemas
  after : ∀ ordered, schemasInDependencyOrder schemas = .ok ordered → Settled schemas ordered
  defined : ∀ ordered, schemasInDependencyOrder schemas = .ok ordered →
    ∀ before schema rest, ordered = before ++ schema :: rest →
      ∀ item ∈ usedItems schema, item ∈ before.map Prod.fst

/-- The items of arrays are primitive types and schemas of the contract. -/
def KnownItems (schemas : List (Text × Dict)) : Prop :=
  ∀ schema ∈ schemas, ∀ item ∈ usedItems schema, item ∈ schemas.map Prod.fst

theorem orderedSchemas_iff {schemas : List (Text × Dict)}
    (keyed : (schemas.map Prod.fst).Nodup) :
    OrderedSchemas schemas ↔ Cyclic schemas ∨ KnownItems schemas := by
  constructor
  · intro sorted
    cases returned : schemasInDependencyOrder schemas with
    | error failure => exact .inl (sorted.fails.mp ⟨failure, returned⟩)
    | ok ordered =>
      right
      intro schema member item used
      have same := sorted.perm ordered returned
      obtain ⟨before, rest, split⟩ := List.append_of_mem (same.mem_iff.mpr member)
      have first := sorted.defined ordered returned before schema rest split item used
      have placed : item ∈ ordered.map Prod.fst := by
        rw [split, List.map_append]
        exact List.mem_append_left _ first
      exact (same.map Prod.fst).mem_iff.mp placed
  · intro condition
    refine ⟨order_error_iff keyed, fun _ => order_perm keyed, fun _ => order_settled, ?_⟩
    intro ordered returned before schema rest split item used
    have known : KnownItems schemas := by
      refine condition.resolve_left fun cyclic => ?_
      obtain ⟨failure, failed⟩ := (order_error_iff keyed).mpr cyclic
      cases failed.symm.trans returned
    have member : schema ∈ schemas := (order_perm keyed returned).mem_iff.mp
      (split ▸ List.mem_append_right _ List.mem_cons_self)
    exact (order_settled returned).after before schema rest split item (usedItems_visited used)
      (known schema member item used)

theorem definedFirst_of_known {contract : Contract u}
    (keyed : (contract.schemas.map Prod.fst).Nodup) (known : KnownItems contract.schemas)
    {declarations : List Declaration} (written : typescriptContract contract = .ok declarations) :
    DefinedFirst declarations := by
  obtain ⟨_, _, rest⟩ := bind_eq_ok.mp written
  obtain ⟨ordered, returned, mapped⟩ := bind_eq_ok.mp rest
  rintro before declaration after rfl const used
  obtain ⟨first, schema, last, rfl, earlier, declared⟩ := mapM_split mapped
  obtain ⟨item, inItems, named⟩ := consts_typescriptDeclaration declared used
  have sorted := (orderedSchemas_iff keyed).mpr (.inr known)
  obtain ⟨entry, placed, rfl⟩ := List.mem_map.mp
    (sorted.defined _ returned first schema last rfl item inItems)
  obtain ⟨other, made, shape⟩ := mapM_mem earlier placed
  obtain ⟨const', named', rest⟩ := bind_eq_ok.mp shape
  obtain ⟨properties, _, same⟩ := bind_eq_ok.mp rest
  cases same
  cases named.symm.trans named'
  exact List.mem_map_of_mem (f := Declaration.const) made

/-- The order of every contract is that of its references exactly when no array has items that are
no schema of it, and then every constant of the generated TypeScript is defined before it is
used. -/
theorem schemas_ordered_iff (contract : Contract u)
    (keyed : (contract.schemas.map Prod.fst).Nodup) :
    (OrderedSchemas contract.schemas ↔ Cyclic contract.schemas ∨ KnownItems contract.schemas) ∧
      (KnownItems contract.schemas → ∀ declarations,
        typescriptContract contract = .ok declarations → DefinedFirst declarations) :=
  ⟨orderedSchemas_iff keyed, fun known _ => definedFirst_of_known keyed known⟩

end Constants

/-! ## Lists of users -/

/-- A schema with a list, whose items are named so, before a schema without fields. -/
def listSchemas (items : Text) : Dict :=
  [(text "user_list", .object [(text "users", .object [(text "type", .string (text "array")),
      (text "items", .string items)])]),
    (text "user_id", .object [])]

def listData (items : Text) : Dict :=
  [(text "service", .string (text "users")), (text "methods", .object []),
    (text "schemas", .object (listSchemas items))]

def knownContract : Contract ascii where
  data := listData (text "user_id")
  valid := rfl

/-- The items are no schema, and their constant is that of one. -/
def aliasContract : Contract ascii where
  data := listData (text "user-id")
  valid := rfl

theorem schemas_ordered_known : OrderedSchemas knownContract.schemas :=
  (schemas_ordered_iff knownContract (by decide)).1.mpr (.inr (by unfold KnownItems; decide))

theorem aliasContract_order : schemasInDependencyOrder aliasContract.schemas =
    .ok aliasContract.schemas := by
  have items : ∀ visiting ordered, visit aliasContract.schemas visiting (text "user-id") ordered =
      .ok ordered := by
    intro visiting ordered
    rw [visit]
    split
    · rfl
    · rfl
  have list : visit aliasContract.schemas [] (text "user_list") [] =
      .ok [(text "user_list", [(text "users", .object [(text "type", .string (text "array")),
        (text "items", .string (text "user-id"))])])] := by
    rw [visit, if_neg (by decide)]
    split
    next unknown => cases unknown
    next fields found =>
      cases found
      rw [dif_pos (by decide)]
      change ((visit aliasContract.schemas [text "user_list"] (text "user-id") [] >>= pure) >>=
        fun ordered => _) = _
      rw [items]
      rfl
  have id : ∀ ordered : List (Text × Dict), text "user_id" ∉ ordered.map Prod.fst →
      visit aliasContract.schemas [] (text "user_id") ordered =
        .ok (ordered ++ [(text "user_id", [])]) := by
    intro ordered new
    rw [visit, if_neg new]
    split
    next unknown => cases unknown
    next fields found =>
      cases found
      rw [dif_pos (by decide)]
      rfl
  change (visit aliasContract.schemas [] (text "user_list") [] >>= fun ordered =>
    visit aliasContract.schemas [] (text "user_id") ordered >>= pure) = _
  rw [list]
  change (visit aliasContract.schemas [] (text "user_id") _ >>= pure) = _
  rw [id _ (by decide)]
  rfl

def aliasDeclarations : List Declaration :=
  [{ const := text "userList", properties := [{
      key := text "users", schema := .array (.schema (text "userId")), optional := true }] },
    { const := text "userId", properties := [] }]

/-- The list uses the constant `userIdSchema`, which is defined after it. -/
theorem unknown_items_used_early : ¬ OrderedSchemas aliasContract.schemas ∧
    typescriptContract aliasContract = .ok aliasDeclarations ∧
      ¬ DefinedFirst aliasDeclarations := by
  refine ⟨?_, ?_, ?_⟩
  · intro sorted
    have first := sorted.defined _ aliasContract_order [] _ _ rfl (text "user-id") (by decide)
    cases first
  · unfold typescriptContract
    rw [aliasContract_order]
    rfl
  · intro first
    have used := first [] _ _ rfl (text "userId") (by decide)
    cases used

end HelixKit.Contracts
