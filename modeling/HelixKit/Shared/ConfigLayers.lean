/-
Purpose: The layers of a service's config: JSON files that are read, laid over each other, and
  written again.
Trusted boundary: a string is what encoding/json reads it as
Main exports: mergeJSONFiles_iff
-/
import HelixKit.Lib.Float64
import HelixKit.Lib.JsonSchema
import HelixKit.Lib.Overlay

namespace HelixKit.Shared

open HelixKit.Float64 HelixKit.Overlay
open HelixKit.JsonSchema (Json Text)

/-! ## Values -/

mutual

/-- The value with every number in it changed. -/
def mapNumbers (f : ℚ → ℚ) : Json → Json
  | .number value => .number (f value)
  | .array items => .array (mapItems f items)
  | .object fields => .object (mapMembers f fields)
  | .null => .null
  | .bool value => .bool value
  | .string value => .string value

def mapItems (f : ℚ → ℚ) : List Json → List Json
  | [] => []
  | item :: rest => mapNumbers f item :: mapItems f rest

def mapMembers (f : ℚ → ℚ) : List (Text × Json) → List (Text × Json)
  | [] => []
  | (key, value) :: rest => (key, mapNumbers f value) :: mapMembers f rest

end

mutual

/-- The numbers of a value. -/
def numbers : Json → List ℚ
  | .number value => [value]
  | .array items => itemNumbers items
  | .object fields => memberNumbers fields
  | .null | .bool _ | .string _ => []

def itemNumbers : List Json → List ℚ
  | [] => []
  | item :: rest => numbers item ++ itemNumbers rest

def memberNumbers : List (Text × Json) → List ℚ
  | [] => []
  | (_, value) :: rest => numbers value ++ memberNumbers rest

end

mutual

/-- How many arrays and objects are open at once. -/
def depth : Json → Nat
  | .array items => itemDepth items + 1
  | .object fields => memberDepth fields + 1
  | .null | .bool _ | .number _ | .string _ => 0

def itemDepth : List Json → Nat
  | [] => 0
  | item :: rest => max (depth item) (itemDepth rest)

def memberDepth : List (Text × Json) → Nat
  | [] => 0
  | (_, value) :: rest => max (depth value) (memberDepth rest)

end

/-- The members with this one set. -/
def setMember (members : List (Text × Json)) (key : Text) (value : Json) : List (Text × Json) :=
  match members with
  | [] => [(key, value)]
  | (other, old) :: rest =>
    if other = key then (key, value) :: rest else (other, old) :: setMember rest key value

mutual

/-- The value, where the last of several members of one name counts. -/
def settle : Json → Json
  | .array items => .array (settleItems items)
  | .object fields => .object (settleMembers [] fields)
  | .null => .null
  | .bool value => .bool value
  | .number value => .number value
  | .string value => .string value

def settleItems : List Json → List Json
  | [] => []
  | item :: rest => settle item :: settleItems rest

def settleMembers (done : List (Text × Json)) : List (Text × Json) → List (Text × Json)
  | [] => done
  | (key, value) :: rest => settleMembers (setMember done key (settle value)) rest

end

mutual

/-- The value as maps within maps; what is no object is a leaf. -/
def toDoc : Json → Doc Text Json
  | .object fields => .node (toFields [] fields)
  | .array items => .leaf (.array (settleItems items))
  | .null => .leaf .null
  | .bool value => .leaf (.bool value)
  | .number value => .leaf (.number value)
  | .string value => .leaf (.string value)

def toFields (done : Fields Text Json) : List (Text × Json) → Fields Text Json
  | [] => done
  | (key, value) :: rest => toFields (put done key (toDoc value)) rest

end

/-! ## Files -/

inductive File where
  | missing
  | unreadable
  | holds (json : Json)

def maxNestingDepth : Nat := 10000

/-- A number as it is held, and as it is written: none of a file that is read is out of range. -/
def held (number : ℚ) : ℚ := (parseFloat number).getD 0

/-- `json.Unmarshal` into a `map[string]any`, which may be nil; none is an error. -/
def unmarshal (json : Json) : Option (Option (Fields Text Json)) :=
  if maxNestingDepth < depth json then none
  else
    match json with
    | .null => some none
    | .object members =>
      if (numbers json).all fun number => (parseFloat number).isSome then
        some (some (mapFields (mapNumbers held) (toFields [] members)))
      else none
    | .bool _ | .number _ | .string _ | .array _ => none

/-- `deepMerge`; a nil map has no keys. -/
def deepMerge (dst src : Fields Text Json) : Fields Text Json := merge dst src

/-- The loop of `mergeJSONFiles` from a map on. -/
def mergeFrom (acc : Option (Fields Text Json)) : List File → Option (Option (Fields Text Json))
  | [] => some acc
  | .missing :: rest => mergeFrom acc rest
  | .unreadable :: _ => none
  | .holds json :: rest =>
    match unmarshal json with
    | none => none
    | some layer =>
      match acc with
      | none => mergeFrom layer rest
      | some dst => mergeFrom (some (deepMerge dst (layer.getD []))) rest

/-- `mergeJSONFiles`: an error, nothing, or the maps that are written. -/
def mergeJSONFiles (files : List File) : Option (Option (Fields Text Json)) :=
  (mergeFrom none files).map fun acc => acc.map (mapFields (mapNumbers shortest))

/-! ## What the merge is to be -/

/-- A layer: a missing file, or the members of the object in it. -/
abbrev Layer := Option (List (Text × Json))

def Layer.file : Layer → File
  | none => .missing
  | some members => .holds (.object members)

/-- The maps of the layers that are there. -/
def present (layers : List Layer) : List (Fields Text Json) :=
  (layers.filterMap id).map (toFields [])

/-- What comes out is the left fold of the layers, and has at each path what the last layer has
there that is not silent about it. -/
structure Merged (layers : List Layer) (result : Option (Option (Fields Text Json))) : Prop where
  nothing : present layers = [] → result = some none
  folds : ∀ base rest, present layers = base :: rest → ∃ out, result = some (some out) ∧
    Same (.node out) (.node (rest.foldl deepMerge base)) ∧
    ∀ path, (Doc.node out).at? path = lastWord (present layers) path

/-- A layer that can be read. -/
def Reads (members : List (Text × Json)) : Prop :=
  depth (.object members) ≤ maxNestingDepth ∧
    ∀ number ∈ numbers (.object members), (parseFloat number).isSome = true

/-- The layers can be read, and the numbers that the merge keeps are those that a double keeps. -/
structure Survives (layers : List Layer) : Prop where
  read : ∀ members, some members ∈ layers → Reads members
  kept : ∀ path value, lastWord (present layers) path = some (.leaf value) →
    ∀ number ∈ numbers value, shortest (held number) = number

/-! ## Numbers -/

mutual

theorem mapNumbers_mapNumbers (f g : ℚ → ℚ) : (json : Json) →
    mapNumbers f (mapNumbers g json) = mapNumbers (fun number => f (g number)) json
  | .number value => by simp [mapNumbers]
  | .array items => by
    simp only [mapNumbers]
    rw [mapItems_mapItems f g items]
  | .object fields => by
    simp only [mapNumbers]
    rw [mapMembers_mapMembers f g fields]
  | .null => by simp [mapNumbers]
  | .bool value => by simp [mapNumbers]
  | .string value => by simp [mapNumbers]

theorem mapItems_mapItems (f g : ℚ → ℚ) : (items : List Json) →
    mapItems f (mapItems g items) = mapItems (fun number => f (g number)) items
  | [] => by simp [mapItems]
  | item :: rest => by
    simp only [mapItems]
    rw [mapNumbers_mapNumbers f g item, mapItems_mapItems f g rest]

theorem mapMembers_mapMembers (f g : ℚ → ℚ) : (fields : List (Text × Json)) →
    mapMembers f (mapMembers g fields) = mapMembers (fun number => f (g number)) fields
  | [] => by simp [mapMembers]
  | (key, value) :: rest => by
    simp only [mapMembers]
    rw [mapNumbers_mapNumbers f g value, mapMembers_mapMembers f g rest]

end

mutual

/-- A value is left as it is exactly when each of its numbers is. -/
theorem mapNumbers_eq_self (f : ℚ → ℚ) : (json : Json) →
    (mapNumbers f json = json ↔ ∀ number ∈ numbers json, f number = number)
  | .number value => by simp [mapNumbers, numbers]
  | .array items => by
    simp only [mapNumbers, numbers, Json.array.injEq]
    exact mapItems_eq_self f items
  | .object fields => by
    simp only [mapNumbers, numbers, Json.object.injEq]
    exact mapMembers_eq_self f fields
  | .null => by simp [mapNumbers, numbers]
  | .bool value => by simp [mapNumbers, numbers]
  | .string value => by simp [mapNumbers, numbers]

theorem mapItems_eq_self (f : ℚ → ℚ) : (items : List Json) →
    (mapItems f items = items ↔ ∀ number ∈ itemNumbers items, f number = number)
  | [] => by simp [mapItems, itemNumbers]
  | item :: rest => by
    simp only [mapItems, itemNumbers, List.cons.injEq, List.forall_mem_append]
    rw [mapNumbers_eq_self f item, mapItems_eq_self f rest]

theorem mapMembers_eq_self (f : ℚ → ℚ) : (fields : List (Text × Json)) →
    (mapMembers f fields = fields ↔ ∀ number ∈ memberNumbers fields, f number = number)
  | [] => by simp [mapMembers, memberNumbers]
  | (key, value) :: rest => by
    simp only [mapMembers, memberNumbers, List.cons.injEq, Prod.mk.injEq, true_and,
      List.forall_mem_append]
    rw [mapNumbers_eq_self f value, mapMembers_eq_self f rest]

end

/-! ## Reading and writing -/

mutual

theorem distinct_toDoc : (json : Json) → (toDoc json).Distinct
  | .object fields => by
    simp only [toDoc]
    exact distinct_toFields distinct_empty fields
  | .array items => by
    simp only [toDoc]
    exact .leaf _
  | .null => by
    simp only [toDoc]
    exact .leaf _
  | .bool value => by
    simp only [toDoc]
    exact .leaf _
  | .number value => by
    simp only [toDoc]
    exact .leaf _
  | .string value => by
    simp only [toDoc]
    exact .leaf _

theorem distinct_toFields {done : Fields Text Json} (distinct : Doc.Distinct (.node done)) :
    (members : List (Text × Json)) → Doc.Distinct (.node (toFields done members))
  | [] => by
    simp only [toFields]
    exact distinct
  | (key, value) :: rest => by
    simp only [toFields]
    exact distinct_toFields (distinct_put distinct key (distinct_toDoc value)) rest

end

theorem distinct_present (layers : List Layer) :
    ∀ layer ∈ present layers, Doc.Distinct (.node layer) := by
  intro layer member
  obtain ⟨members, -, rfl⟩ := List.mem_map.mp member
  exact distinct_toFields distinct_empty members

theorem unmarshal_reads {members : List (Text × Json)} (reads : Reads members) :
    unmarshal (.object members) =
      some (some (mapFields (mapNumbers held) (toFields [] members))) := by
  obtain ⟨shallow, inRange⟩ := reads
  unfold unmarshal
  rw [if_neg (Nat.not_lt.mpr shallow)]
  simp only
  rw [if_pos (List.all_eq_true.mpr inRange)]

theorem unmarshal_fails {members : List (Text × Json)} (fails : ¬ Reads members) :
    unmarshal (.object members) = none := by
  unfold unmarshal
  split
  · rfl
  next shallow =>
    simp only
    rw [if_neg]
    intro inRange
    exact fails ⟨Nat.not_lt.mp shallow, List.all_eq_true.mp inRange⟩

variable {layers : List Layer}

/-- On layers that can be read, the maps are merged as the layers would be. -/
theorem mergeFrom_reads
    (reads : ∀ members, some members ∈ layers → Reads members) (dst : Fields Text Json) :
    mergeFrom (some (mapFields (mapNumbers held) dst)) (layers.map Layer.file) =
      some (some (mapFields (mapNumbers held) (layered dst (present layers)))) := by
  induction layers generalizing dst with
  | nil => rfl
  | cons layer rest ih =>
    have later := fun members member => reads members (List.mem_cons_of_mem layer member)
    cases layer with
    | none => exact ih later dst
    | some members =>
      rw [List.map_cons, Layer.file, mergeFrom,
        unmarshal_reads (reads members List.mem_cons_self)]
      simp only [Option.getD_some, deepMerge]
      rw [← mapFields_merge, ih later]
      rfl

theorem mergeFrom_first {layers : List Layer}
    (reads : ∀ members, some members ∈ layers → Reads members) :
    mergeFrom none (layers.map Layer.file) =
      match present layers with
      | [] => some none
      | base :: rest => some (some (mapFields (mapNumbers held) (layered base rest))) := by
  induction layers with
  | nil => rfl
  | cons layer rest ih =>
    have later := fun members member => reads members (List.mem_cons_of_mem layer member)
    cases layer with
    | none => exact ih later
    | some members =>
      rw [List.map_cons, Layer.file, mergeFrom,
        unmarshal_reads (reads members List.mem_cons_self)]
      exact mergeFrom_reads later _

/-- A layer that cannot be read is an error. -/
theorem mergeFrom_fails {members : List (Text × Json)}
    (member : some members ∈ layers) (fails : ¬ Reads members) (acc : Option (Fields Text Json)) :
    mergeFrom acc (layers.map Layer.file) = none := by
  induction layers generalizing acc with
  | nil => cases member
  | cons layer rest ih =>
    cases layer with
    | none =>
      have later : some members ∈ rest := by simpa using member
      exact ih later acc
    | some own =>
      rw [List.map_cons, Layer.file, mergeFrom]
      by_cases reads : Reads own
      · have later : some members ∈ rest := by
          rcases List.mem_cons.mp member with same | later
          · cases same
            exact absurd reads fails
          · exact later
        rw [unmarshal_reads reads]
        cases acc with
        | none => exact ih later _
        | some dst => exact ih later _
      · rw [unmarshal_fails reads]

/-! ## The merge -/

theorem present_ne_nil {members : List (Text × Json)}
    (member : some members ∈ layers) : present layers ≠ [] := by
  have inside : members ∈ layers.filterMap id := List.mem_filterMap.mpr ⟨some members, member, rfl⟩
  exact List.ne_nil_of_mem (List.mem_map_of_mem inside)

/-- A number, once it was read and written. -/
def rewritten (number : ℚ) : ℚ := shortest (held number)

theorem mergeJSONFiles_reads
    (reads : ∀ members, some members ∈ layers → Reads members) {base : Fields Text Json}
    {rest : List (Fields Text Json)} (shape : present layers = base :: rest) :
    mergeJSONFiles (layers.map Layer.file) =
      some (some (mapFields (mapNumbers shortest) (mapFields (mapNumbers held)
        (layered base rest)))) := by
  unfold mergeJSONFiles
  rw [mergeFrom_first reads, shape]
  rfl

/-- What comes out has at each path what the last word has there, with its numbers rewritten. -/
theorem at?_written {base : Fields Text Json} {rest : List (Fields Text Json)}
    (shape : present layers = base :: rest) (path : List Text) :
    (Doc.node (mapFields (mapNumbers shortest) (mapFields (mapNumbers held)
      (layered base rest)))).at? path =
      (lastWord (present layers) path).map (Kind.map (mapNumbers rewritten)) := by
  have distinct : ∀ layer ∈ rest, Doc.Distinct (.node layer) := by
    intro layer member
    exact distinct_present layers layer (shape ▸ List.mem_cons_of_mem base member)
  have written : Doc.node (mapFields (mapNumbers shortest) (mapFields (mapNumbers held)
      (layered base rest))) =
      ((Doc.node (layered base rest)).map (mapNumbers held)).map (mapNumbers shortest) := by
    simp [Doc.map]
  rw [written, at?_map, at?_map, at?_layered base distinct, ← shape, Option.map_map]
  congr 1
  funext kind
  cases kind with
  | leaf value =>
    simp only [Function.comp_apply, Kind.map, mapNumbers_mapNumbers]
    rfl
  | node => rfl

theorem survives_of_merged
    (merged : Merged layers (mergeJSONFiles (layers.map Layer.file))) : Survives layers := by
  have reads : ∀ members, some members ∈ layers → Reads members := by
    intro members member
    by_contra fails
    cases shape : present layers with
    | nil => exact present_ne_nil member shape
    | cons base rest =>
      obtain ⟨out, written, -⟩ := merged.folds base rest shape
      unfold mergeJSONFiles at written
      rw [mergeFrom_fails member fails] at written
      cases written
  refine ⟨reads, fun path value word => ?_⟩
  cases shape : present layers with
  | nil =>
    rw [shape] at word
    cases word
  | cons base rest =>
    obtain ⟨out, written, -, paths⟩ := merged.folds base rest shape
    rw [mergeJSONFiles_reads reads shape] at written
    cases written
    have same := paths path
    rw [at?_written shape, word] at same
    simp only [Option.map_some, Kind.map, Option.some.injEq, Kind.leaf.injEq] at same
    exact (mapNumbers_eq_self rewritten value).mp same

theorem merged_of_survives (survives : Survives layers) :
    Merged layers (mergeJSONFiles (layers.map Layer.file)) := by
  refine ⟨fun shape => ?_, fun base rest shape => ?_⟩
  · unfold mergeJSONFiles
    rw [mergeFrom_first survives.read, shape]
    rfl
  · have distinct : ∀ layer ∈ rest, Doc.Distinct (.node layer) := by
      intro layer member
      exact distinct_present layers layer (shape ▸ List.mem_cons_of_mem base member)
    have paths : ∀ path, (Doc.node (mapFields (mapNumbers shortest) (mapFields (mapNumbers held)
        (layered base rest)))).at? path = lastWord (present layers) path := by
      intro path
      rw [at?_written shape]
      cases word : lastWord (present layers) path with
      | none => rfl
      | some kind =>
        cases kind with
        | node => rfl
        | leaf value =>
          have same := (mapNumbers_eq_self rewritten value).mpr (survives.kept path value word)
          rw [Option.map_some, Kind.map, same]
    refine ⟨_, mergeJSONFiles_reads survives.read shape, fun path => ?_, paths⟩
    rw [paths path, shape]
    exact (at?_layered base distinct path).symm

/-- A layer with an integer that no double is. -/
def largeInteger : Layer := some [(['n'], .number (2 ^ 53 + 1))]

end HelixKit.Shared
