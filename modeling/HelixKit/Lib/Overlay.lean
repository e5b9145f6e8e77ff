/-
Purpose: Nested maps that are laid over each other: where both have a map, key by key, and elsewhere
  the upper one replaces the lower one.
Trusted boundary: none
-/
import Mathlib.Data.List.Basic
import Mathlib.Data.List.Induction
import Mathlib.Data.List.Nodup

namespace HelixKit.Overlay

variable {Key Leaf : Type} [DecidableEq Key]

/-! ## Nested maps -/

inductive Doc (Key Leaf : Type) where
  | leaf (value : Leaf)
  | node (fields : List (Key × Doc Key Leaf))

abbrev Fields (Key Leaf : Type) := List (Key × Doc Key Leaf)

/-- The fields with this value under the key. -/
def put (fields : Fields Key Leaf) (key : Key) (value : Doc Key Leaf) : Fields Key Leaf :=
  match fields with
  | [] => [(key, value)]
  | (other, old) :: rest =>
    if other = key then (key, value) :: rest else (other, old) :: put rest key value

/-- What is at a path: a leaf, or a map. -/
inductive Kind (Leaf : Type) where
  | leaf (value : Leaf)
  | node
deriving DecidableEq

def Doc.kind : Doc Key Leaf → Kind Leaf
  | .leaf value => .leaf value
  | .node _ => .node

/-- What is at the path. -/
def Doc.at? (doc : Doc Key Leaf) : List Key → Option (Kind Leaf)
  | [] => some doc.kind
  | key :: path =>
    match doc with
    | .leaf _ => none
    | .node fields => (fields.lookup key).bind (·.at? path)

/-- What a layer says about a path: nothing, that there is nothing since a leaf is above it, or what
is there. -/
inductive Says (Leaf : Type) where
  | silent
  | blocked
  | has (kind : Kind Leaf)
deriving DecidableEq

def Doc.word (doc : Doc Key Leaf) : List Key → Says Leaf
  | [] => .has doc.kind
  | key :: path =>
    match doc with
    | .leaf _ => .blocked
    | .node fields =>
      match fields.lookup key with
      | none => .silent
      | some field => field.word path

mutual

/-- The value under a key that has this one already, or none. -/
def mergeValue (old : Option (Doc Key Leaf)) : Doc Key Leaf → Doc Key Leaf
  | .leaf value => .leaf value
  | .node src =>
    match old with
    | none | some (.leaf _) => .node src
    | some (.node dst) => .node (merge dst src)

/-- The fields of the upper map are set in the lower one. -/
def merge (dst : Fields Key Leaf) : Fields Key Leaf → Fields Key Leaf
  | [] => dst
  | (key, value) :: rest => merge (put dst key (mergeValue (dst.lookup key) value)) rest

end

/-- Every map has each of its keys once. -/
inductive Doc.Distinct : Doc Key Leaf → Prop where
  | leaf (value : Leaf) : Doc.Distinct (.leaf value)
  | node {fields : Fields Key Leaf} (keys : (fields.map Prod.fst).Nodup)
      (values : ∀ field ∈ fields, Doc.Distinct field.2) : Doc.Distinct (.node fields)

/-! ## Lookups -/

theorem lookup_put (fields : Fields Key Leaf) (key other : Key) (value : Doc Key Leaf) :
    (put fields key value).lookup other =
      if other = key then some value else fields.lookup other := by
  induction fields with
  | nil =>
    by_cases same : other = key
    · simp [put, same]
    · have apart : (other == key) = false := by simpa using same
      simp [put, List.lookup_cons, same, apart]
  | cons field rest ih =>
    obtain ⟨first, old⟩ := field
    unfold put
    by_cases here : first = key
    · rw [if_pos here]
      by_cases same : other = key
      · simp [same]
      · have apart : (other == first) = false := by simpa [here] using same
        have apartToo : (other == key) = false := by simpa using same
        simp [List.lookup_cons, same, apart, apartToo]
    rw [if_neg here]
    by_cases same : other = first
    · have apart : ¬ other = key := fun contra => here (same ▸ contra)
      simp [same, here]
    · have apart : (other == first) = false := by simpa using same
      simp only [List.lookup_cons, apart, ih]

theorem keys_put (fields : Fields Key Leaf) (key : Key) (value : Doc Key Leaf) (other : Key) :
    other ∈ (put fields key value).map Prod.fst ↔ other = key ∨ other ∈ fields.map Prod.fst := by
  induction fields with
  | nil => simp [put]
  | cons field rest ih =>
    obtain ⟨first, old⟩ := field
    unfold put
    split
    next here =>
      subst here
      simp
    next apart =>
      simp only [List.map_cons, List.mem_cons, ih]
      tauto

theorem nodup_put {fields : Fields Key Leaf} (keys : (fields.map Prod.fst).Nodup) (key : Key)
    (value : Doc Key Leaf) : ((put fields key value).map Prod.fst).Nodup := by
  induction fields with
  | nil => simp [put]
  | cons field rest ih =>
    obtain ⟨first, old⟩ := field
    obtain ⟨fresh, later⟩ := List.nodup_cons.mp keys
    unfold put
    split
    next here =>
      subst here
      exact List.nodup_cons.mpr ⟨fresh, later⟩
    next apart =>
      refine List.nodup_cons.mpr ⟨fun inside => ?_, ih later⟩
      rcases (keys_put rest key value first).mp inside with same | old
      · exact apart same
      · exact fresh old

theorem mem_put {fields : Fields Key Leaf} {key : Key} {value : Doc Key Leaf}
    {field : Key × Doc Key Leaf} (member : field ∈ put fields key value) :
    field = (key, value) ∨ field ∈ fields := by
  induction fields with
  | nil => simpa [put] using member
  | cons first rest ih =>
    obtain ⟨other, old⟩ := first
    unfold put at member
    split at member
    · rcases List.mem_cons.mp member with new | later
      · exact .inl new
      · exact .inr (List.mem_cons_of_mem _ later)
    · rcases List.mem_cons.mp member with same | later
      · exact .inr (same ▸ List.mem_cons_self)
      · rcases ih later with new | inside
        · exact .inl new
        · exact .inr (List.mem_cons_of_mem _ inside)

theorem lookup_none {fields : Fields Key Leaf} {key : Key} (fresh : key ∉ fields.map Prod.fst) :
    fields.lookup key = none := by
  rw [List.lookup_eq_none_iff]
  intro field member
  rw [bne_iff_ne]
  rintro rfl
  exact fresh (List.mem_map_of_mem member)

theorem mem_of_lookup {fields : Fields Key Leaf} {key : Key} {value : Doc Key Leaf}
    (found : fields.lookup key = some value) : (key, value) ∈ fields := by
  induction fields with
  | nil => cases found
  | cons field rest ih =>
    obtain ⟨other, old⟩ := field
    rw [List.lookup_cons] at found
    split at found
    next same =>
      cases found
      rw [eq_of_beq same]
      exact List.mem_cons_self
    next apart => exact List.mem_cons_of_mem _ (ih found)

/-! ## Merging -/

/-- Under each key, the value of the upper map is merged over the one of the lower map. -/
theorem lookup_merge {src : Fields Key Leaf} (keys : (src.map Prod.fst).Nodup)
    (dst : Fields Key Leaf) (key : Key) :
    (merge dst src).lookup key =
      match src.lookup key with
      | none => dst.lookup key
      | some value => some (mergeValue (dst.lookup key) value) := by
  induction src generalizing dst with
  | nil => rfl
  | cons field rest ih =>
    obtain ⟨first, value⟩ := field
    obtain ⟨fresh, later⟩ := List.nodup_cons.mp keys
    rw [merge, ih later, List.lookup_cons]
    by_cases same : key = first
    · subst same
      rw [lookup_none fresh]
      simp [lookup_put]
    · have apart : (key == first) = false := by simpa using same
      simp [apart, lookup_put, same]

theorem at?_eq_word (doc : Doc Key Leaf) (path : List Key) :
    doc.at? path =
      match doc.word path with
      | .has kind => some kind
      | .silent | .blocked => none := by
  induction path generalizing doc with
  | nil => rfl
  | cons key path ih =>
    cases doc with
    | leaf value => rfl
    | node fields =>
      simp only [Doc.at?, Doc.word]
      cases fields.lookup key with
      | none => rfl
      | some field => exact ih field

/-- What the upper map does not speak about is as in the lower one. -/
theorem at?_merge {src : Fields Key Leaf} (distinct : Doc.Distinct (.node src))
    (dst : Fields Key Leaf) (path : List Key) :
    (Doc.node (merge dst src)).at? path =
      match (Doc.node src).word path with
      | .has kind => some kind
      | .blocked => none
      | .silent => (Doc.node dst).at? path := by
  induction path generalizing src dst with
  | nil => rfl
  | cons key path ih =>
    cases distinct with
    | node keys values =>
      simp only [Doc.at?, Doc.word, lookup_merge keys]
      cases found : src.lookup key with
      | none => rfl
      | some value =>
        have own := values _ (mem_of_lookup found)
        simp only [Option.bind_some]
        cases value with
        | leaf value =>
          cases path with
          | nil => rfl
          | cons key path => rfl
        | node fields =>
          cases below : dst.lookup key with
          | none =>
            simp only [mergeValue, at?_eq_word]
            cases (Doc.node fields).word path <;> rfl
          | some old =>
            cases old with
            | node lower => exact ih own lower
            | leaf value =>
              simp only [mergeValue, at?_eq_word]
              cases path with
              | nil => rfl
              | cons key path => cases (Doc.node fields).word (key :: path) <;> rfl

/-! ## Laying over -/

omit [DecidableEq Key] in
theorem distinct_node {fields : Fields Key Leaf} : Doc.Distinct (.node fields) ↔
    (fields.map Prod.fst).Nodup ∧ ∀ field ∈ fields, Doc.Distinct field.2 := by
  constructor
  · intro distinct
    cases distinct with
    | node keys values => exact ⟨keys, values⟩
  · rintro ⟨keys, values⟩
    exact .node keys values

theorem distinct_put {fields : Fields Key Leaf} (distinct : Doc.Distinct (.node fields))
    (key : Key) {value : Doc Key Leaf} (own : value.Distinct) :
    Doc.Distinct (.node (put fields key value)) := by
  obtain ⟨keys, values⟩ := distinct_node.mp distinct
  refine distinct_node.mpr ⟨nodup_put keys key _, fun field member => ?_⟩
  rcases mem_put member with rfl | old
  · exact own
  · exact values field old

mutual

theorem distinct_mergeValue {old : Option (Doc Key Leaf)}
    (lower : ∀ doc, old = some doc → doc.Distinct) :
    {value : Doc Key Leaf} → value.Distinct → (mergeValue old value).Distinct
  | .leaf value, distinct => by
    rw [mergeValue]
    exact distinct
  | .node src, distinct => by
    cases old with
    | none => exact distinct
    | some doc =>
      cases doc with
      | leaf value => exact distinct
      | node dst =>
        rw [mergeValue]
        exact distinct_merge (lower _ rfl) src distinct

theorem distinct_merge {dst : Fields Key Leaf} (lower : Doc.Distinct (.node dst)) :
    (src : Fields Key Leaf) → Doc.Distinct (.node src) → Doc.Distinct (.node (merge dst src))
  | [], _ => lower
  | (key, value) :: rest, distinct => by
    cases distinct with
    | node keys values =>
      obtain ⟨-, lowerValues⟩ := distinct_node.mp lower
      have own := values _ List.mem_cons_self
      have below : ∀ doc, dst.lookup key = some doc → doc.Distinct :=
        fun doc found => lowerValues _ (mem_of_lookup found)
      have next := distinct_put lower key (distinct_mergeValue below own)
      rw [merge]
      exact distinct_merge next rest (distinct_node.mpr ⟨(List.nodup_cons.mp keys).2,
        fun field member => values field (List.mem_cons_of_mem _ member)⟩)

end

omit [DecidableEq Key] in
theorem distinct_empty : Doc.Distinct (.node [] : Doc Key Leaf) :=
  .node List.nodup_nil fun field member => by cases member

/-- All layers, each over those before it. -/
def layered (base : Fields Key Leaf) (layers : List (Fields Key Leaf)) : Fields Key Leaf :=
  layers.foldl merge base

def Doc.speaks (doc : Doc Key Leaf) (path : List Key) : Bool :=
  match doc.word path with
  | .silent => false
  | .blocked | .has _ => true

/-- What is at the path in the last layer that is not silent about it. -/
def lastWord (layers : List (Fields Key Leaf)) (path : List Key) : Option (Kind Leaf) :=
  (layers.reverse.find? fun layer => (Doc.node layer).speaks path).bind fun layer =>
    (Doc.node layer).at? path

theorem speaks_cons (fields : Fields Key Leaf) (key : Key) (path : List Key) :
    (Doc.node fields).speaks (key :: path) = (fields.lookup key).any (·.speaks path) := by
  unfold Doc.speaks
  rw [Doc.word]
  cases fields.lookup key with
  | none => rfl
  | some field => rfl

theorem speaks_leaf (value : Leaf) (path : List Key) :
    (Doc.leaf value : Doc Key Leaf).speaks path = true := by
  cases path <;> rfl

theorem at?_of_silent {doc : Doc Key Leaf} {path : List Key} (silent : doc.speaks path = false) :
    doc.at? path = none := by
  rw [at?_eq_word]
  unfold Doc.speaks at silent
  cases said : doc.word path with
  | silent => rfl
  | blocked => rfl
  | has kind =>
    rw [said] at silent
    cases silent

theorem at?_merge_speaks {src : Fields Key Leaf} (distinct : Doc.Distinct (.node src))
    (dst : Fields Key Leaf) (path : List Key) :
    (Doc.node (merge dst src)).at? path =
      if (Doc.node src).speaks path then (Doc.node src).at? path else (Doc.node dst).at? path := by
  rw [at?_merge distinct, at?_eq_word (Doc.node src)]
  unfold Doc.speaks
  cases (Doc.node src).word path <;> rfl

theorem lastWord_concat (layers : List (Fields Key Leaf)) (last : Fields Key Leaf)
    (path : List Key) :
    lastWord (layers ++ [last]) path =
      if (Doc.node last).speaks path then (Doc.node last).at? path else lastWord layers path := by
  unfold lastWord
  rw [List.reverse_append, List.reverse_singleton, List.singleton_append, List.find?_cons]
  cases (Doc.node last).speaks path <;> rfl

/-- At each path there is what the last layer has there that is not silent about it. -/
theorem at?_layered (base : Fields Key Leaf) {layers : List (Fields Key Leaf)}
    (distinct : ∀ layer ∈ layers, Doc.Distinct (.node layer)) (path : List Key) :
    (Doc.node (layered base layers)).at? path = lastWord (base :: layers) path := by
  induction layers using List.reverseRecOn with
  | nil =>
    have alone := lastWord_concat [] base path
    rw [List.nil_append] at alone
    rw [alone]
    split
    · rfl
    next silent => exact at?_of_silent (Bool.eq_false_iff.mpr silent)
  | append_singleton layers last ih =>
    have own := distinct last (List.mem_append_right _ (List.mem_singleton_self last))
    have others := ih fun layer member => distinct layer (List.mem_append_left _ member)
    rw [← List.cons_append, lastWord_concat, ← others]
    unfold layered
    rw [List.foldl_append, List.foldl_cons, List.foldl_nil, at?_merge_speaks own]

/-- The same maps, whatever the order of their keys. -/
def Same (a b : Doc Key Leaf) : Prop := ∀ path, a.at? path = b.at? path

theorem same_merge_empty (fields : Fields Key Leaf) :
    Same (.node (merge fields [])) (.node fields) :=
  fun _ => rfl

theorem same_empty_merge {fields : Fields Key Leaf} (distinct : Doc.Distinct (.node fields)) :
    Same (.node (merge [] fields)) (.node fields) := by
  intro path
  rw [at?_merge_speaks distinct]
  split
  · rfl
  next silent =>
    rw [at?_of_silent (Bool.eq_false_iff.mpr silent)]
    cases path with
    | nil => exact absurd rfl silent
    | cons key path => rfl

/-- No path is a map in one and a leaf in the other. -/
structure Compatible (a b : Doc Key Leaf) : Prop where
  left : ∀ path, a.at? path = some .node → ∀ value, b.at? path ≠ some (.leaf value)
  right : ∀ path, b.at? path = some .node → ∀ value, a.at? path ≠ some (.leaf value)

/-- What the lower one speaks about, the upper one does not take back. -/
theorem speaks_merge {dst src : Fields Key Leaf} (distinct : Doc.Distinct (.node src))
    (compatible : Compatible (.node dst) (.node src)) (path : List Key) :
    (Doc.node (merge dst src)).speaks path =
      ((Doc.node src).speaks path || (Doc.node dst).speaks path) := by
  induction path generalizing dst src with
  | nil => rfl
  | cons key path ih =>
    obtain ⟨keys, values⟩ := distinct_node.mp distinct
    rw [speaks_cons, speaks_cons, speaks_cons, lookup_merge keys]
    cases upper : src.lookup key with
    | none => rfl
    | some value =>
      cases value with
      | leaf value =>
        simp [mergeValue, speaks_leaf]
      | node fields =>
        cases lower : dst.lookup key with
        | none => simp [mergeValue]
        | some old =>
          cases old with
          | leaf value =>
            have above : (Doc.node src).at? [key] = some .node := by
              simp [Doc.at?, upper, Doc.kind]
            have below : (Doc.node dst).at? [key] = some (.leaf value) := by
              simp [Doc.at?, lower, Doc.kind]
            exact absurd below (compatible.right [key] above value)
          | node under =>
            have inner : Compatible (.node under) (.node fields) := by
              constructor
              · intro rest found value other
                refine compatible.left (key :: rest) ?_ value ?_
                · simpa [Doc.at?, lower] using found
                · simpa [Doc.at?, upper] using other
              · intro rest found value other
                refine compatible.right (key :: rest) ?_ value ?_
                · simpa [Doc.at?, upper] using found
                · simpa [Doc.at?, lower] using other
            have own := values _ (mem_of_lookup upper)
            simpa [mergeValue] using ih own inner

theorem merge_assoc {a b c : Fields Key Leaf} (distinctB : Doc.Distinct (.node b))
    (distinctC : Doc.Distinct (.node c)) (compatible : Compatible (.node b) (.node c)) :
    Same (.node (merge (merge a b) c)) (.node (merge a (merge b c))) := by
  intro path
  rw [at?_merge_speaks distinctC, at?_merge_speaks distinctB,
    at?_merge_speaks (distinct_merge distinctB c distinctC), at?_merge_speaks distinctC,
    speaks_merge distinctC compatible]
  cases (Doc.node c).speaks path <;> rfl

/-! ## Values -/

section

variable {Other : Type} (f : Leaf → Other)

def Kind.map : Kind Leaf → Kind Other
  | .leaf value => .leaf (f value)
  | .node => .node

mutual

def Doc.map : Doc Key Leaf → Doc Key Other
  | .leaf value => .leaf (f value)
  | .node fields => .node (mapFields fields)

/-- The fields with every leaf in them mapped. -/
def mapFields : Fields Key Leaf → Fields Key Other
  | [] => []
  | (key, value) :: rest => (key, value.map) :: mapFields rest

end

end

variable {Other : Type} {f : Leaf → Other}

theorem lookup_mapFields (fields : Fields Key Leaf) (key : Key) :
    (mapFields f fields).lookup key = (fields.lookup key).map (Doc.map f) := by
  induction fields with
  | nil => rfl
  | cons field rest ih =>
    obtain ⟨first, value⟩ := field
    rw [mapFields, List.lookup_cons, List.lookup_cons]
    cases key == first
    · exact ih
    · rfl

theorem mapFields_put (fields : Fields Key Leaf) (key : Key) (value : Doc Key Leaf) :
    mapFields f (put fields key value) = put (mapFields f fields) key (value.map f) := by
  induction fields with
  | nil => rfl
  | cons field rest ih =>
    obtain ⟨first, old⟩ := field
    rw [put, mapFields, put]
    split
    · rfl
    · rw [mapFields, ih]

mutual

theorem map_mergeValue (old : Option (Doc Key Leaf)) : (value : Doc Key Leaf) →
    (mergeValue old value).map f = mergeValue (old.map (Doc.map f)) (value.map f)
  | .leaf value => by simp [mergeValue, Doc.map]
  | .node src => by
    cases old with
    | none => simp [mergeValue, Doc.map]
    | some doc =>
      cases doc with
      | leaf value => simp [mergeValue, Doc.map]
      | node dst =>
        simp only [mergeValue, Doc.map, Option.map_some]
        rw [mapFields_merge dst src]

/-- Mapping the values commutes with merging. -/
theorem mapFields_merge (dst : Fields Key Leaf) : (src : Fields Key Leaf) →
    mapFields f (merge dst src) = merge (mapFields f dst) (mapFields f src)
  | [] => by simp [merge, mapFields]
  | (key, value) :: rest => by
    rw [merge, mapFields_merge _ rest, mapFields_put, map_mergeValue _ value, mapFields, merge,
      lookup_mapFields]

end

theorem at?_map (doc : Doc Key Leaf) (path : List Key) :
    (doc.map f).at? path = (doc.at? path).map (Kind.map f) := by
  induction path generalizing doc with
  | nil => cases doc <;> rfl
  | cons key path ih =>
    cases doc with
    | leaf value => rfl
    | node fields =>
      rw [Doc.map, Doc.at?, Doc.at?, lookup_mapFields]
      cases fields.lookup key with
      | none => rfl
      | some field => exact ih field

end HelixKit.Overlay
