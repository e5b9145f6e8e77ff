/-
Purpose: The ingestion of a release: its artifacts, variants, links and channel head are looked up
  by their natural keys and inserted where they are missing, in one transaction.
Trusted boundary: the hash of a selector is a parameter
-/
import HelixKit.Backend.ReleaseAdapters
import HelixKit.Lib.Fallible
import HelixKit.Lib.Upsert

namespace HelixKit.Backend.ReleaseIngest

open ReleaseSchema ReleaseAdapters
open HelixKit.Fallible HelixKit.Upsert

/-! ## What is ingested -/

inductive IngestArtifact where
  | blob (role : String) (offset path : Option String) (sha256 : String) (sizeBytes : Nat)
  | ref (role : String) (offset path : Option String)
      (registry coordinate refVersion digest : String)
deriving Repr, DecidableEq

def IngestArtifact.role : IngestArtifact → String
  | .blob role _ _ _ _ | .ref role _ _ _ _ _ _ => role

def IngestArtifact.offset : IngestArtifact → Option String
  | .blob _ offset _ _ _ | .ref _ offset _ _ _ _ _ => offset

def IngestArtifact.path : IngestArtifact → Option String
  | .blob _ _ path _ _ | .ref _ _ path _ _ _ _ => path

structure IngestVariant where
  selector : SelectorInput
  name : Option String := none
  artifacts : List IngestArtifact
deriving Repr, DecidableEq

structure IngestReleaseDescriptor where
  typeKey : String
  name : String
  version : String
  channel : String
  publish : Bool := false
  variants : List IngestVariant
deriving Repr, DecidableEq

/-! ## The database -/

structure ArtifactType where
  key : String
  adapterKey : String
deriving Repr, DecidableEq

/-- `drawn` counts the ids that were drawn. The times of the rows are left out, except that of
a variant. -/
structure Tables where
  artifactTypes : List ArtifactType
  artifacts : List Artifact := []
  releases : List Release := []
  variants : List (Variant Selector Manifest) := []
  links : List VariantArtifact := []
  heads : List ReleaseChannelHead := []
  drawn : Nat := 0
deriving Repr, DecidableEq

/-- What a call reads besides the database: the hash, the random part of each id, and the time of
the transaction. -/
structure Environment where
  selectorHashOf : Selector → String
  randomHex : Nat → String
  now : Nat

variable (env : Environment)

def Environment.prefixedId (kind : String) (n : Nat) : String := s!"{kind}_{env.randomHex n}"

def duplicateKey : String := "duplicate key value violates unique constraint"

/-! ## The steps -/

def joinCasKey (sha256 : String) : Except String String :=
  if sha256.length = 64 ∧ sha256.toList.all fun c => c.isDigit ∨ ('a' ≤ c ∧ c ≤ 'f') then
    .ok s!"cas/{sha256}"
  else
    .error "sha256 must not contain empty, current-directory, or parent-directory segments."

def toAdapterArtifact (input : IngestArtifact) : Except String AdapterArtifact :=
  match input with
  | .ref role offset path registry coordinate refVersion digest =>
    .ok { role, offset, path, storageMode := .ref, sha256 := none, sizeBytes := none
          storageKey := none, registry, coordinate, refVersion, digest }
  | .blob role offset path sha256 sizeBytes => do
      let storageKey ← joinCasKey sha256
      return { role, offset, path, storageMode := .blob, sha256, sizeBytes, storageKey
               registry := none, coordinate := none, refVersion := none, digest := none }

/-- The natural key of an artifact. -/
def IngestArtifact.names (input : IngestArtifact) (row : Artifact) : Bool :=
  match input with
  | .ref _ _ _ registry coordinate _ digest =>
    row.storageMode = .ref && row.registry = some registry && row.coordinate = some coordinate &&
      row.digest = some digest
  | .blob _ _ _ sha256 _ => row.storageMode = .blob && row.sha256 = some sha256

def IngestArtifact.values (input : IngestArtifact) (typeKey id : String) :
    Except String Artifact :=
  match input with
  | .ref _ _ _ registry coordinate refVersion digest =>
    .ok { id, typeKey, storageMode := .ref, sha256 := none, sizeBytes := none
          storageKey := none, registry, coordinate, refVersion, digest }
  | .blob _ _ _ sha256 sizeBytes => do
      let storageKey ← joinCasKey sha256
      return { id, typeKey, storageMode := .blob, sha256, sizeBytes, storageKey
               registry := none, coordinate := none, refVersion := none, digest := none }

def upsertArtifact (tables : Tables) (typeKey : String) (input : IngestArtifact) :
    Except String (String × Tables) := do
  let (id, artifacts, drawn) ← upsert (env.prefixedId "art") Artifact.id duplicateKey input.names
    (input.values typeKey) tables.artifacts tables.drawn
  return (id, { tables with artifacts, drawn })

def IngestReleaseDescriptor.names (descriptor : IngestReleaseDescriptor) (row : Release) : Bool :=
  row.typeKey = descriptor.typeKey && row.name = descriptor.name &&
    row.version = descriptor.version

def IngestReleaseDescriptor.values (descriptor : IngestReleaseDescriptor) (id : String) : Release :=
  { id, typeKey := descriptor.typeKey, name := descriptor.name, version := descriptor.version
    channel := descriptor.channel, status := if descriptor.publish then "ready" else "draft" }

def upsertRelease (tables : Tables) (descriptor : IngestReleaseDescriptor) :
    Except String (String × Tables) := do
  let (id, releases, drawn) ← upsert (env.prefixedId "rel") Release.id duplicateKey
    descriptor.names (fun id => .ok (descriptor.values id)) tables.releases tables.drawn
  return (id, { tables with releases, drawn })

/-- The natural key of a variant. -/
def namesVariant (releaseId selectorHash : String) (row : Variant Selector Manifest) : Bool :=
  row.releaseId = releaseId && row.selectorHash = selectorHash

def variantValues (now : Nat) (releaseId : String) (selector : Selector) (selectorHash : String)
    (name : Option String) (manifest : Manifest) (id : String) : Variant Selector Manifest :=
  { id, releaseId, selector, selectorHash, name, manifest, status := "ready", createdAt := now }

def upsertVariant (tables : Tables) (releaseId : String) (selector : Selector)
    (selectorHash : String) (name : Option String) (manifest : Manifest) :
    Except String (String × Tables) := do
  let (id, variants, drawn) ← upsert (env.prefixedId "var") Variant.id duplicateKey
    (namesVariant releaseId selectorHash)
    (fun id => .ok (variantValues env.now releaseId selector selectorHash name manifest id))
    tables.variants tables.drawn
  return (id, { tables with variants, drawn })

structure Link where
  artifactId : String
  role : String
  offset : Option String
  path : Option String
deriving Repr, DecidableEq

def Link.names (link : Link) (variantId : String) (row : VariantArtifact) : Bool :=
  row.variantId = variantId && row.role = link.role

def Link.values (link : Link) (variantId id : String) : VariantArtifact :=
  { id, variantId, artifactId := link.artifactId, role := link.role, offset := link.offset
    path := link.path }

def upsertVariantArtifact (tables : Tables) (variantId : String) (link : Link) :
    Except String Tables := do
  let (_, links, drawn) ← upsert (env.prefixedId "vart") VariantArtifact.id duplicateKey
    (link.names variantId) (fun id => .ok (link.values variantId id)) tables.links tables.drawn
  return { tables with links, drawn }

def IngestReleaseDescriptor.heads (descriptor : IngestReleaseDescriptor)
    (row : ReleaseChannelHead) : Bool :=
  row.typeKey = descriptor.typeKey && row.name = descriptor.name &&
    row.channel = descriptor.channel

def markReady (releaseId : String) (row : Release) : Release :=
  if row.id = releaseId then { row with status := "ready" } else row

def moveHead (headId releaseId : String) (row : ReleaseChannelHead) : ReleaseChannelHead :=
  if row.id = headId then { row with releaseId } else row

/-- A head that is inserted has the release, so that the update leaves it as it is. -/
def publishRelease (tables : Tables) (descriptor : IngestReleaseDescriptor)
    (releaseId : String) : Except String Tables := do
  let (headId, heads, drawn) ← upsert (env.prefixedId "head") ReleaseChannelHead.id duplicateKey
    descriptor.heads
    (fun id => .ok { id, typeKey := descriptor.typeKey, name := descriptor.name
                     channel := descriptor.channel, releaseId })
    tables.heads tables.drawn
  return { tables with
    releases := tables.releases.map (markReady releaseId)
    heads := heads.map (moveHead headId releaseId), drawn }

/-! ## The whole call -/

/-- The artifacts of a variant are inserted, and described for the adapter. -/
def ingestArtifacts (typeKey : String) :
    Tables → List IngestArtifact → Except String (List Link × List AdapterArtifact × Tables)
  | tables, [] => .ok ([], [], tables)
  | tables, input :: rest => do
      let (artifactId, tables) ← upsertArtifact env tables typeKey input
      let artifact ← toAdapterArtifact input
      let (links, artifacts, tables) ← ingestArtifacts typeKey tables rest
      return ({ artifactId, role := input.role, offset := input.offset, path := input.path } ::
        links, artifact :: artifacts, tables)

def linkArtifacts (variantId : String) : Tables → List Link → Except String Tables
  | tables, [] => .ok tables
  | tables, link :: rest => do
      let tables ← upsertVariantArtifact env tables variantId link
      linkArtifacts variantId tables rest

def ingestVariant (adapter : Adapter) (descriptor : IngestReleaseDescriptor) (releaseId : String)
    (tables : Tables) (input : IngestVariant) : Except String (String × Tables) := do
  let selector ← adapter.canonicalizeSelector input.selector
  let selectorHash := env.selectorHashOf selector
  let (links, artifacts, tables) ← ingestArtifacts env descriptor.typeKey tables input.artifacts
  let manifest ← adapter.buildVariantManifest
    { name := descriptor.name, version := descriptor.version, channel := descriptor.channel }
    selector artifacts
  let (variantId, tables) ←
    upsertVariant env tables releaseId selector selectorHash input.name manifest
  let tables ← linkArtifacts env variantId tables links
  return (variantId, tables)

def ingestVariants (adapter : Adapter) (descriptor : IngestReleaseDescriptor)
    (releaseId : String) : Tables → List IngestVariant → Except String (List String × Tables)
  | tables, [] => .ok ([], tables)
  | tables, input :: rest => do
      let (variantId, tables) ← ingestVariant env adapter descriptor releaseId tables input
      let (variantIds, tables) ← ingestVariants adapter descriptor releaseId tables rest
      return (variantId :: variantIds, tables)

structure IngestResult where
  releaseId : String
  variantIds : List String
deriving Repr, DecidableEq

def ingestRelease (tables : Tables) (descriptor : IngestReleaseDescriptor) :
    Except String (IngestResult × Tables) := do
  match tables.artifactTypes.find? fun type => type.key = descriptor.typeKey with
  | none => .error s!"Unknown artifact type \"{descriptor.typeKey}\"."
  | some type =>
    let adapter ← getAdapter type.adapterKey
    let (releaseId, tables) ← upsertRelease env tables descriptor
    let (variantIds, tables) ←
      ingestVariants env adapter descriptor releaseId tables descriptor.variants
    if descriptor.publish then
      let tables ← publishRelease env tables descriptor releaseId
      return ({ releaseId, variantIds }, tables)
    else
      return ({ releaseId, variantIds }, tables)

/-! ## A repeated call -/

variable {env}

/-- A release as the steps before its publication see it. -/
def unpublished (row : Release) : Release := { row with status := "" }

/-- What later tables keep of earlier ones: all that a lookup finds. -/
structure Later (tables later : Tables) : Prop where
  types : tables.artifactTypes = later.artifactTypes
  artifacts : tables.artifacts <+: later.artifacts
  releases : tables.releases.map unpublished <+: later.releases.map unpublished
  variants : tables.variants <+: later.variants
  links : tables.links <+: later.links

theorem Later.refl (tables : Tables) : Later tables tables :=
  ⟨rfl, List.prefix_rfl, List.prefix_rfl, List.prefix_rfl, List.prefix_rfl⟩

theorem Later.trans {first second third : Tables} (one : Later first second)
    (two : Later second third) : Later first third :=
  ⟨one.types.trans two.types, one.artifacts.trans two.artifacts, one.releases.trans two.releases,
    one.variants.trans two.variants, one.links.trans two.links⟩

/-- What was found by a name is found again. -/
theorem found_later {Row : Type} {rows later : List Row} {names : Row → Bool} {idOf : Row → String}
    {id : String} (longer : rows <+: later) (found : (rows.find? names).map idOf = some id) :
    (later.find? names).map idOf = some id := by
  obtain ⟨row, row_eq, named⟩ := Option.map_eq_some_iff.mp found
  rw [find?_extends longer row_eq, Option.map_some, named]

theorem values_named {input : IngestArtifact} {typeKey id : String} {row : Artifact}
    (made : input.values typeKey id = .ok row) :
    row.id = id ∧ input.names row = true := by
  cases input with
  | ref role offset path registry coordinate refVersion digest =>
    obtain rfl : _ = row := by simpa [IngestArtifact.values] using made
    simp [IngestArtifact.names]
  | blob role offset path sha256 sizeBytes =>
    obtain ⟨storageKey, -, made⟩ := bind_eq_ok.mp made
    obtain rfl : _ = row := by simpa [pure, Except.pure] using made
    simp [IngestArtifact.names]

section

variable (env' : Environment) {tables tables' later : Tables} {id releaseId variantId selectorHash typeKey : String}
  {input : IngestArtifact} {descriptor : IngestReleaseDescriptor} {selector : Selector}
  {name : Option String} {manifest : Manifest} {link : Link}

theorem upsertArtifact_later
    (returned : upsertArtifact env tables typeKey input = .ok (id, tables')) :
    Later tables tables' := by
  obtain ⟨⟨id, artifacts, drawn⟩, upserted, same⟩ := bind_eq_ok.mp returned
  obtain ⟨rfl, rfl⟩ := Prod.mk.inj (Except.ok.inj same)
  exact { Later.refl tables with artifacts := upsert_extends upserted }

theorem upsertArtifact_again
    (returned : upsertArtifact env tables typeKey input = .ok (id, tables'))
    (after : Later tables' later) :
    upsertArtifact env' later typeKey input = .ok (id, later) := by
  obtain ⟨⟨id, artifacts, drawn⟩, upserted, same⟩ := bind_eq_ok.mp returned
  obtain ⟨rfl, rfl⟩ := Prod.mk.inj (Except.ok.inj same)
  have found := upsert_found (fun _ _ => values_named) upserted
  unfold upsertArtifact
  rw [upsert_again (found_later after.artifacts found)]
  rfl

theorem find?_unpublished (rows : List Release) :
    ((rows.map unpublished).find? descriptor.names).map Release.id =
      (rows.find? descriptor.names).map Release.id := by
  rw [List.find?_map, Option.map_map]
  rfl

theorem upsertRelease_later
    (returned : upsertRelease env tables descriptor = .ok (id, tables')) :
    Later tables tables' := by
  obtain ⟨⟨id, releases, drawn⟩, upserted, same⟩ := bind_eq_ok.mp returned
  obtain ⟨rfl, rfl⟩ := Prod.mk.inj (Except.ok.inj same)
  exact { Later.refl tables with releases := (upsert_extends upserted).map unpublished }

theorem upsertRelease_again
    (returned : upsertRelease env tables descriptor = .ok (id, tables'))
    (after : Later tables' later) :
    upsertRelease env' later descriptor = .ok (id, later) := by
  obtain ⟨⟨id, releases, drawn⟩, upserted, same⟩ := bind_eq_ok.mp returned
  obtain ⟨rfl, rfl⟩ := Prod.mk.inj (Except.ok.inj same)
  have found := upsert_found (by
    intro id row made
    obtain rfl : _ = row := by simpa using made
    simp [IngestReleaseDescriptor.names, IngestReleaseDescriptor.values]) upserted
  have found_again : (later.releases.find? descriptor.names).map Release.id = some id := by
    rw [← find?_unpublished] at found ⊢
    exact found_later after.releases found
  unfold upsertRelease
  rw [upsert_again found_again]
  rfl

theorem upsertVariant_later
    (returned : upsertVariant env tables releaseId selector selectorHash name manifest =
      .ok (id, tables')) : Later tables tables' := by
  obtain ⟨⟨id, variants, drawn⟩, upserted, same⟩ := bind_eq_ok.mp returned
  obtain ⟨rfl, rfl⟩ := Prod.mk.inj (Except.ok.inj same)
  exact { Later.refl tables with variants := upsert_extends upserted }

theorem upsertVariant_again
    (returned : upsertVariant env tables releaseId selector selectorHash name manifest =
      .ok (id, tables'))
    (after : Later tables' later) :
    upsertVariant env' later releaseId selector selectorHash name manifest = .ok (id, later) := by
  obtain ⟨⟨id, variants, drawn⟩, upserted, same⟩ := bind_eq_ok.mp returned
  obtain ⟨rfl, rfl⟩ := Prod.mk.inj (Except.ok.inj same)
  have found := upsert_found (by
    intro id row made
    obtain rfl : _ = row := by simpa using made
    simp [namesVariant, variantValues]) upserted
  unfold upsertVariant
  rw [upsert_again (found_later after.variants found)]
  rfl

theorem upsertVariantArtifact_later
    (returned : upsertVariantArtifact env tables variantId link = .ok tables') :
    Later tables tables' := by
  obtain ⟨⟨id, links, drawn⟩, upserted, same⟩ := bind_eq_ok.mp returned
  obtain rfl := Except.ok.inj same
  exact { Later.refl tables with links := upsert_extends upserted }

theorem upsertVariantArtifact_again
    (returned : upsertVariantArtifact env tables variantId link = .ok tables')
    (after : Later tables' later) :
    upsertVariantArtifact env' later variantId link = .ok later := by
  obtain ⟨⟨id, links, drawn⟩, upserted, same⟩ := bind_eq_ok.mp returned
  obtain rfl := Except.ok.inj same
  have found := upsert_found (by
    intro id row made
    obtain rfl : _ = row := by simpa using made
    simp [Link.names, Link.values]) upserted
  unfold upsertVariantArtifact
  rw [upsert_again (found_later after.links found)]
  rfl

end

section

variable (env' : Environment) {adapter : Adapter} {descriptor : IngestReleaseDescriptor}

variable {links : List Link}

theorem ingestArtifacts_later {typeKey : String} {inputs : List IngestArtifact}
    {tables tables' : Tables} {artifacts : List AdapterArtifact}
    (returned : ingestArtifacts env typeKey tables inputs = .ok (links, artifacts, tables')) :
    Later tables tables' := by
  induction inputs generalizing tables links artifacts with
  | nil =>
    obtain ⟨-, -, rfl⟩ : _ ∧ _ ∧ tables = tables' := by simpa [ingestArtifacts] using returned
    exact Later.refl tables
  | cons input rest ih =>
    obtain ⟨⟨id, between⟩, first, returned⟩ := bind_eq_ok.mp returned
    obtain ⟨artifact, -, returned⟩ := bind_eq_ok.mp returned
    obtain ⟨⟨links', artifacts', last⟩, others, same⟩ := bind_eq_ok.mp returned
    obtain ⟨-, -, rfl⟩ : _ ∧ _ ∧ last = tables' := by simpa [pure, Except.pure] using same
    exact (upsertArtifact_later first).trans (ih others)

theorem ingestArtifacts_again {typeKey : String} {inputs : List IngestArtifact}
    {tables tables' later : Tables} {artifacts : List AdapterArtifact}
    (returned : ingestArtifacts env typeKey tables inputs = .ok (links, artifacts, tables'))
    (after : Later tables' later) :
    ingestArtifacts env' typeKey later inputs = .ok (links, artifacts, later) := by
  induction inputs generalizing tables links artifacts with
  | nil =>
    obtain ⟨rfl, rfl, -⟩ : [] = links ∧ [] = artifacts ∧ _ := by
      simpa [ingestArtifacts] using returned
    rfl
  | cons input rest ih =>
    obtain ⟨⟨id, between⟩, first, returned⟩ := bind_eq_ok.mp returned
    obtain ⟨artifact, adapted, returned⟩ := bind_eq_ok.mp returned
    obtain ⟨⟨links', artifacts', last⟩, others, same⟩ := bind_eq_ok.mp returned
    obtain ⟨rfl, rfl, rfl⟩ : _ = links ∧ _ = artifacts ∧ last = tables' := by
      simpa [pure, Except.pure] using same
    have first_again := upsertArtifact_again env' first
      ((ingestArtifacts_later others).trans after)
    apply bind_eq_ok.mpr ⟨(id, later), first_again, ?_⟩
    apply bind_eq_ok.mpr ⟨artifact, adapted, ?_⟩
    exact bind_eq_ok.mpr ⟨(links', artifacts', later), ih others, rfl⟩

theorem linkArtifacts_later {variantId : String} {tables tables' : Tables}
    (returned : linkArtifacts env variantId tables links = .ok tables') :
    Later tables tables' := by
  induction links generalizing tables with
  | nil =>
    obtain rfl := Except.ok.inj returned
    exact Later.refl tables
  | cons link rest ih =>
    obtain ⟨between, first, others⟩ := bind_eq_ok.mp returned
    exact (upsertVariantArtifact_later first).trans (ih others)

theorem linkArtifacts_again {variantId : String} {tables tables' later : Tables}
    (returned : linkArtifacts env variantId tables links = .ok tables')
    (after : Later tables' later) : linkArtifacts env' variantId later links = .ok later := by
  induction links generalizing tables with
  | nil => rfl
  | cons link rest ih =>
    obtain ⟨between, first, others⟩ := bind_eq_ok.mp returned
    have first_again := upsertVariantArtifact_again env' first
      ((linkArtifacts_later others).trans after)
    exact bind_eq_ok.mpr ⟨later, first_again, ih others⟩

/-- The parts of the ingestion of a variant. -/
theorem ingestVariant_parts {releaseId id : String} {input : IngestVariant}
    {tables tables' : Tables}
    (returned : ingestVariant env adapter descriptor releaseId tables input = .ok (id, tables')) :
    ∃ selector links artifacts manifest between created,
      adapter.canonicalizeSelector input.selector = .ok selector ∧
      ingestArtifacts env descriptor.typeKey tables input.artifacts =
        .ok (links, artifacts, between) ∧
      adapter.buildVariantManifest
        { name := descriptor.name, version := descriptor.version, channel := descriptor.channel }
        selector artifacts = .ok manifest ∧
      upsertVariant env between releaseId selector (env.selectorHashOf selector) input.name manifest =
        .ok (id, created) ∧
      linkArtifacts env id created links = .ok tables' := by
  obtain ⟨selector, canonical, returned⟩ := bind_eq_ok.mp returned
  obtain ⟨⟨links, artifacts, between⟩, ingested, returned⟩ := bind_eq_ok.mp returned
  obtain ⟨manifest, built, returned⟩ := bind_eq_ok.mp returned
  obtain ⟨⟨variantId, created⟩, upserted, returned⟩ := bind_eq_ok.mp returned
  obtain ⟨linked, linking, same⟩ := bind_eq_ok.mp returned
  obtain ⟨rfl, rfl⟩ := Prod.mk.inj (Except.ok.inj same)
  exact ⟨selector, links, artifacts, manifest, between, created, canonical, ingested, built,
    upserted, linking⟩

theorem ingestVariant_later {releaseId id : String} {input : IngestVariant}
    {tables tables' : Tables}
    (returned : ingestVariant env adapter descriptor releaseId tables input = .ok (id, tables')) :
    Later tables tables' := by
  obtain ⟨selector, links, artifacts, manifest, between, created, -, ingested, -, upserted,
    linking⟩ := ingestVariant_parts returned
  exact ((ingestArtifacts_later ingested).trans (upsertVariant_later upserted)).trans
    (linkArtifacts_later linking)

theorem ingestVariant_again (hash : env'.selectorHashOf = env.selectorHashOf)
    {releaseId id : String} {input : IngestVariant} {tables tables' later : Tables}
    (returned : ingestVariant env adapter descriptor releaseId tables input = .ok (id, tables'))
    (after : Later tables' later) :
    ingestVariant env' adapter descriptor releaseId later input = .ok (id, later) := by
  obtain ⟨selector, links, artifacts, manifest, between, created, canonical, ingested, built,
    upserted, linking⟩ := ingestVariant_parts returned
  have created_after := (linkArtifacts_later linking).trans after
  have ingested_again := ingestArtifacts_again env' ingested
    ((upsertVariant_later upserted).trans created_after)
  have upserted_again := upsertVariant_again env' upserted created_after
  rw [← hash] at upserted_again
  apply bind_eq_ok.mpr ⟨selector, canonical, ?_⟩
  apply bind_eq_ok.mpr ⟨(links, artifacts, later), ingested_again, ?_⟩
  apply bind_eq_ok.mpr ⟨manifest, built, ?_⟩
  apply bind_eq_ok.mpr ⟨(id, later), upserted_again, ?_⟩
  exact bind_eq_ok.mpr ⟨later, linkArtifacts_again env' linking after, rfl⟩

theorem ingestVariants_later {releaseId : String} {inputs : List IngestVariant}
    {ids : List String} {tables tables' : Tables}
    (returned : ingestVariants env adapter descriptor releaseId tables inputs =
      .ok (ids, tables')) : Later tables tables' := by
  induction inputs generalizing tables ids with
  | nil =>
    obtain ⟨-, rfl⟩ := Prod.mk.inj (Except.ok.inj returned)
    exact Later.refl tables
  | cons input rest ih =>
    obtain ⟨⟨id, between⟩, first, returned⟩ := bind_eq_ok.mp returned
    obtain ⟨⟨ids', last⟩, others, same⟩ := bind_eq_ok.mp returned
    obtain ⟨-, rfl⟩ := Prod.mk.inj (Except.ok.inj same)
    exact (ingestVariant_later first).trans (ih others)

theorem ingestVariants_again (hash : env'.selectorHashOf = env.selectorHashOf)
    {releaseId : String} {inputs : List IngestVariant} {ids : List String}
    {tables tables' later : Tables}
    (returned : ingestVariants env adapter descriptor releaseId tables inputs =
      .ok (ids, tables'))
    (after : Later tables' later) :
    ingestVariants env' adapter descriptor releaseId later inputs = .ok (ids, later) := by
  induction inputs generalizing tables ids with
  | nil =>
    obtain ⟨rfl, -⟩ := Prod.mk.inj (Except.ok.inj returned)
    rfl
  | cons input rest ih =>
    obtain ⟨⟨id, between⟩, first, returned⟩ := bind_eq_ok.mp returned
    obtain ⟨⟨ids', last⟩, others, same⟩ := bind_eq_ok.mp returned
    obtain ⟨rfl, rfl⟩ := Prod.mk.inj (Except.ok.inj same)
    have first_again := ingestVariant_again env' hash first ((ingestVariants_later others).trans after)
    apply bind_eq_ok.mpr ⟨(id, later), first_again, ?_⟩
    exact bind_eq_ok.mpr ⟨(ids', later), ih others, rfl⟩

/-! ### The publication -/

theorem unpublished_markReady (releaseId : String) (row : Release) :
    unpublished (markReady releaseId row) = unpublished row := by
  unfold markReady unpublished
  split <;> rfl

theorem markReady_again (releaseId : String) (row : Release) :
    markReady releaseId (markReady releaseId row) = markReady releaseId row := by
  unfold markReady
  split <;> simp_all

theorem moveHead_id (headId releaseId : String) (row : ReleaseChannelHead) :
    (moveHead headId releaseId row).id = row.id := by
  unfold moveHead
  split <;> rfl

theorem heads_moveHead (headId releaseId : String) (row : ReleaseChannelHead) :
    descriptor.heads (moveHead headId releaseId row) = descriptor.heads row := by
  unfold moveHead
  split <;> rfl

theorem moveHead_again (headId releaseId : String) (row : ReleaseChannelHead) :
    moveHead headId releaseId (moveHead headId releaseId row) = moveHead headId releaseId row := by
  unfold moveHead
  split <;> simp_all

/-- The parts of a publication. -/
theorem publishRelease_parts {releaseId : String} {tables tables' : Tables}
    (returned : publishRelease env tables descriptor releaseId = .ok tables') :
    ∃ headId heads drawn,
      upsert (env.prefixedId "head") ReleaseChannelHead.id duplicateKey descriptor.heads
        (fun id => .ok { id, typeKey := descriptor.typeKey, name := descriptor.name
                         channel := descriptor.channel, releaseId })
        tables.heads tables.drawn = .ok (headId, heads, drawn) ∧
      tables' = { tables with
        releases := tables.releases.map (markReady releaseId)
        heads := heads.map (moveHead headId releaseId), drawn } := by
  obtain ⟨⟨headId, heads, drawn⟩, upserted, same⟩ := bind_eq_ok.mp returned
  exact ⟨headId, heads, drawn, upserted, (Except.ok.inj same).symm⟩

theorem publishRelease_later {releaseId : String} {tables tables' : Tables}
    (returned : publishRelease env tables descriptor releaseId = .ok tables') :
    Later tables tables' := by
  obtain ⟨headId, heads, drawn, -, rfl⟩ := publishRelease_parts returned
  refine { Later.refl tables with releases := ?_ }
  have same : unpublished ∘ markReady releaseId = unpublished := by
    funext row
    exact unpublished_markReady releaseId row
  have rows : (tables.releases.map (markReady releaseId)).map unpublished =
      tables.releases.map unpublished := by
    rw [List.map_map, same]
  exact rows ▸ List.prefix_rfl

theorem publishRelease_again {releaseId : String} {tables tables' : Tables}
    (returned : publishRelease env tables descriptor releaseId = .ok tables') :
    publishRelease env' tables' descriptor releaseId = .ok tables' := by
  obtain ⟨headId, heads, drawn, upserted, rfl⟩ := publishRelease_parts returned
  have found := upsert_found (by
    intro id row made
    obtain rfl : _ = row := by simpa using made
    simp [IngestReleaseDescriptor.heads]) upserted
  have found_again : ((heads.map (moveHead headId releaseId)).find? descriptor.heads).map
      ReleaseChannelHead.id = some headId := by
    have names : descriptor.heads ∘ moveHead headId releaseId = descriptor.heads := by
      funext row
      exact heads_moveHead headId releaseId row
    have ids : ReleaseChannelHead.id ∘ moveHead headId releaseId = ReleaseChannelHead.id := by
      funext row
      exact moveHead_id headId releaseId row
    rw [List.find?_map, Option.map_map, names, ids, found]
  have releases_again : (tables.releases.map (markReady releaseId)).map (markReady releaseId) =
      tables.releases.map (markReady releaseId) := by
    rw [List.map_map]
    exact List.map_congr_left fun row _ => markReady_again releaseId row
  have heads_again : (heads.map (moveHead headId releaseId)).map (moveHead headId releaseId) =
      heads.map (moveHead headId releaseId) := by
    rw [List.map_map]
    exact List.map_congr_left fun row _ => moveHead_again headId releaseId row
  unfold publishRelease
  rw [upsert_again found_again]
  simp only [bind, Except.bind, pure, Except.pure, releases_again, heads_again]

/-! ### The whole call -/

/-- The parts of a call. -/
theorem ingestRelease_parts {tables tables' : Tables} {result : IngestResult}
    (returned : ingestRelease env tables descriptor = .ok (result, tables')) :
    ∃ type adapter released ingested,
      tables.artifactTypes.find? (fun type => type.key = descriptor.typeKey) = some type ∧
      getAdapter type.adapterKey = .ok adapter ∧
      upsertRelease env tables descriptor = .ok (result.releaseId, released) ∧
      ingestVariants env adapter descriptor result.releaseId released descriptor.variants =
        .ok (result.variantIds, ingested) ∧
      (if descriptor.publish then
          publishRelease env ingested descriptor result.releaseId = .ok tables'
        else ingested = tables') := by
  unfold ingestRelease at returned
  cases known : tables.artifactTypes.find? fun type => type.key = descriptor.typeKey with
  | none => simp [known] at returned
  | some type =>
    simp only [known] at returned
    obtain ⟨adapter, found, returned⟩ := bind_eq_ok.mp returned
    obtain ⟨⟨releaseId, released⟩, release, returned⟩ := bind_eq_ok.mp returned
    obtain ⟨⟨variantIds, ingested⟩, variants, returned⟩ := bind_eq_ok.mp returned
    cases publish : descriptor.publish with
    | false =>
      simp only [publish] at returned
      obtain ⟨rfl, rfl⟩ := Prod.mk.inj (Except.ok.inj returned)
      exact ⟨type, adapter, released, ingested, rfl, found, release, variants, rfl⟩
    | true =>
      simp only [publish, if_true] at returned
      obtain ⟨published, publication, same⟩ := bind_eq_ok.mp returned
      obtain ⟨rfl, rfl⟩ := Prod.mk.inj (Except.ok.inj same)
      exact ⟨type, adapter, released, ingested, rfl, found, release, variants, publication⟩

/-- A call that is made again finds all its rows, and changes nothing but times. -/
theorem ingestRelease_again (hash : env'.selectorHashOf = env.selectorHashOf)
    {tables tables' : Tables} {result : IngestResult}
    (returned : ingestRelease env tables descriptor = .ok (result, tables')) :
    ingestRelease env' tables' descriptor = .ok (result, tables') := by
  obtain ⟨type, adapter, released, ingested, known, found, release, variants, published⟩ :=
    ingestRelease_parts returned
  have publication : Later ingested tables' := by
    split at published
    · exact publishRelease_later published
    · rw [published]
      exact Later.refl tables'
  have ingestion := ingestVariants_later variants
  have release_again := upsertRelease_again env' release (ingestion.trans publication)
  have variants_again := ingestVariants_again env' hash variants publication
  have known_again : tables'.artifactTypes.find? (fun type => type.key = descriptor.typeKey) =
      some type := by
    rw [← ((upsertRelease_later release).trans (ingestion.trans publication)).types, known]
  unfold ingestRelease
  simp only [known_again]
  apply bind_eq_ok.mpr ⟨adapter, found, ?_⟩
  apply bind_eq_ok.mpr ⟨(result.releaseId, tables'), release_again, ?_⟩
  apply bind_eq_ok.mpr ⟨(result.variantIds, tables'), variants_again, ?_⟩
  cases publish : descriptor.publish with
  | false => rfl
  | true =>
    rw [publish] at published
    have published_again := publishRelease_again env' published
    simp only [if_true, published_again]
    rfl

end

end HelixKit.Backend.ReleaseIngest
