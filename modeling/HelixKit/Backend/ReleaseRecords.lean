/-
Purpose: What the releases database holds over a sequence of ingestions: manifests that list the
  linked artifacts, and channel heads that are releases of their channel.
Trusted boundary: none
-/
import HelixKit.Backend.ReleaseIngest
import HelixKit.Lib.Runs

namespace HelixKit.Backend.ReleaseRecords

open ReleaseSchema ReleaseAdapters ReleaseIngest
open HelixKit.Runs HelixKit.Fallible HelixKit.Upsert

/-! ## What holds -/

/-- A linked artifact, as its link and its row give it. -/
def linkedArtifact (link : VariantArtifact) (row : Artifact) : AdapterArtifact :=
  { role := link.role, offset := link.offset, path := link.path, storageMode := row.storageMode
    sha256 := row.sha256, sizeBytes := row.sizeBytes, storageKey := row.storageKey
    registry := row.registry, coordinate := row.coordinate, refVersion := row.refVersion
    digest := row.digest }

/-- A link, joined with the artifacts. -/
def joined (artifacts : List Artifact) (link : VariantArtifact) : List AdapterArtifact :=
  (artifacts.filter fun row => row.id = link.artifactId).map (linkedArtifact link)

/-- The links of a variant. -/
def linksOf (links : List VariantArtifact) (variantId : String) : List VariantArtifact :=
  links.filter fun link => link.variantId = variantId

/-- The artifacts that are linked to a variant. -/
def linked (tables : Tables) (variantId : String) : List AdapterArtifact :=
  (linksOf tables.links variantId).flatMap (joined tables.artifacts)

def rolesOf (tables : Tables) (variantId : String) : List String :=
  (linksOf tables.links variantId).map VariantArtifact.role

/-- The manifest of a variant lists exactly the artifacts that are linked to it. -/
def Listed (tables : Tables) (variant : Variant Selector Manifest) : Prop :=
  ∃ manifest, variant.manifest = some manifest ∧
    manifest.ListsExactly (linked tables variant.id)

/-- A head is a release of its channel. -/
def Held (tables : Tables) (head : ReleaseChannelHead) : Prop :=
  ∃ release ∈ tables.releases, release.id = head.releaseId ∧ release.typeKey = head.typeKey ∧
    release.name = head.name ∧ release.channel = head.channel

/-- The keys of the tables: ids are unique, references lead to a row, and a ref has no digest. -/
structure Keyed (tables : Tables) : Prop where
  artifact_ids : (tables.artifacts.map Artifact.id).Nodup
  ref_digest : ∀ row ∈ tables.artifacts, row.storageMode = .ref → row.sha256 = none
  release_ids : (tables.releases.map Release.id).Nodup
  head_ids : (tables.heads.map ReleaseChannelHead.id).Nodup
  variant_ids : (tables.variants.map Variant.id).Nodup
  variant_release : ∀ variant ∈ tables.variants, ∃ row ∈ tables.releases, row.id = variant.releaseId
  link_variant : ∀ link ∈ tables.links, ∃ row ∈ tables.variants, row.id = link.variantId
  link_artifact : ∀ link ∈ tables.links, ∃ row ∈ tables.artifacts, row.id = link.artifactId

structure Sound (tables : Tables) : Prop where
  keyed : Keyed tables
  listed : ∀ variant ∈ tables.variants, Listed tables variant
  held : ∀ head ∈ tables.heads, Held tables head

/-! ## Calls that keep it -/

/-- The artifacts that the manifests of an adapter list. -/
def listedBy (adapter : Adapter) (input : IngestArtifact) : Bool :=
  match adapter, input with
  | .esp32Firmware, .blob role offset _ _ _ => role ∈ flashRoles && offset.isSome
  | .linuxPackage, .blob _ _ _ _ _ => true
  | _, .ref _ _ _ _ _ _ _ => false

def namesBlob (sha256 : String) (row : Artifact) : Bool :=
  row.storageMode = .blob && row.sha256 = some sha256

def givenSize (sha256 : String) : IngestArtifact → Option Nat
  | .blob _ _ _ digest size => if digest = sha256 then some size else none
  | .ref _ _ _ _ _ _ _ => none

/-- The size that is stored for a blob, or else the first that is given. -/
def sizeOf (artifacts : List Artifact) (given : List IngestArtifact) (sha256 : String) :
    Option Nat :=
  match artifacts.find? (namesBlob sha256) with
  | some row => row.sizeBytes
  | none => given.findSome? (givenSize sha256)

/-- The manifest of a variant that is there, by its adapter, and the roles that are linked. -/
structure Known where
  adapter : Option Adapter
  roles : List String
deriving Repr, DecidableEq

def known (tables : Tables) (releaseId selectorHash : String) : Option Known :=
  (tables.variants.find? (namesVariant releaseId selectorHash)).map fun variant =>
    { adapter := variant.manifest.map Manifest.adapter, roles := rolesOf tables variant.id }

/-- No artifact that its manifest would list is newly linked to a variant that is there. -/
def Known.fits (variant : Known) (inputs : List IngestArtifact) : Bool :=
  (newlyLinked IngestArtifact.role variant.roles inputs).all fun input =>
    !variant.adapter.any fun adapter => listedBy adapter input

/-- The blobs of a new package have roles of their own, and what the manifest of a new variant
lists has the size that is stored. -/
def newFits (adapter : Adapter) (size : String → Option Nat) (inputs : List IngestArtifact) :
    Bool :=
  (adapter = .esp32Firmware || inputs.filter (listedBy adapter) =
    (newlyLinked IngestArtifact.role [] inputs).filter (listedBy adapter)) &&
  (newlyLinked IngestArtifact.role [] inputs).all fun input =>
    match input with
    | .blob _ _ _ sha256 sizeBytes => !listedBy adapter input || size sha256 = some sizeBytes
    | .ref _ _ _ _ _ _ _ => true

def Known.with (variant : Known) (inputs : List IngestArtifact) : Known :=
  { variant with roles := variant.roles ++
      (newlyLinked IngestArtifact.role variant.roles inputs).map IngestArtifact.role }

/-- The variants of a call fit what is there: `variants` says so by the hash of the selector, with
the earlier variants of the call. -/
def fitsVariants (selectorHashOf : Selector → String) (adapter : Adapter)
    (size : String → Option Nat) : (String → Option Known) → List IngestVariant → Bool
  | _, [] => true
  | variants, input :: rest =>
    match adapter.canonicalizeSelector input.selector with
    | .error _ => true
    | .ok selector =>
      let hash := selectorHashOf selector
      let there := (variants hash).getD { adapter := some adapter, roles := [] }
      (match variants hash with
        | some variant => variant.fits input.artifacts
        | none => newFits adapter size input.artifacts) &&
      fitsVariants selectorHashOf adapter size
        (Function.update variants hash (some (there.with input.artifacts))) rest

/-- The variants of the release of a call, by the hash of their selector. -/
def knownBefore (tables : Tables) (descriptor : IngestReleaseDescriptor) (hash : String) :
    Option Known :=
  match tables.releases.find? descriptor.names with
  | none => none
  | some release => known tables release.id hash

/-- The adapter of a type, where there is one. -/
def adapterOf (tables : Tables) (typeKey : String) : Option Adapter :=
  match tables.artifactTypes.find? fun type => type.key = typeKey with
  | none => none
  | some type => (getAdapter type.adapterKey).toOption

/-- A release that is there is published to its own channel. -/
def fitsChannel (tables : Tables) (descriptor : IngestReleaseDescriptor) : Bool :=
  !descriptor.publish ||
    (tables.releases.find? descriptor.names).all fun release => release.channel = descriptor.channel

def Fits (selectorHashOf : Selector → String) (tables : Tables)
    (descriptor : IngestReleaseDescriptor) : Prop :=
  fitsChannel tables descriptor = true ∧
  ∀ adapter ∈ adapterOf tables descriptor.typeKey,
    fitsVariants selectorHashOf adapter
      (sizeOf tables.artifacts (descriptor.variants.flatMap IngestVariant.artifacts))
      (knownBefore tables descriptor) descriptor.variants = true

/-! ## Artifacts -/

/-- What the adapter sees of an input. -/
def adapted : IngestArtifact → AdapterArtifact
  | .ref role offset path registry coordinate refVersion digest =>
    { role, offset, path, storageMode := .ref, sha256 := none, sizeBytes := none
      storageKey := none, registry, coordinate, refVersion, digest }
  | .blob role offset path sha256 sizeBytes =>
    { role, offset, path, storageMode := .blob, sha256, sizeBytes
      storageKey := some s!"cas/{sha256}", registry := none, coordinate := none
      refVersion := none, digest := none }

theorem toAdapterArtifact_eq {input : IngestArtifact} {artifact : AdapterArtifact}
    (returned : toAdapterArtifact input = .ok artifact) : artifact = adapted input := by
  cases input with
  | ref role offset path registry coordinate refVersion digest =>
    exact (Except.ok.inj returned).symm
  | blob role offset path sha256 sizeBytes =>
    obtain ⟨storageKey, joined, same⟩ := bind_eq_ok.mp returned
    have key : storageKey = s!"cas/{sha256}" := by
      unfold joinCasKey at joined
      split at joined
      · exact (Except.ok.inj joined).symm
      · cases joined
    rw [← Except.ok.inj same, key]
    rfl

theorem adapted_role (input : IngestArtifact) : (adapted input).role = input.role := by
  cases input <;> rfl

variable {row : Artifact}

theorem filter_id {artifacts : List Artifact} (ids : (artifacts.map Artifact.id).Nodup)
    (member : row ∈ artifacts) :
    artifacts.filter (fun other => other.id = row.id) = [row] := by
  induction artifacts with
  | nil => cases member
  | cons first rest ih =>
    rw [List.map_cons, List.nodup_cons] at ids
    obtain ⟨absent, ids⟩ := ids
    have elsewhere : ∀ other ∈ rest, other.id ≠ first.id := fun other other_mem same =>
      absent (same ▸ List.mem_map_of_mem other_mem)
    rcases List.mem_cons.mp member with rfl | inside
    · rw [List.filter_cons_of_pos (by simp)]
      congr 1
      rw [List.filter_eq_nil_iff]
      intro other other_mem
      simpa using elsewhere other other_mem
    · rw [List.filter_cons_of_neg (by simpa using (elsewhere row inside).symm)]
      exact ih ids inside

/-- The joined rows of a link do not change when artifacts are added. -/
theorem joined_append {artifacts : List Artifact} {link : VariantArtifact}
    (there : ∃ other ∈ artifacts, other.id = link.artifactId)
    (unused : ∀ other ∈ artifacts, other.id ≠ row.id) :
    joined (artifacts ++ [row]) link = joined artifacts link := by
  obtain ⟨other, other_mem, named⟩ := there
  have different : ¬ row.id = link.artifactId := by
    rw [← named]
    exact (unused other other_mem).symm
  rw [joined, List.filter_append, List.filter_cons_of_neg (by simpa using different)]
  simp [joined]

variable {drawn : Nat}

theorem linked_append {tables : Tables} (keyed : Keyed tables)
    (unused : ∀ other ∈ tables.artifacts, other.id ≠ row.id) (variantId : String) :
    linked { tables with artifacts := tables.artifacts ++ [row], drawn } variantId =
      linked tables variantId := by
  unfold linked
  apply List.flatMap_congr
  intro link link_mem
  have inside := (List.mem_filter.mp link_mem).1
  exact joined_append (keyed.link_artifact link inside) unused

/-- A link carries an input: it leads to an artifact of its natural key and of the given size. -/
def Carried (artifacts : List Artifact) (size : String → Option Nat) (input : IngestArtifact)
    (link : Link) : Prop :=
  link.role = input.role ∧ link.offset = input.offset ∧ link.path = input.path ∧
    ∃ row ∈ artifacts, row.id = link.artifactId ∧ input.names row = true ∧
      ∀ sha256, (givenSize sha256 input).isSome → row.sizeBytes = size sha256

/-- What the ingestion of artifacts leaves as it was. -/
structure ArtifactsAdded (tables tables' : Tables) : Prop where
  keyed : Keyed tables'
  same : tables' = { tables with artifacts := tables'.artifacts, drawn := tables'.drawn }
  linked_eq : ∀ variantId, linked tables' variantId = linked tables variantId

theorem Keyed.addArtifact {tables : Tables} (keyed : Keyed tables)
    (unused : ∀ other ∈ tables.artifacts, other.id ≠ row.id)
    (ref : row.storageMode = .ref → row.sha256 = none) :
    Keyed { tables with artifacts := tables.artifacts ++ [row], drawn } where
  artifact_ids := nodup_map_concat keyed.artifact_ids unused
  ref_digest := by
    intro other other_mem is_ref
    rcases List.mem_append.mp other_mem with old | new
    · exact keyed.ref_digest other old is_ref
    · obtain rfl := List.mem_singleton.mp new
      exact ref is_ref
  release_ids := keyed.release_ids
  head_ids := keyed.head_ids
  variant_ids := keyed.variant_ids
  variant_release := keyed.variant_release
  link_variant := keyed.link_variant
  link_artifact := by
    intro link link_mem
    obtain ⟨other, other_mem, named⟩ := keyed.link_artifact link link_mem
    exact ⟨other, List.mem_append_left _ other_mem, named⟩

theorem values_facts {input : IngestArtifact} {typeKey id : String}
    (made : input.values typeKey id = .ok row) :
    (row.storageMode = .ref → row.sha256 = none) ∧ ∀ sha256,
      if namesBlob sha256 row then ∃ bytes, row.sizeBytes = some bytes ∧
        givenSize sha256 input = some bytes
      else givenSize sha256 input = none := by
  cases input with
  | ref role offset path registry coordinate refVersion digest =>
    obtain rfl : _ = row := Except.ok.inj made
    exact ⟨fun _ => rfl, fun sha256 => by simp [namesBlob, givenSize]⟩
  | blob role offset path digest sizeBytes =>
    obtain ⟨storageKey, -, made⟩ := bind_eq_ok.mp made
    obtain rfl : _ = row := Except.ok.inj made
    constructor
    · intro is_ref
      cases is_ref
    · intro sha256
      by_cases same : digest = sha256 <;> simp [namesBlob, givenSize, same]

theorem names_blob {input : IngestArtifact} {sha256 : String}
    (given : (givenSize sha256 input).isSome) : input.names = namesBlob sha256 := by
  cases input with
  | ref => simp [givenSize] at given
  | blob role offset path digest sizeBytes =>
    have same : digest = sha256 := by
      by_contra different
      simp [givenSize, different] at given
    funext row
    simp [IngestArtifact.names, namesBlob, same]

/-- An artifact that is ingested moves from the given sizes to the stored ones. -/
theorem upsertArtifact_spec {env : Environment} {tables tables' : Tables} {typeKey id : String}
    {input : IngestArtifact} (keyed : Keyed tables)
    (returned : upsertArtifact env tables typeKey input = .ok (id, tables')) :
    ArtifactsAdded tables tables' ∧
      (∀ rest sha256, sizeOf tables'.artifacts rest sha256 =
        sizeOf tables.artifacts (input :: rest) sha256) ∧
      ∃ row ∈ tables'.artifacts, row.id = id ∧ tables'.artifacts.find? input.names = some row := by
  obtain ⟨⟨id, artifacts, drawn⟩, upserted, same⟩ := bind_eq_ok.mp returned
  obtain ⟨rfl, rfl⟩ := Prod.mk.inj (Except.ok.inj same)
  rcases upsert_cases upserted with
    ⟨row, found, rfl, rfl, rfl⟩ | ⟨missing, row, made, unused, rfl⟩
  · refine ⟨⟨keyed, rfl, fun _ => rfl⟩, ?_, row, List.mem_of_find?_eq_some found, rfl, found⟩
    intro rest sha256
    unfold sizeOf
    cases stored : tables.artifacts.find? (namesBlob sha256) with
    | some other => rfl
    | none =>
      have not_given : givenSize sha256 input = none := by
        rw [← Option.not_isSome_iff_eq_none]
        intro given
        rw [← names_blob given, found] at stored
        cases stored
      simp [not_given]
  · obtain ⟨named, matching⟩ := values_named made
    obtain ⟨ref, sizes⟩ := values_facts made
    rw [← named] at unused
    refine ⟨⟨keyed.addArtifact unused ref, rfl, linked_append keyed unused⟩, ?_, row,
      by simp, named, ?_⟩
    · intro rest sha256
      unfold sizeOf
      rw [List.find?_append]
      cases stored : tables.artifacts.find? (namesBlob sha256) with
      | some other => rfl
      | none =>
        have size := sizes sha256
        rw [Option.none_or, List.findSome?_cons]
        split at size
        next names =>
          obtain ⟨bytes, stored_size, given_size⟩ := size
          rw [List.find?_cons_of_pos names, given_size]
          exact stored_size
        next names =>
          rw [List.find?_cons_of_neg names, size]
          rfl
    · rw [List.find?_append, missing, List.find?_cons_of_pos matching]
      rfl

theorem Carried.later {artifacts later : List Artifact} {size : String → Option Nat}
    {input : IngestArtifact} {link : Link} (carried : Carried artifacts size input link)
    (longer : artifacts <+: later) : Carried later size input link := by
  obtain ⟨role, offset, path, row, row_mem, facts⟩ := carried
  exact ⟨role, offset, path, row, longer.subset row_mem, facts⟩

theorem ArtifactsAdded.refl {tables : Tables} (keyed : Keyed tables) :
    ArtifactsAdded tables tables :=
  ⟨keyed, rfl, fun _ => rfl⟩

theorem ArtifactsAdded.trans {first second third : Tables} (one : ArtifactsAdded first second)
    (two : ArtifactsAdded second third) : ArtifactsAdded first third where
  keyed := two.keyed
  same := by
    rw [two.same, one.same]
  linked_eq variantId := (two.linked_eq variantId).trans (one.linked_eq variantId)

theorem ingestArtifacts_spec {env : Environment} {typeKey : String}
    {inputs : List IngestArtifact} {tables tables' : Tables} {links : List Link}
    {artifacts : List AdapterArtifact} (keyed : Keyed tables)
    (returned : ingestArtifacts env typeKey tables inputs = .ok (links, artifacts, tables')) :
    ArtifactsAdded tables tables' ∧ artifacts = inputs.map adapted ∧
      ∀ rest, sizeOf tables'.artifacts rest = sizeOf tables.artifacts (inputs ++ rest) ∧
        List.Forall₂ (Carried tables'.artifacts (sizeOf tables.artifacts (inputs ++ rest)))
          inputs links := by
  induction inputs generalizing tables links artifacts with
  | nil =>
    obtain ⟨rfl, rfl, rfl⟩ : [] = links ∧ [] = artifacts ∧ tables = tables' := by
      simpa [ingestArtifacts] using returned
    exact ⟨.refl keyed, rfl, fun rest => ⟨rfl, List.Forall₂.nil⟩⟩
  | cons input others ih =>
    obtain ⟨⟨id, between⟩, first, returned⟩ := bind_eq_ok.mp returned
    obtain ⟨artifact, described, returned⟩ := bind_eq_ok.mp returned
    obtain ⟨⟨links', artifacts', last⟩, following, same⟩ := bind_eq_ok.mp returned
    obtain ⟨rfl, rfl, rfl⟩ : _ = links ∧ _ = artifacts ∧ last = tables' := by
      simpa [pure, Except.pure] using same
    obtain ⟨added, sizes, row, row_mem, named, found⟩ := upsertArtifact_spec keyed first
    obtain ⟨added', artifacts_eq, later⟩ := ih added.keyed following
    refine ⟨added.trans added', ?_, ?_⟩
    · rw [artifacts_eq, toAdapterArtifact_eq described, List.map_cons]
    · intro rest
      obtain ⟨sizes', carried⟩ := later rest
      have size_eq : sizeOf between.artifacts (others ++ rest) =
          sizeOf tables.artifacts (input :: (others ++ rest)) := by
        funext sha256
        exact sizes (others ++ rest) sha256
      rw [List.cons_append, ← size_eq]
      refine ⟨sizes', List.Forall₂.cons ?_ carried⟩
      have here : Carried between.artifacts (sizeOf between.artifacts (others ++ rest)) input
          { artifactId := id, role := input.role, offset := input.offset, path := input.path } := by
        refine ⟨rfl, rfl, rfl, row, row_mem, named, List.find?_some found, ?_⟩
        intro sha256 given
        rw [names_blob given] at found
        simp only [sizeOf, found]
      exact here.later (ingestArtifacts_later following).artifacts

/-! ## Links -/

/-- The link of a row. -/
def linkOf (row : VariantArtifact) : Link :=
  { artifactId := row.artifactId, role := row.role, offset := row.offset, path := row.path }

theorem newlyLinked_congr {Row : Type} {roleOf : Row → String} {roles other : List String}
    (same : ∀ role, role ∈ roles ↔ role ∈ other) (rows : List Row) :
    newlyLinked roleOf roles rows = newlyLinked roleOf other rows := by
  induction rows generalizing roles other with
  | nil => rfl
  | cons row rest ih =>
    have extended : ∀ role, role ∈ roleOf row :: roles ↔ role ∈ roleOf row :: other := by
      intro role
      rw [List.mem_cons, List.mem_cons, same]
    simp only [newlyLinked, same, ih same, ih extended]

theorem newlyLinked_map {Row Other : Type} {roleOf : Row → String} {roleOf' : Other → String}
    {f : Row → Other} (same : ∀ row, roleOf' (f row) = roleOf row) (roles : List String)
    (rows : List Row) :
    newlyLinked roleOf' roles (rows.map f) = (newlyLinked roleOf roles rows).map f := by
  induction rows generalizing roles with
  | nil => rfl
  | cons row rest ih =>
    simp only [List.map_cons, newlyLinked, same, ih]
    split <;> simp

theorem newlyLinked_forall₂ {Row Other : Type} (roleOf : Row → String)
    (roleOf' : Other → String) {R : Row → Other → Prop} {rows : List Row} {others : List Other}
    (related : List.Forall₂ R rows others) (same : ∀ a b, R a b → roleOf' b = roleOf a)
    (roles : List String) :
    List.Forall₂ R (newlyLinked roleOf roles rows) (newlyLinked roleOf' roles others) := by
  induction related generalizing roles with
  | nil => exact List.Forall₂.nil
  | cons here _ ih =>
    simp only [newlyLinked, same _ _ here]
    split
    · exact ih roles
    · exact List.Forall₂.cons here (ih _)

theorem rolesOf_append (tables : Tables) (row : VariantArtifact) (drawn : Nat)
    (variantId : String) :
    rolesOf { tables with links := tables.links ++ [row], drawn } variantId =
      rolesOf tables variantId ++ if row.variantId = variantId then [row.role] else [] := by
  unfold rolesOf linksOf
  by_cases same : row.variantId = variantId <;> simp [same]

/-- The links of roles that the variant lacks are added to it. -/
theorem linkArtifacts_spec {env : Environment} {variantId : String} {links : List Link}
    {tables tables' : Tables}
    (returned : linkArtifacts env variantId tables links = .ok tables') :
    ∃ rows drawn, tables' = { tables with links := tables.links ++ rows, drawn } ∧
      (∀ row ∈ rows, row.variantId = variantId) ∧
      rows.map linkOf = newlyLinked Link.role (rolesOf tables variantId) links := by
  induction links generalizing tables with
  | nil =>
    obtain rfl := Except.ok.inj returned
    exact ⟨[], tables.drawn, by simp, by simp, rfl⟩
  | cons link rest ih =>
    obtain ⟨between, first, following⟩ := bind_eq_ok.mp returned
    obtain ⟨rows, drawn, rfl, all, mapped⟩ := ih following
    obtain ⟨⟨id, links', drawn'⟩, upserted, same⟩ := bind_eq_ok.mp first
    obtain rfl := Except.ok.inj same
    rcases upsert_cases upserted with
      ⟨row, found, -, rfl, rfl⟩ | ⟨missing, row, made, -, rfl⟩
    · have there : link.role ∈ rolesOf tables variantId := by
        have names := List.find?_some found
        simp only [Link.names, Bool.and_eq_true, decide_eq_true_eq] at names
        rw [← names.2]
        apply List.mem_map_of_mem
        exact List.mem_filter.mpr ⟨List.mem_of_find?_eq_some found, by simpa using names.1⟩
      refine ⟨rows, drawn, rfl, all, ?_⟩
      rw [newlyLinked, if_pos there]
      exact mapped
    · obtain rfl := Except.ok.inj made
      have absent : link.role ∉ rolesOf tables variantId := by
        intro there
        obtain ⟨row, row_mem, same_role⟩ := List.mem_map.mp there
        obtain ⟨row_mem, same_variant⟩ := List.mem_filter.mp row_mem
        have not_named := List.find?_eq_none.mp missing row row_mem
        apply not_named
        simpa [Link.names, same_role] using same_variant
      refine ⟨link.values variantId id :: rows, drawn, ?_, ?_, ?_⟩
      · simp
      · intro row row_mem
        rcases List.mem_cons.mp row_mem with rfl | inside
        · rfl
        · exact all row inside
      · rw [newlyLinked, if_neg absent, List.map_cons, mapped]
        have roles := rolesOf_append tables (link.values variantId id) drawn' variantId
        have own : (link.values variantId id).variantId = variantId := rfl
        rw [if_pos own] at roles
        congr 1
        rw [roles]
        apply newlyLinked_congr
        intro role
        simp [Link.values, or_comm]

/-- The rows that a variant has after others were added to it or to another. -/
theorem linked_addLinks (tables : Tables) (drawn : Nat) {rows : List VariantArtifact}
    {variantId : String} (all : ∀ row ∈ rows, row.variantId = variantId) :
    linked { tables with links := tables.links ++ rows, drawn } variantId =
        linked tables variantId ++ rows.flatMap (joined tables.artifacts) ∧
      rolesOf { tables with links := tables.links ++ rows, drawn } variantId =
        rolesOf tables variantId ++ rows.map VariantArtifact.role ∧
      ∀ other, other ≠ variantId →
        linked { tables with links := tables.links ++ rows, drawn } other = linked tables other ∧
        rolesOf { tables with links := tables.links ++ rows, drawn } other = rolesOf tables other := by
  have own : linksOf rows variantId = rows := by
    unfold linksOf
    rw [List.filter_eq_self]
    intro row row_mem
    simpa using all row row_mem
  have split : ∀ other, linksOf (tables.links ++ rows) other =
      linksOf tables.links other ++ linksOf rows other :=
    fun other => List.filter_append ..
  refine ⟨?_, ?_, ?_⟩
  · simp only [linked, split, own, List.flatMap_append]
  · simp only [rolesOf, split, own, List.map_append]
  · intro other different
    have none_added : linksOf rows other = [] := by
      unfold linksOf
      rw [List.filter_eq_nil_iff]
      intro row row_mem
      simpa [all row row_mem] using different.symm
    simp only [linked, rolesOf, split, none_added, List.append_nil, and_self]

/-! ## What the manifest lists -/

theorem joined_eq {artifacts : List Artifact} {artifact : Artifact} {row : VariantArtifact}
    (ids : (artifacts.map Artifact.id).Nodup) (member : artifact ∈ artifacts)
    (named : artifact.id = row.artifactId) : joined artifacts row = [linkedArtifact row artifact] := by
  have only := filter_id ids member
  rw [named] at only
  rw [joined, only]
  rfl

theorem entry_unlisted {adapter : Adapter} {artifacts : List Artifact}
    {size : String → Option Nat} {input : IngestArtifact} {row : VariantArtifact}
    (ids : (artifacts.map Artifact.id).Nodup)
    (ref : ∀ artifact ∈ artifacts, artifact.storageMode = .ref → artifact.sha256 = none)
    (carried : Carried artifacts size input (linkOf row)) (unlisted : listedBy adapter input = false) :
    (joined artifacts row).filterMap adapter.entry = [] := by
  obtain ⟨role, offset, path, artifact, artifact_mem, named, names, -⟩ := carried
  have joined_eq := joined_eq ids artifact_mem named
  have no_entry : adapter.entry (linkedArtifact row artifact) = none := by
    cases input with
    | ref role' offset' path' registry coordinate refVersion digest =>
      simp only [IngestArtifact.names, Bool.and_eq_true, decide_eq_true_eq] at names
      have no_digest := ref artifact artifact_mem names.1.1.1
      cases adapter with
      | esp32Firmware =>
        cases given : row.offset <;>
          simp [Adapter.entry, flashed, flashEntry, linkedArtifact, no_digest, given]
      | linuxPackage =>
        simp [Adapter.entry, packageEntry, linkedArtifact, names.1.1.1]
    | blob role' offset' path' sha256 sizeBytes =>
      cases adapter with
      | linuxPackage => cases unlisted
      | esp32Firmware =>
        have same_role : row.role = role' := role
        have same_offset : row.offset = offset' := offset
        by_cases flash : role' ∈ flashRoles
        · have no_offset : offset' = none := by simpa [listedBy, flash] using unlisted
          simp [Adapter.entry, flashed, flashEntry, linkedArtifact, same_offset, no_offset]
        · simp [Adapter.entry, flashed, linkedArtifact, same_role, flash]
  rw [joined_eq, List.filterMap_cons_none no_entry, List.filterMap_nil]

theorem entry_listed {adapter : Adapter} {artifacts : List Artifact}
    {size : String → Option Nat} {role sha256 : String} {offset path : Option String}
    {sizeBytes : Nat} {row : VariantArtifact} (ids : (artifacts.map Artifact.id).Nodup)
    (carried : Carried artifacts size (.blob role offset path sha256 sizeBytes) (linkOf row))
    (size_eq : size sha256 = some sizeBytes) :
    (joined artifacts row).filterMap adapter.entry =
      (adapter.entry (adapted (.blob role offset path sha256 sizeBytes))).toList := by
  obtain ⟨same_role, same_offset, same_path, artifact, artifact_mem, named, names, sizes⟩ := carried
  have joined_eq := joined_eq ids artifact_mem named
  have stored : artifact.sizeBytes = some sizeBytes := by
    rw [sizes sha256 (by simp [givenSize]), size_eq]
  simp only [IngestArtifact.names, Bool.and_eq_true, decide_eq_true_eq] at names
  have entry_eq : adapter.entry (linkedArtifact row artifact) =
      adapter.entry (adapted (.blob role offset path sha256 sizeBytes)) :=
    entry_congr same_role same_offset same_path names.1 names.2 stored
  rw [joined_eq, ← entry_eq]
  cases made : adapter.entry (linkedArtifact row artifact) <;> simp [made]

theorem adapted_unlisted {adapter : Adapter} {input : IngestArtifact}
    (unlisted : listedBy adapter input = false) : adapter.entry (adapted input) = none := by
  cases input with
  | ref role offset path registry coordinate refVersion digest =>
    cases adapter with
    | esp32Firmware =>
      by_cases flash : role ∈ flashRoles <;> cases offset <;>
        simp [Adapter.entry, flashed, flashEntry, adapted, flash]
    | linuxPackage => simp [Adapter.entry, packageEntry, adapted]
  | blob role offset path sha256 sizeBytes =>
    cases adapter with
    | linuxPackage => cases unlisted
    | esp32Firmware =>
      by_cases flash : role ∈ flashRoles
      · have no_offset : offset = none := by simpa [listedBy, flash] using unlisted
        simp [Adapter.entry, flashed, flashEntry, adapted, no_offset]
      · simp [Adapter.entry, flashed, adapted, flash]

theorem filterMap_listed (adapter : Adapter) (inputs : List IngestArtifact) :
    inputs.filterMap (fun input => adapter.entry (adapted input)) =
      (inputs.filter (listedBy adapter)).filterMap fun input => adapter.entry (adapted input) := by
  induction inputs with
  | nil => rfl
  | cons input rest ih =>
    cases listed : listedBy adapter input with
    | true => simp only [List.filter_cons_of_pos listed, List.filterMap_cons, ih]
    | false =>
      have no_entry := adapted_unlisted listed
      rw [List.filter_cons_of_neg (by simp [listed]), ← ih, List.filterMap_cons, no_entry]

/-- The manifest of a new variant lists the artifacts that are linked to it first. -/
theorem build_entries {adapter : Adapter} {release : ManifestRelease} {selector : Selector}
    {inputs : List IngestArtifact} {manifest : Manifest}
    (built : adapter.buildVariantManifest release selector (inputs.map adapted) = .ok manifest)
    (distinct : adapter = .esp32Firmware ∨ inputs.filter (listedBy adapter) =
      (newlyLinked IngestArtifact.role [] inputs).filter (listedBy adapter)) :
    manifest.adapter = adapter ∧ manifest.entries.Perm
      ((newlyLinked IngestArtifact.role [] inputs).filterMap fun input =>
        adapter.entry (adapted input)) := by
  cases adapter with
  | esp32Firmware =>
    obtain ⟨chip, -, built⟩ := bind_eq_ok.mp built
    obtain ⟨flashSize, -, same⟩ := bind_eq_ok.mp built
    obtain rfl := Except.ok.inj same
    refine ⟨rfl, ?_⟩
    have perm := (manifestArtifacts_perm (inputs.map adapted)).map Entry.flash
    rw [newlyLinked_map adapted_role, List.filterMap_map, List.map_filterMap] at perm
    exact perm
  | linuxPackage =>
    obtain ⟨arch, -, built⟩ := bind_eq_ok.mp built
    obtain ⟨distro, -, same⟩ := bind_eq_ok.mp built
    obtain rfl := Except.ok.inj same
    refine ⟨rfl, ?_⟩
    have distinct := distinct.resolve_left (by decide)
    have entries : (packageEntries (inputs.map adapted)).map Entry.package =
        inputs.filterMap fun input => Adapter.linuxPackage.entry (adapted input) := by
      rw [packageEntries, List.filterMap_map, List.map_filterMap]
      rfl
    rw [filterMap_listed, ← distinct, ← filterMap_listed, ← entries]
    exact List.Perm.refl _

/-! ## Rows that carry inputs -/

section

variable {artifacts : List Artifact} {size : String → Option Nat} {adapter : Adapter}
  {inputs : List IngestArtifact} {links : List Link} {rows : List VariantArtifact}

theorem carried_rows {roles : List String} (carried : List.Forall₂ (Carried artifacts size) inputs links)
    (mapped : rows.map linkOf = newlyLinked Link.role roles links) :
    List.Forall₂ (fun input row => Carried artifacts size input (linkOf row))
      (newlyLinked IngestArtifact.role roles inputs) rows := by
  have related := newlyLinked_forall₂ IngestArtifact.role Link.role carried
    (fun _ _ here => here.1) roles
  rw [← mapped, List.forall₂_map_right_iff] at related
  exact related

theorem carried_roles (carried : List.Forall₂ (fun input row =>
      Carried artifacts size input (linkOf row)) inputs rows) :
    rows.map VariantArtifact.role = inputs.map IngestArtifact.role := by
  induction carried with
  | nil => rfl
  | cons here _ ih =>
    rw [List.map_cons, List.map_cons, ih]
    exact congrArg (· :: _) here.1

theorem carried_artifacts (carried : List.Forall₂ (fun input row =>
      Carried artifacts size input (linkOf row)) inputs rows) :
    ∀ row ∈ rows, ∃ artifact ∈ artifacts, artifact.id = row.artifactId := by
  induction carried with
  | nil => simp
  | cons here _ ih =>
    intro row row_mem
    rcases List.mem_cons.mp row_mem with rfl | inside
    · obtain ⟨-, -, -, artifact, artifact_mem, named, -⟩ := here
      exact ⟨artifact, artifact_mem, named⟩
    · exact ih row inside

theorem rows_unlisted (ids : (artifacts.map Artifact.id).Nodup)
    (ref : ∀ artifact ∈ artifacts, artifact.storageMode = .ref → artifact.sha256 = none)
    (carried : List.Forall₂ (fun input row => Carried artifacts size input (linkOf row)) inputs rows)
    (unlisted : ∀ input ∈ inputs, listedBy adapter input = false) :
    (rows.flatMap (joined artifacts)).filterMap adapter.entry = [] := by
  induction carried with
  | nil => rfl
  | cons here _ ih =>
    rw [List.flatMap_cons, List.filterMap_append,
      entry_unlisted ids ref here (unlisted _ List.mem_cons_self),
      ih fun input input_mem => unlisted input (List.mem_cons_of_mem _ input_mem)]
    rfl

/-- What the rows of a new variant list is what the adapter sees of their inputs. -/
theorem rows_listed (ids : (artifacts.map Artifact.id).Nodup)
    (ref : ∀ artifact ∈ artifacts, artifact.storageMode = .ref → artifact.sha256 = none)
    (carried : List.Forall₂ (fun input row => Carried artifacts size input (linkOf row)) inputs rows)
    (sizes : ∀ role offset path sha256 sizeBytes,
      .blob role offset path sha256 sizeBytes ∈ inputs →
      listedBy adapter (.blob role offset path sha256 sizeBytes) = true →
      size sha256 = some sizeBytes) :
    (rows.flatMap (joined artifacts)).filterMap adapter.entry =
      inputs.filterMap fun input => adapter.entry (adapted input) := by
  induction carried with
  | nil => rfl
  | @cons input row rest rows here _ ih =>
    have first : (joined artifacts row).filterMap adapter.entry =
        (adapter.entry (adapted input)).toList := by
      cases listed : listedBy adapter input with
      | false => rw [entry_unlisted ids ref here listed, adapted_unlisted listed]; rfl
      | true =>
        cases input with
        | ref => cases adapter <;> cases listed
        | blob role offset path sha256 sizeBytes =>
          exact entry_listed ids here
            (sizes role offset path sha256 sizeBytes List.mem_cons_self listed)
    have others := ih fun role offset path sha256 sizeBytes inside =>
      sizes role offset path sha256 sizeBytes (List.mem_cons_of_mem _ inside)
    rw [List.flatMap_cons, List.filterMap_append, first, others, List.filterMap_cons]
    cases adapter.entry (adapted input) <;> rfl

end

/-! ## One variant -/

/-- What an ingestion of variants leaves as it was, and keeps. -/
structure VariantsAdded (tables tables' : Tables) : Prop where
  keyed : Keyed tables'
  listed : ∀ variant ∈ tables'.variants, Listed tables' variant
  releases : tables'.releases = tables.releases
  heads : tables'.heads = tables.heads

theorem Keyed.addLinks {tables : Tables} (keyed : Keyed tables) {rows : List VariantArtifact}
    (variants : ∀ row ∈ rows, ∃ variant ∈ tables.variants, variant.id = row.variantId)
    (artifacts : ∀ row ∈ rows, ∃ artifact ∈ tables.artifacts, artifact.id = row.artifactId) :
    Keyed { tables with links := tables.links ++ rows, drawn } where
  artifact_ids := keyed.artifact_ids
  ref_digest := keyed.ref_digest
  release_ids := keyed.release_ids
  head_ids := keyed.head_ids
  variant_ids := keyed.variant_ids
  variant_release := keyed.variant_release
  link_variant link link_mem :=
    (List.mem_append.mp link_mem).elim (keyed.link_variant link) (variants link)
  link_artifact link link_mem :=
    (List.mem_append.mp link_mem).elim (keyed.link_artifact link) (artifacts link)

theorem Keyed.addVariant {tables : Tables} (keyed : Keyed tables)
    (variant : Variant Selector Manifest) (drawn : Nat)
    (unused : ∀ other ∈ tables.variants, other.id ≠ variant.id)
    (release : ∃ row ∈ tables.releases, row.id = variant.releaseId) :
    Keyed { tables with variants := tables.variants ++ [variant], drawn } where
  artifact_ids := keyed.artifact_ids
  ref_digest := keyed.ref_digest
  release_ids := keyed.release_ids
  head_ids := keyed.head_ids
  variant_ids := nodup_map_concat keyed.variant_ids unused
  variant_release other other_mem := by
    rcases List.mem_append.mp other_mem with old | new
    · exact keyed.variant_release other old
    · obtain rfl := List.mem_singleton.mp new
      exact release
  link_variant link link_mem := by
    obtain ⟨row, row_mem, named⟩ := keyed.link_variant link link_mem
    exact ⟨row, List.mem_append_left _ row_mem, named⟩
  link_artifact := keyed.link_artifact

theorem eq_of_id {tables : Tables} (keyed : Keyed tables) {a b : Variant Selector Manifest}
    (a_mem : a ∈ tables.variants) (b_mem : b ∈ tables.variants) (same : a.id = b.id) : a = b :=
  List.inj_on_of_nodup_map keyed.variant_ids a_mem b_mem same

/-- A fresh variant has no links. -/
theorem linked_fresh {tables : Tables} (keyed : Keyed tables) {id : String}
    (unused : ∀ variant ∈ tables.variants, variant.id ≠ id) :
    linked tables id = [] ∧ rolesOf tables id = [] := by
  have no_links : linksOf tables.links id = [] := by
    unfold linksOf
    rw [List.filter_eq_nil_iff]
    intro link link_mem
    obtain ⟨variant, variant_mem, named⟩ := keyed.link_variant link link_mem
    simpa [← named] using unused variant variant_mem
  simp [linked, rolesOf, no_links]

variable {variant : Variant Selector Manifest}

theorem names_hash {releaseId hash : String}
    (names : namesVariant releaseId hash variant = true) : variant.selectorHash = hash := by
  simp only [namesVariant, Bool.and_eq_true, decide_eq_true_eq] at names
  exact names.2

/-- Links that are added to a variant show in what is known of it, and of no other. -/
theorem known_addLinks {tables : Tables} (keyed : Keyed tables) (drawn : Nat)
    {rows : List VariantArtifact} {releaseId hash : String}
    (found : tables.variants.find? (namesVariant releaseId hash) = some variant)
    (all : ∀ row ∈ rows, row.variantId = variant.id) :
    known { tables with links := tables.links ++ rows, drawn } releaseId =
      Function.update (known tables releaseId) hash
        (some { adapter := variant.manifest.map Manifest.adapter
                roles := rolesOf tables variant.id ++ rows.map VariantArtifact.role }) := by
  obtain ⟨-, own, others⟩ := linked_addLinks tables drawn all
  funext other
  by_cases same : other = hash
  · subst same
    rw [Function.update_self]
    simp only [known, found, Option.map_some, own]
  · rw [Function.update_of_ne same]
    unfold known
    cases there : tables.variants.find? (namesVariant releaseId other) with
    | none => rfl
    | some found_other =>
      have different : found_other.id ≠ variant.id := by
        intro same_id
        have equal := eq_of_id keyed (List.mem_of_find?_eq_some there)
          (List.mem_of_find?_eq_some found) same_id
        have hash_eq := names_hash (List.find?_some there)
        rw [equal, names_hash (List.find?_some found)] at hash_eq
        exact same hash_eq.symm
      simp only [Option.map_some, (others found_other.id different).2]

/-- Links that are added to a variant whose manifest lists them leave all manifests right. -/
theorem listed_addLinks {tables : Tables} (keyed : Keyed tables) {rows : List VariantArtifact}
    (member : variant ∈ tables.variants) (all : ∀ row ∈ rows, row.variantId = variant.id)
    (others : ∀ other ∈ tables.variants, other ≠ variant → Listed tables other)
    (own : ∃ manifest, variant.manifest = some manifest ∧
      manifest.ListsExactly (linked tables variant.id ++ rows.flatMap (joined tables.artifacts))) :
    ∀ other ∈ tables.variants,
      Listed { tables with links := tables.links ++ rows, drawn } other := by
  obtain ⟨own_linked, -, other_linked⟩ := linked_addLinks tables drawn all
  intro other other_mem
  by_cases same : other = variant
  · obtain ⟨manifest, manifest_eq, lists⟩ := own
    rw [same]
    exact ⟨manifest, manifest_eq, by rw [own_linked]; exact lists⟩
  · obtain ⟨manifest, manifest_eq, lists⟩ := others other other_mem same
    have different : other.id ≠ variant.id := fun same_id =>
      same (eq_of_id keyed other_mem member same_id)
    exact ⟨manifest, manifest_eq, by rw [(other_linked other.id different).1]; exact lists⟩

section

variable {env : Environment} {adapter : Adapter} {descriptor : IngestReleaseDescriptor}
  {releaseId id : String} {input : IngestVariant} {tables tables' : Tables} {selector : Selector}
  {rest : List IngestArtifact}

/-- A variant that fits what is there leaves all manifests right, and adds its roles to what is
known of its selector. -/
theorem ingestVariant_spec (keyed : Keyed tables)
    (listed : ∀ variant ∈ tables.variants, Listed tables variant)
    (release : ∃ row ∈ tables.releases, row.id = releaseId)
    (returned : ingestVariant env adapter descriptor releaseId tables input = .ok (id, tables'))
    (canonical : adapter.canonicalizeSelector input.selector = .ok selector)
    (fits : (match known tables releaseId (env.selectorHashOf selector) with
      | some variant => variant.fits input.artifacts
      | none => newFits adapter (sizeOf tables.artifacts (input.artifacts ++ rest))
          input.artifacts) = true) :
    VariantsAdded tables tables' ∧
      sizeOf tables'.artifacts rest = sizeOf tables.artifacts (input.artifacts ++ rest) ∧
      known tables' releaseId = Function.update (known tables releaseId)
        (env.selectorHashOf selector)
        (some (((known tables releaseId (env.selectorHashOf selector)).getD
          { adapter := some adapter, roles := [] }).with input.artifacts)) := by
  obtain ⟨selector', links, artifacts, manifest, between, created, canonical', ingested, built,
    upserted, linking⟩ := ingestVariant_parts returned
  obtain rfl : selector = selector' := Except.ok.inj (canonical.symm.trans canonical')
  obtain ⟨added, rfl, later⟩ := ingestArtifacts_spec keyed ingested
  obtain ⟨sizes, carried⟩ := later rest
  have variants_eq : between.variants = tables.variants := by rw [added.same]
  have releases_eq : between.releases = tables.releases := by rw [added.same]
  have heads_eq : between.heads = tables.heads := by rw [added.same]
  have roles_eq : rolesOf between = rolesOf tables := by rw [added.same]; rfl
  have known_eq : known between releaseId = known tables releaseId := by
    funext hash
    simp only [known, variants_eq, roles_eq]
  have listed_between : ∀ variant ∈ between.variants, Listed between variant := by
    intro variant variant_mem
    rw [variants_eq] at variant_mem
    obtain ⟨lists, lists_eq, exactly⟩ := listed variant variant_mem
    exact ⟨lists, lists_eq, by rw [added.linked_eq]; exact exactly⟩
  rw [← known_eq] at fits ⊢
  obtain ⟨⟨id', variants, drawn⟩, up, same⟩ := bind_eq_ok.mp upserted
  obtain ⟨rfl, rfl⟩ := Prod.mk.inj (Except.ok.inj same)
  rcases upsert_cases up with ⟨variant, found, rfl, rfl, rfl⟩ | ⟨missing, variant, made, unused, rfl⟩
  · -- The variant is there: what is newly linked is not listed by its manifest.
    obtain ⟨rows, drawn', rfl, all, mapped⟩ := linkArtifacts_spec linking
    have rows_carried := carried_rows carried mapped
    have member := List.mem_of_find?_eq_some found
    have there : known between releaseId (env.selectorHashOf selector) =
        some { adapter := variant.manifest.map Manifest.adapter
               roles := rolesOf between variant.id } := by
      simp only [known, found, Option.map_some]
    rw [there] at fits ⊢
    have new_known := known_addLinks added.keyed drawn' found all
    rw [carried_roles rows_carried] at new_known
    obtain ⟨lists, lists_eq, exactly⟩ := listed_between variant member
    have none_listed : (rows.flatMap (joined between.artifacts)).filterMap lists.adapter.entry =
        [] := by
      apply rows_unlisted added.keyed.artifact_ids added.keyed.ref_digest rows_carried
      intro other other_mem
      have unlisted := List.all_eq_true.mp fits other other_mem
      simpa [lists_eq] using unlisted
    refine ⟨⟨?_, ?_, releases_eq, heads_eq⟩, sizes, new_known⟩
    · exact added.keyed.addLinks (fun row row_mem => ⟨variant, member, (all row row_mem).symm⟩)
        (carried_artifacts rows_carried)
    · apply listed_addLinks added.keyed member all fun other other_mem _ =>
        listed_between other other_mem
      refine ⟨lists, lists_eq, ?_⟩
      rw [Manifest.ListsExactly, List.filterMap_append, none_listed, List.append_nil]
      exact exactly
  · -- The variant is new: it has the links of its artifacts, which its manifest lists.
    obtain rfl := Except.ok.inj made
    obtain ⟨fresh_linked, fresh_roles⟩ := linked_fresh added.keyed unused
    let row := variantValues env.now releaseId selector (env.selectorHashOf selector) input.name
      manifest id'
    have keyed_created := added.keyed.addVariant row drawn unused
      (by rw [releases_eq]; exact release)
    obtain ⟨rows, drawn', rfl, all, mapped⟩ := linkArtifacts_spec linking
    have mapped : rows.map linkOf = newlyLinked Link.role [] links := by
      rw [mapped]
      exact congrArg (newlyLinked Link.role · links) fresh_roles
    have rows_carried := carried_rows carried mapped
    have there : known between releaseId (env.selectorHashOf selector) = none := by
      simp only [known, missing, Option.map_none]
    rw [there] at fits ⊢
    simp only [newFits, Bool.and_eq_true, Bool.or_eq_true, decide_eq_true_eq] at fits
    obtain ⟨distinct, given_sizes⟩ := fits
    obtain ⟨adapter_eq, entries⟩ := build_entries built distinct
    have rows_entries : (rows.flatMap (joined between.artifacts)).filterMap adapter.entry = _ :=
      rows_listed added.keyed.artifact_ids added.keyed.ref_digest rows_carried (by
        intro role offset path sha256 sizeBytes inside listed
        have size := List.all_eq_true.mp given_sizes _ inside
        simpa [listed] using size)
    have row_names : namesVariant releaseId (env.selectorHashOf selector) row = true := by
      simp [namesVariant, row, variantValues]
    have found : (between.variants ++ [row]).find?
        (namesVariant releaseId (env.selectorHashOf selector)) = some row := by
      rw [List.find?_append, missing, List.find?_cons_of_pos row_names]
      rfl
    have new_known := known_addLinks keyed_created drawn' found all
    refine ⟨⟨?_, ?_, releases_eq, heads_eq⟩, sizes, ?_⟩
    · exact keyed_created.addLinks
        (fun link link_mem => ⟨row, by simp, (all link link_mem).symm⟩)
        (carried_artifacts rows_carried)
    · apply listed_addLinks keyed_created (by simp : row ∈ _) all
      · intro other other_mem different
        have old : other ∈ between.variants := by
          simpa [different] using other_mem
        exact listed_between other old
      · refine ⟨manifest, rfl, ?_⟩
        have own : linked { between with variants := between.variants ++ [row], drawn } row.id =
            [] := fresh_linked
        rw [own, List.nil_append, Manifest.ListsExactly, adapter_eq]
        exact rows_entries ▸ entries
    · rw [carried_roles rows_carried] at new_known
      rw [new_known]
      funext other
      by_cases same : other = env.selectorHashOf selector
      · subst same
        rw [Function.update_self, Function.update_self]
        have no_roles : rolesOf { between with variants := between.variants ++ [row], drawn }
            row.id = [] := fresh_roles
        rw [no_roles]
        simp only [row, variantValues, Option.map_some, adapter_eq, Option.getD_none, Known.with]
      · rw [Function.update_of_ne same, Function.update_of_ne same]
        have not_named : ¬ namesVariant releaseId other row = true := fun names =>
          same (names_hash names).symm
        simp only [known, List.find?_append, List.find?_cons_of_neg not_named, List.find?_nil,
          Option.or_none]
        rfl

end

section

variable {env : Environment} {adapter : Adapter} {descriptor : IngestReleaseDescriptor}
  {releaseId : String} {tables tables' : Tables}

theorem VariantsAdded.trans {first second third : Tables} (one : VariantsAdded first second)
    (two : VariantsAdded second third) : VariantsAdded first third :=
  ⟨two.keyed, two.listed, two.releases.trans one.releases, two.heads.trans one.heads⟩

theorem ingestVariants_spec {inputs : List IngestVariant} {ids : List String}
    (keyed : Keyed tables) (listed : ∀ variant ∈ tables.variants, Listed tables variant)
    (release : ∃ row ∈ tables.releases, row.id = releaseId)
    (returned : ingestVariants env adapter descriptor releaseId tables inputs =
      .ok (ids, tables'))
    (fits : fitsVariants env.selectorHashOf adapter
      (sizeOf tables.artifacts (inputs.flatMap IngestVariant.artifacts))
      (known tables releaseId) inputs = true) :
    VariantsAdded tables tables' := by
  induction inputs generalizing tables ids with
  | nil =>
    obtain ⟨-, rfl⟩ := Prod.mk.inj (Except.ok.inj returned)
    exact ⟨keyed, listed, rfl, rfl⟩
  | cons input rest ih =>
    obtain ⟨⟨id, between⟩, first, returned⟩ := bind_eq_ok.mp returned
    obtain ⟨⟨ids', last⟩, following, same⟩ := bind_eq_ok.mp returned
    obtain ⟨-, rfl⟩ := Prod.mk.inj (Except.ok.inj same)
    obtain ⟨selector, -, -, -, -, -, canonical, -⟩ := ingestVariant_parts first
    simp only [fitsVariants, canonical, Bool.and_eq_true] at fits
    obtain ⟨fits_here, fits_rest⟩ := fits
    rw [List.flatMap_cons] at fits_here fits_rest
    obtain ⟨added, sizes, known_eq⟩ :=
      ingestVariant_spec keyed listed release first canonical fits_here
    rw [← known_eq, ← sizes] at fits_rest
    have release' : ∃ row ∈ between.releases, row.id = releaseId := by
      rw [added.releases]
      exact release
    exact added.trans (ih added.keyed added.listed release' following fits_rest)

end

/-! ## Releases and heads -/

section

variable {env : Environment} {descriptor : IngestReleaseDescriptor} {releaseId : String}
  {tables tables' : Tables}

theorem Keyed.addRelease (keyed : Keyed tables) (row : Release) (drawn : Nat)
    (unused : ∀ other ∈ tables.releases, other.id ≠ row.id) :
    Keyed { tables with releases := tables.releases ++ [row], drawn } where
  artifact_ids := keyed.artifact_ids
  ref_digest := keyed.ref_digest
  release_ids := nodup_map_concat keyed.release_ids unused
  head_ids := keyed.head_ids
  variant_ids := keyed.variant_ids
  variant_release variant variant_mem := by
    obtain ⟨other, other_mem, named⟩ := keyed.variant_release variant variant_mem
    exact ⟨other, List.mem_append_left _ other_mem, named⟩
  link_variant := keyed.link_variant
  link_artifact := keyed.link_artifact

theorem Held.later {head : ReleaseChannelHead} (held : Held tables head)
    (kept : ∀ row ∈ tables.releases, row ∈ tables'.releases) : Held tables' head := by
  obtain ⟨row, row_mem, facts⟩ := held
  exact ⟨row, kept row row_mem, facts⟩

/-- The release of a call, and what is known of its variants. -/
theorem upsertRelease_spec (sound : Sound tables) (channel : fitsChannel tables descriptor = true)
    (returned : upsertRelease env tables descriptor = .ok (releaseId, tables')) :
    Sound tables' ∧ tables'.artifacts = tables.artifacts ∧
      known tables' releaseId = knownBefore tables descriptor ∧
      ∃ row ∈ tables'.releases, row.id = releaseId ∧ descriptor.names row = true ∧
        (descriptor.publish = true → row.channel = descriptor.channel) := by
  obtain ⟨⟨id, releases, drawn⟩, upserted, same⟩ := bind_eq_ok.mp returned
  obtain ⟨rfl, rfl⟩ := Prod.mk.inj (Except.ok.inj same)
  rcases upsert_cases upserted with ⟨row, found, rfl, rfl, rfl⟩ | ⟨missing, row, made, unused, rfl⟩
  · refine ⟨sound, rfl, ?_, row, List.mem_of_find?_eq_some found, rfl, List.find?_some found, ?_⟩
    · funext hash
      simp only [knownBefore, found]
    · intro publish
      simpa [fitsChannel, publish, found] using channel
  · obtain rfl := Except.ok.inj made
    have keyed := sound.keyed.addRelease (descriptor.values id) drawn unused
    refine ⟨⟨keyed, ?_, ?_⟩, rfl, ?_, descriptor.values id, by simp, rfl, ?_, fun _ => rfl⟩
    · exact sound.listed
    · exact fun head head_mem => (sound.held head head_mem).later fun other other_mem =>
        List.mem_append_left _ other_mem
    · funext hash
      have none_named : tables.variants.find? (namesVariant id hash) = none := by
        rw [List.find?_eq_none]
        intro variant variant_mem names
        simp only [namesVariant, Bool.and_eq_true, decide_eq_true_eq] at names
        obtain ⟨other, other_mem, named⟩ := sound.keyed.variant_release variant variant_mem
        exact unused other other_mem (named.trans names.1)
      simp only [known, none_named, Option.map_none, knownBefore, missing]
    · simp [IngestReleaseDescriptor.names, IngestReleaseDescriptor.values]

theorem markReady_keeps (releaseId : String) (row : Release) :
    (markReady releaseId row).id = row.id ∧ (markReady releaseId row).typeKey = row.typeKey ∧
      (markReady releaseId row).name = row.name ∧
      (markReady releaseId row).channel = row.channel := by
  unfold markReady
  split <;> simp

/-- A release of the channel becomes the head of the channel. -/
theorem publishRelease_spec (sound : Sound tables)
    (release : ∃ row ∈ tables.releases, row.id = releaseId ∧ descriptor.names row = true ∧
      row.channel = descriptor.channel)
    (returned : publishRelease env tables descriptor releaseId = .ok tables') : Sound tables' := by
  obtain ⟨headId, heads, drawn, upserted, rfl⟩ := publishRelease_parts returned
  -- The head that is moved is the one that the descriptor names.
  have facts : (heads.map ReleaseChannelHead.id).Nodup ∧
      (∃ head ∈ heads, head.id = headId ∧ descriptor.heads head = true) ∧
      ∀ head ∈ heads, head.id ≠ headId → Held tables head := by
    rcases upsert_cases upserted with ⟨head, found, rfl, rfl, -⟩ | ⟨-, head, made, unused, rfl⟩
    · refine ⟨sound.keyed.head_ids, ⟨head, List.mem_of_find?_eq_some found, rfl,
        List.find?_some found⟩, ?_⟩
      exact fun other other_mem _ => sound.held other other_mem
    · obtain rfl := Except.ok.inj made
      refine ⟨?_, ⟨_, List.mem_append_right _ List.mem_cons_self, rfl, ?_⟩, ?_⟩
      · exact nodup_map_concat sound.keyed.head_ids unused
      · simp [IngestReleaseDescriptor.heads]
      · intro other other_mem different
        rcases List.mem_append.mp other_mem with old | new
        · exact sound.held other old
        · rw [List.mem_singleton.mp new] at different
          exact absurd rfl different
  obtain ⟨head_ids, ⟨moved, moved_mem, moved_id, moved_names⟩, others⟩ := facts
  have same_ids : Release.id ∘ markReady releaseId = Release.id := by
    funext row
    exact (markReady_keeps releaseId row).1
  have same_heads : ReleaseChannelHead.id ∘ moveHead headId releaseId = ReleaseChannelHead.id := by
    funext row
    exact moveHead_id headId releaseId row
  have held_marked : ∀ head : ReleaseChannelHead, Held tables head →
      ∃ row ∈ tables.releases.map (markReady releaseId), row.id = head.releaseId ∧
        row.typeKey = head.typeKey ∧ row.name = head.name ∧ row.channel = head.channel := by
    rintro head ⟨row, row_mem, id_eq, type_eq, name_eq, channel_eq⟩
    obtain ⟨id_kept, type_kept, name_kept, channel_kept⟩ := markReady_keeps releaseId row
    exact ⟨markReady releaseId row, List.mem_map_of_mem row_mem, id_kept.trans id_eq,
      type_kept.trans type_eq, name_kept.trans name_eq, channel_kept.trans channel_eq⟩
  constructor
  · exact
      { artifact_ids := sound.keyed.artifact_ids
        ref_digest := sound.keyed.ref_digest
        release_ids := by
          rw [List.map_map, same_ids]
          exact sound.keyed.release_ids
        head_ids := by
          rw [List.map_map, same_heads]
          exact head_ids
        variant_ids := sound.keyed.variant_ids
        variant_release := by
          intro variant variant_mem
          obtain ⟨row, row_mem, named⟩ := sound.keyed.variant_release variant variant_mem
          exact ⟨markReady releaseId row, List.mem_map_of_mem row_mem,
            (markReady_keeps releaseId row).1.trans named⟩
        link_variant := sound.keyed.link_variant
        link_artifact := sound.keyed.link_artifact }
  · exact sound.listed
  · intro head head_mem
    obtain ⟨before, before_mem, rfl⟩ := List.mem_map.mp head_mem
    by_cases same : before.id = headId
    · have equal : before = moved :=
        List.inj_on_of_nodup_map head_ids before_mem moved_mem (same.trans moved_id.symm)
      obtain ⟨row, row_mem, id_eq, names, channel_eq⟩ := release
      simp only [IngestReleaseDescriptor.names, IngestReleaseDescriptor.heads, Bool.and_eq_true,
        decide_eq_true_eq] at names moved_names
      have now_head : Held tables { before with releaseId } := by
        refine ⟨row, row_mem, id_eq, ?_, ?_, ?_⟩
        · rw [equal]
          exact names.1.1.trans moved_names.1.1.symm
        · rw [equal]
          exact names.1.2.trans moved_names.1.2.symm
        · rw [equal]
          exact channel_eq.trans moved_names.2.symm
      rw [moveHead, if_pos same]
      exact held_marked _ now_head
    · rw [moveHead, if_neg same]
      exact held_marked _ (others before before_mem same)

end

/-! ## Sequences of calls -/

/-- A call that fits leaves the tables sound. -/
theorem ingestRelease_sound (env : Environment) {tables tables' : Tables}
    {descriptor : IngestReleaseDescriptor} {result : IngestResult} (sound : Sound tables)
    (fits : Fits env.selectorHashOf tables descriptor)
    (returned : ingestRelease env tables descriptor = .ok (result, tables')) : Sound tables' := by
  obtain ⟨type, adapter, released, ingested, type_eq, found, release, variants, published⟩ :=
    ingestRelease_parts returned
  obtain ⟨channel, fits⟩ := fits
  have adapter_eq : adapterOf tables descriptor.typeKey = some adapter := by
    simp only [adapterOf, type_eq, found, Except.toOption]
  obtain ⟨sound_released, artifacts_eq, known_eq, row, row_mem, named, names, row_channel⟩ :=
    upsertRelease_spec sound channel release
  have fits_here := fits adapter adapter_eq
  rw [← known_eq, ← artifacts_eq] at fits_here
  have added := ingestVariants_spec sound_released.keyed sound_released.listed
    ⟨row, row_mem, named⟩ variants fits_here
  have sound_ingested : Sound ingested := by
    refine ⟨added.keyed, added.listed, ?_⟩
    intro head head_mem
    rw [added.heads] at head_mem
    exact (sound_released.held head head_mem).later fun other other_mem => by
      rw [added.releases]
      exact other_mem
  cases publish : descriptor.publish with
  | false =>
    simp only [publish] at published
    rw [← published]
    exact sound_ingested
  | true =>
    simp only [publish, if_true] at published
    apply publishRelease_spec sound_ingested _ published
    exact ⟨row, by rw [added.releases]; exact row_mem, named, names, row_channel publish⟩

/-- A call at a time. -/
structure Call where
  descriptor : IngestReleaseDescriptor
  now : Nat
deriving Repr, DecidableEq

section

variable (selectorHashOf : Selector → String) (randomHex : Nat → String)

def Call.env (call : Call) : Environment := { selectorHashOf, randomHex, now := call.now }

/-- A call that throws is rolled back. -/
def step (tables : Tables) (call : Call) : Tables :=
  match ingestRelease (call.env selectorHashOf randomHex) tables call.descriptor with
  | .ok (_, after) => after
  | .error _ => tables

/-- After a call returns, manifests list exactly what is linked, the heads are releases of their
channels, and the call can be made again without effect. -/
def Lawful (tables : Tables) (call : Call) : Prop :=
  ∀ result after,
    ingestRelease (call.env selectorHashOf randomHex) tables call.descriptor = .ok (result, after) →
      Sound after ∧
      ∀ randomHex now, ingestRelease { selectorHashOf, randomHex, now } after call.descriptor =
        .ok (result, after)

theorem ingestions_sound (tables : Tables) (calls : List Call) (sound : Sound tables)
    (fit : Along (step selectorHashOf randomHex)
      (fun tables call => Fits selectorHashOf tables call.descriptor) tables calls) :
    Along (step selectorHashOf randomHex) (Lawful selectorHashOf randomHex) tables calls := by
  apply Along.always Sound _ _ sound fit
  · intro before call sound fits
    unfold step
    cases returned : ingestRelease (call.env selectorHashOf randomHex) before call.descriptor with
    | error message => exact sound
    | ok outcome => exact ingestRelease_sound (call.env selectorHashOf randomHex) sound fits returned
  · intro before call sound fits result after returned
    exact ⟨ingestRelease_sound (call.env selectorHashOf randomHex) sound fits returned,
      fun randomHex' now => ingestRelease_again ⟨selectorHashOf, randomHex', now⟩ (by rfl) returned⟩

end

instance (tables : Tables) (variant : Variant Selector Manifest) :
    Decidable (Listed tables variant) :=
  match shape : variant.manifest with
  | none => .isFalse fun ⟨_, manifest_eq, _⟩ => by simp [shape] at manifest_eq
  | some manifest =>
    decidable_of_iff (manifest.entries.Perm
      ((linked tables variant.id).filterMap manifest.adapter.entry))
      ⟨fun perm => ⟨manifest, shape, perm⟩, fun ⟨_, manifest_eq, lists⟩ => by
        rw [shape] at manifest_eq
        obtain rfl := Option.some.inj manifest_eq
        exact lists⟩

instance (tables : Tables) (head : ReleaseChannelHead) : Decidable (Held tables head) :=
  inferInstanceAs (Decidable (∃ release ∈ tables.releases, release.id = head.releaseId ∧
    release.typeKey = head.typeKey ∧ release.name = head.name ∧ release.channel = head.channel))

instance (selectorHashOf : Selector → String) (tables : Tables)
    (descriptor : IngestReleaseDescriptor) : Decidable (Fits selectorHashOf tables descriptor) :=
  inferInstanceAs (Decidable (_ ∧ _))

/-! ### Two calls -/

def sampleTables : Tables := { artifactTypes := [{ key := "firmware", adapterKey := "esp32-firmware" }] }

def sampleSha (digit : Char) : String := .ofList (List.replicate 64 digit)

/-- One variant for the chip, with the given artifacts. -/
def sampleCall (channel : String) (artifacts : List IngestArtifact) : Call where
  descriptor :=
    { typeKey := "firmware", name := "kit", version := "1.0", channel, publish := true
      variants := [{ selector := { chip := .text "esp32", flashSize := .text "4MB" }, artifacts }] }
  now := 0

def sampleApp : IngestArtifact := .blob "app" (some "0x10000") none (sampleSha 'a') 100

def sampleBootloader : IngestArtifact :=
  .blob "bootloader" (some "0x0") none (sampleSha 'b') 20

def sampleHash : Selector → String
  | .firmware chip flashSize _ => s!"{chip}-{flashSize}"
  | .package arch _ => arch

def sampleHex (n : Nat) : String := .ofList (List.replicate n '0')

theorem sampleTables_sound : Sound sampleTables where
  keyed := by constructor <;> simp [sampleTables]
  listed := by simp [sampleTables]
  held := by simp [sampleTables]

/-- A call that is made twice fits. -/
theorem ingestions_sound_twice :
    Along (step sampleHash sampleHex) (Lawful sampleHash sampleHex) sampleTables
      [sampleCall "stable" [sampleApp], sampleCall "stable" [sampleApp]] :=
  ingestions_sound sampleHash sampleHex sampleTables _ sampleTables_sound (by decide)

/-- A role that is added to a variant is not in its manifest, and a release that is published to a
second channel is a head of that channel but a release of the first. -/
theorem ingestions_unsound :
    Sound sampleTables ∧
    ¬ Along (step sampleHash sampleHex) (Lawful sampleHash sampleHex) sampleTables
      [sampleCall "stable" [sampleApp], sampleCall "stable" [sampleApp, sampleBootloader]] ∧
    ¬ Along (step sampleHash sampleHex) (Lawful sampleHash sampleHex) sampleTables
      [sampleCall "stable" [sampleApp], sampleCall "beta" [sampleApp]] := by
  refine ⟨sampleTables_sound, ?_, ?_⟩
  · rintro ⟨-, second, -⟩
    exact absurd (second _ _ rfl).1.listed (by decide)
  · rintro ⟨-, second, -⟩
    exact absurd (second _ _ rfl).1.held (by decide)

end HelixKit.Backend.ReleaseRecords
