/-
Purpose: What the holder of a CI token, and of the callback tokens it is given, can change in the
  releases database.
Trusted boundary: none
Main exports: scopes_hold
-/
import HelixKit.Backend.ReleasesApi
import HelixKit.Lib.Runs

namespace HelixKit.Backend.ReleaseScopes

open ReleaseSchema ReleaseAdapters ReleaseIngest ReleasesApi
open HelixKit.Runs HelixKit.Fallible HelixKit.Upsert

/-! ## What a token allows -/

/-- The release is in the scopes. -/
def Covers (scopes : CiTokenScopes) (typeKey name : String) : Prop :=
  scopeAllows scopes.typeKeys typeKey = true ∧ scopeAllows scopes.names name = true

/-- A row of the release is there, and in the scopes. -/
def InScope (scopes : CiTokenScopes) (tables : Tables) (releaseId : String) : Prop :=
  ∃ row ∈ tables.releases, row.id = releaseId ∧ Covers scopes row.typeKey row.name

/-- All rows that are new or changed are in the scopes, and nothing is published against them. -/
structure Confined (scopes : CiTokenScopes) (before after : Tables) : Prop where
  releases : ∀ row ∈ after.releases, row ∉ before.releases → Covers scopes row.typeKey row.name
  variants : ∀ row ∈ after.variants, row ∉ before.variants → InScope scopes after row.releaseId
  links : ∀ row ∈ after.links, row ∉ before.links →
    ∃ variant ∈ after.variants, variant.id = row.variantId ∧ InScope scopes after variant.releaseId
  heads : ∀ row ∈ after.heads, row ∉ before.heads → Covers scopes row.typeKey row.name
  unpublished : scopes.canPublish = some false → after.heads = before.heads ∧
    ∀ row ∈ after.releases, row.status = "ready" → row ∈ before.releases

theorem Confined.refl (scopes : CiTokenScopes) (tables : Tables) :
    Confined scopes tables tables where
  releases _ inside outside := absurd inside outside
  variants _ inside outside := absurd inside outside
  links _ inside outside := absurd inside outside
  heads _ inside outside := absurd inside outside
  unpublished _ := ⟨rfl, fun _ inside _ => inside⟩

/-! ## A client -/

variable {Config : Type} (hashes : Hashes Config)

structure Call (Config : Type) where
  around : Surroundings
  authorization : Option String
  procedure : Procedure Config

/-- The database, and the tokens that the client has. -/
structure Client where
  db : Db
  held : List String

def secretsOf : Answer → List String
  | .requested (.queued _ callbackToken) => [callbackToken]
  | _ => []

def step (client : Client) (op : Call Config) : Client :=
  match call hashes op.around client.db op.authorization op.procedure with
  | .error _ => client
  | .ok (answer, db) => { db, held := secretsOf answer ++ client.held }

/-- Only tokens are presented that the client has. -/
def Presents (client : Client) (op : Call Config) : Prop :=
  ∀ secret ∈ readBearer op.authorization, secret ∈ client.held

instance (client : Client) (op : Call Config) : Decidable (Presents client op) :=
  inferInstanceAs (Decidable (∀ secret ∈ readBearer op.authorization, secret ∈ client.held))

/-- A callback that is accepted brings no release, or one that the token may publish. -/
def CallbackFits (scopes : CiTokenScopes) (client : Client) (op : Call Config) : Prop :=
  match op.procedure with
  | .buildComplete input =>
    (verifyBuildCallback hashes op.around client.db.builds input.buildId
      (readBearer op.authorization)).isOk = true →
    ∀ release ∈ input.built,
      Covers scopes release.typeKey release.name ∧ scopes.canPublish ≠ some false
  | _ => True

/-! ## What an ingestion changes -/

variable {env : Environment} {tables tables' : Tables} {descriptor : IngestReleaseDescriptor}
  {adapter : Adapter} {releaseId : String}

/-- All that is added are variants of a release, with their links and artifacts. -/
structure VariantsOf (releaseId : String) (before after : Tables) : Prop where
  releases : after.releases = before.releases
  heads : after.heads = before.heads
  kept : before.variants ⊆ after.variants
  variants : ∀ row ∈ after.variants, row ∈ before.variants ∨ row.releaseId = releaseId
  links : ∀ row ∈ after.links, row ∈ before.links ∨
    ∃ variant ∈ after.variants, variant.id = row.variantId ∧ variant.releaseId = releaseId

theorem VariantsOf.refl (releaseId : String) (tables : Tables) :
    VariantsOf releaseId tables tables :=
  ⟨rfl, rfl, fun _ inside => inside, fun _ => .inl, fun _ => .inl⟩

theorem VariantsOf.trans {first second third : Tables} (one : VariantsOf releaseId first second)
    (two : VariantsOf releaseId second third) : VariantsOf releaseId first third where
  releases := two.releases.trans one.releases
  heads := two.heads.trans one.heads
  kept _ inside := two.kept (one.kept inside)
  variants row inside := (two.variants row inside).elim (one.variants row) .inr
  links row inside := by
    rcases two.links row inside with before | new
    · rcases one.links row before with old | ⟨variant, member, facts⟩
      · exact .inl old
      · exact .inr ⟨variant, two.kept member, facts⟩
    · exact .inr new

theorem upsertArtifact_frame {typeKey id : String} {input : IngestArtifact}
    (returned : upsertArtifact env tables typeKey input = .ok (id, tables')) :
    VariantsOf releaseId tables tables' := by
  obtain ⟨⟨_, artifacts, drawn⟩, -, same⟩ := bind_eq_ok.mp returned
  obtain ⟨-, rfl⟩ := Prod.mk.inj (Except.ok.inj same)
  exact ⟨rfl, rfl, fun _ inside => inside, fun _ => .inl, fun _ => .inl⟩

theorem ingestArtifacts_frame {typeKey : String} {inputs : List IngestArtifact}
    {links : List Link} {artifacts : List AdapterArtifact}
    (returned : ingestArtifacts env typeKey tables inputs = .ok (links, artifacts, tables')) :
    VariantsOf releaseId tables tables' := by
  induction inputs generalizing tables links artifacts with
  | nil =>
    obtain ⟨-, same⟩ := Prod.mk.inj (Except.ok.inj returned)
    obtain ⟨-, rfl⟩ := Prod.mk.inj same
    exact .refl releaseId tables
  | cons input rest ih =>
    obtain ⟨⟨id, between⟩, first, returned⟩ := bind_eq_ok.mp returned
    obtain ⟨artifact, -, returned⟩ := bind_eq_ok.mp returned
    obtain ⟨⟨links', artifacts', last⟩, others, same⟩ := bind_eq_ok.mp returned
    obtain ⟨-, same⟩ := Prod.mk.inj (Except.ok.inj same)
    obtain ⟨-, rfl⟩ := Prod.mk.inj same
    exact (upsertArtifact_frame first).trans (ih others)

/-- The variant is of the release, and the first that has its id. -/
theorem upsertVariant_of {selector : Selector} {hash id : String} {name : Option String}
    {manifest : Manifest}
    (returned : upsertVariant env tables releaseId selector hash name manifest =
      .ok (id, tables')) :
    VariantsOf releaseId tables tables' ∧
      ∃ variant ∈ tables'.variants, variant.id = id ∧ variant.releaseId = releaseId := by
  obtain ⟨⟨id, variants, drawn⟩, upserted, same⟩ := bind_eq_ok.mp returned
  obtain ⟨rfl, rfl⟩ := Prod.mk.inj (Except.ok.inj same)
  rcases upsert_cases upserted with ⟨row, found, named, rfl, -⟩ | ⟨-, row, made, -, rfl⟩
  · have names := List.find?_some found
    simp only [namesVariant, Bool.and_eq_true, decide_eq_true_eq] at names
    exact ⟨⟨rfl, rfl, fun _ inside => inside, fun _ => .inl, fun _ => .inl⟩,
      row, List.mem_of_find?_eq_some found, named, names.1⟩
  · obtain rfl := Except.ok.inj made
    refine ⟨⟨rfl, rfl, List.subset_append_left _ _, ?_, fun _ => .inl⟩, _,
      List.mem_append_right _ (List.mem_singleton_self _), rfl, rfl⟩
    intro row inside
    rcases List.mem_append.mp inside with old | new
    · exact .inl old
    · rw [List.mem_singleton.mp new]
      exact .inr rfl

theorem linkArtifacts_of {variantId : String} {links : List Link}
    (variant : ∃ row ∈ tables.variants, row.id = variantId ∧ row.releaseId = releaseId)
    (returned : linkArtifacts env variantId tables links = .ok tables') :
    VariantsOf releaseId tables tables' := by
  induction links generalizing tables with
  | nil =>
    obtain rfl := Except.ok.inj returned
    exact .refl releaseId tables
  | cons link rest ih =>
    obtain ⟨between, first, others⟩ := bind_eq_ok.mp returned
    obtain ⟨⟨_, rows, drawn⟩, upserted, same⟩ := bind_eq_ok.mp first
    obtain rfl := Except.ok.inj same
    have linked : VariantsOf releaseId tables { tables with links := rows, drawn } := by
      refine ⟨rfl, rfl, fun _ inside => inside, fun _ => .inl, ?_⟩
      rcases upsert_cases upserted with ⟨_, -, -, rfl, -⟩ | ⟨-, row, made, -, rfl⟩
      · exact fun _ => .inl
      · obtain rfl := Except.ok.inj made
        intro other inside
        rcases List.mem_append.mp inside with old | new
        · exact .inl old
        · obtain rfl := List.mem_singleton.mp new
          exact .inr variant
    exact linked.trans (ih variant others)

theorem ingestVariants_of {inputs : List IngestVariant} {ids : List String}
    (returned : ingestVariants env adapter descriptor releaseId tables inputs =
      .ok (ids, tables')) : VariantsOf releaseId tables tables' := by
  induction inputs generalizing tables ids with
  | nil =>
    obtain ⟨-, rfl⟩ := Prod.mk.inj (Except.ok.inj returned)
    exact .refl releaseId tables
  | cons input rest ih =>
    obtain ⟨⟨id, between⟩, first, returned⟩ := bind_eq_ok.mp returned
    obtain ⟨⟨ids', last⟩, others, same⟩ := bind_eq_ok.mp returned
    obtain ⟨-, rfl⟩ := Prod.mk.inj (Except.ok.inj same)
    obtain ⟨selector, links, artifacts, manifest, ingested, created, -, stored, -, upserted,
      linking⟩ := ingestVariant_parts first
    obtain ⟨ofRelease, variant⟩ := upsertVariant_of upserted
    exact (((ingestArtifacts_frame stored).trans ofRelease).trans
      (linkArtifacts_of variant linking)).trans (ih others)

/-- The primary keys of the releases and the heads. -/
structure Ids (tables : Tables) : Prop where
  releases : (tables.releases.map Release.id).Nodup
  heads : (tables.heads.map ReleaseChannelHead.id).Nodup

/-- What an ingestion changes: rows of its release, and the head of its name. -/
structure Ingested (descriptor : IngestReleaseDescriptor) (before after : Tables) : Prop where
  ids : Ids after
  releases : ∀ row ∈ after.releases, row ∈ before.releases ∨ descriptor.names row = true
  variants : ∀ row ∈ after.variants, row ∈ before.variants ∨
    ∃ release ∈ after.releases, release.id = row.releaseId ∧ descriptor.names release = true
  links : ∀ row ∈ after.links, row ∈ before.links ∨
    ∃ variant ∈ after.variants, variant.id = row.variantId ∧
      ∃ release ∈ after.releases, release.id = variant.releaseId ∧
        descriptor.names release = true
  heads : ∀ row ∈ after.heads, row ∈ before.heads ∨ descriptor.heads row = true
  unpublished : descriptor.publish = false → after.heads = before.heads ∧
    ∀ row ∈ after.releases, row.status = "ready" → row ∈ before.releases

/-- The release is there, and what is new is named by the descriptor. -/
theorem upsertRelease_of {id : String} (ids : (tables.releases.map Release.id).Nodup)
    (returned : upsertRelease env tables descriptor = .ok (id, tables')) :
    tables' = { tables with releases := tables'.releases, drawn := tables'.drawn } ∧
      (tables'.releases.map Release.id).Nodup ∧
      (∃ row ∈ tables'.releases, row.id = id ∧ descriptor.names row = true) ∧
      ∀ row ∈ tables'.releases, row ∈ tables.releases ∨
        descriptor.names row = true ∧ (descriptor.publish = false → row.status = "draft") := by
  obtain ⟨⟨id, releases, drawn⟩, upserted, same⟩ := bind_eq_ok.mp returned
  obtain ⟨rfl, rfl⟩ := Prod.mk.inj (Except.ok.inj same)
  have idsAfter := upsert_nodup ids (fun id row made => by rw [← Except.ok.inj made]; rfl) upserted
  refine ⟨rfl, idsAfter, ?_⟩
  rcases upsert_cases upserted with ⟨row, found, named, rfl, -⟩ | ⟨-, row, made, -, rfl⟩
  · exact ⟨⟨row, List.mem_of_find?_eq_some found, named, List.find?_some found⟩, fun _ => .inl⟩
  · obtain rfl := Except.ok.inj made
    have names : descriptor.names (descriptor.values id) = true := by
      simp [IngestReleaseDescriptor.names, IngestReleaseDescriptor.values]
    refine ⟨⟨_, List.mem_append_right _ (List.mem_singleton_self _), rfl, names⟩, ?_⟩
    intro row inside
    rcases List.mem_append.mp inside with old | new
    · exact .inl old
    · rw [List.mem_singleton.mp new]
      refine .inr ⟨names, fun draft => ?_⟩
      simp [IngestReleaseDescriptor.values, draft]

theorem names_markReady (row : Release) :
    descriptor.names (markReady releaseId row) = descriptor.names row := by
  unfold markReady
  split <;> rfl

theorem id_markReady (row : Release) : (markReady releaseId row).id = row.id := by
  unfold markReady
  split <;> rfl

/-- Only the release with the id is marked. -/
theorem mem_markReady {releases : List Release} {release row : Release}
    (ids : (releases.map Release.id).Nodup) (member : release ∈ releases)
    (inside : row ∈ releases.map (markReady release.id)) :
    row ∈ releases ∨ row = markReady release.id release := by
  obtain ⟨old, old_mem, rfl⟩ := List.mem_map.mp inside
  by_cases same : old.id = release.id
  · rw [List.inj_on_of_nodup_map ids old_mem member same]
    exact .inr rfl
  · rw [markReady, if_neg same]
    exact .inl old_mem

/-- Only the head of the name is inserted or moved. -/
theorem heads_publish {rows heads : List ReleaseChannelHead} {drawn drawn' : Nat} {headId : String}
    (ids : (rows.map ReleaseChannelHead.id).Nodup)
    (upserted : upsert (env.prefixedId "head") ReleaseChannelHead.id duplicateKey descriptor.heads
      (fun id => .ok { id, typeKey := descriptor.typeKey, name := descriptor.name
                       channel := descriptor.channel, releaseId })
      rows drawn = .ok (headId, heads, drawn')) :
    ((heads.map (moveHead headId releaseId)).map ReleaseChannelHead.id).Nodup ∧
      ∀ row ∈ heads.map (moveHead headId releaseId),
        row ∈ rows ∨ descriptor.heads row = true := by
  have idsAfter := upsert_nodup ids (fun id row made => by rw [← Except.ok.inj made]) upserted
  have found := upsert_found (by
    intro id row made
    obtain rfl : _ = row := by simpa using made
    simp [IngestReleaseDescriptor.heads]) upserted
  obtain ⟨head, head_eq, named⟩ := Option.map_eq_some_iff.mp found
  constructor
  · rw [List.map_map]
    have same : ReleaseChannelHead.id ∘ moveHead headId releaseId = ReleaseChannelHead.id := by
      funext row
      exact moveHead_id headId releaseId row
    rw [same]
    exact idsAfter
  · intro row inside
    obtain ⟨old, old_mem, rfl⟩ := List.mem_map.mp inside
    rw [heads_moveHead]
    by_cases same : old.id = headId
    · rw [List.inj_on_of_nodup_map idsAfter old_mem (List.mem_of_find?_eq_some head_eq)
        (same.trans named.symm)]
      exact .inr (List.find?_some head_eq)
    · rw [moveHead, if_neg same]
      rcases upsert_cases upserted with ⟨_, -, -, rfl, -⟩ | ⟨-, new, made, -, rfl⟩
      · exact .inl old_mem
      · rcases List.mem_append.mp old_mem with before | new_mem
        · exact .inl before
        · rw [List.mem_singleton.mp new_mem, ← Except.ok.inj made] at same
          exact absurd rfl same

variable {result : IngestResult}

theorem ingestRelease_of (ids : Ids tables)
    (returned : ingestRelease env tables descriptor = .ok (result, tables')) :
    Ingested descriptor tables tables' := by
  obtain ⟨type, adapter, released, ingested, -, -, upserted, variants, published⟩ :=
    ingestRelease_parts returned
  obtain ⟨frame, idsAfter, ⟨release, release_mem, named, names⟩, releases⟩ :=
    upsertRelease_of ids.releases upserted
  obtain ⟨sameReleases, sameHeads, -, newVariants, newLinks⟩ := ingestVariants_of variants
  have oldVariants : released.variants = tables.variants := by rw [frame]
  have oldLinks : released.links = tables.links := by rw [frame]
  have oldHeads : ingested.heads = tables.heads := by rw [sameHeads, frame]
  rw [oldVariants] at newVariants
  rw [oldLinks] at newLinks
  rw [← sameReleases] at idsAfter release_mem releases
  split at published
  next publish =>
    obtain ⟨headId, heads, drawn, headed, rfl⟩ := publishRelease_parts published
    rw [oldHeads] at headed
    obtain ⟨headIds, newHeads⟩ := heads_publish ids.heads headed
    have marked : ∃ row ∈ ingested.releases.map (markReady result.releaseId),
        row.id = result.releaseId ∧ descriptor.names row = true :=
      ⟨_, List.mem_map_of_mem release_mem, (id_markReady release).trans named,
        (names_markReady release).trans names⟩
    refine ⟨⟨?_, headIds⟩, ?_, ?_, ?_, newHeads, ?_⟩
    · dsimp only
      rw [List.map_map]
      have same : Release.id ∘ markReady result.releaseId = Release.id := by
        funext row
        exact id_markReady row
      rw [same]
      exact idsAfter
    · intro row inside
      dsimp only at inside
      rw [← named] at inside
      rcases mem_markReady idsAfter release_mem inside with old | rfl
      · exact (releases row old).imp_right And.left
      · exact .inr ((names_markReady release).trans names)
    · intro row inside
      refine (newVariants row inside).imp_right fun same => ?_
      rw [same]
      exact marked
    · intro row inside
      obtain ⟨markedRow, marked_mem, marked_id, marked_names⟩ := marked
      refine (newLinks row inside).imp_right fun ⟨variant, member, link, same⟩ => ?_
      exact ⟨variant, member, link, markedRow, marked_mem, marked_id.trans same.symm, marked_names⟩
    · intro draft
      rw [draft] at publish
      cases publish
  next draft =>
    subst published
    have there : ∃ row ∈ ingested.releases,
        row.id = result.releaseId ∧ descriptor.names row = true :=
      ⟨release, release_mem, named, names⟩
    refine ⟨⟨idsAfter, ?_⟩, ?_, ?_, ?_, ?_, ?_⟩
    · rw [oldHeads]
      exact ids.heads
    · exact fun row inside => (releases row inside).imp_right And.left
    · intro row inside
      refine (newVariants row inside).imp_right fun same => ?_
      rw [same]
      exact there
    · intro row inside
      refine (newLinks row inside).imp_right fun ⟨variant, member, link, same⟩ => ?_
      rw [← same] at there
      exact ⟨variant, member, link, there⟩
    · intro row inside
      rw [oldHeads] at inside
      exact .inl inside
    · intro quiet
      refine ⟨oldHeads, fun row inside ready => ?_⟩
      rcases releases row inside with old | ⟨-, drafted⟩
      · exact old
      · rw [drafted quiet] at ready
        exact absurd ready (by decide)

/-! ## What a call changes -/

variable {hashes} {scopes : CiTokenScopes}

theorem Ingested.confined {before after : Tables} (ingested : Ingested descriptor before after)
    (covers : Covers scopes descriptor.typeKey descriptor.name)
    (publishes : descriptor.publish = true → scopes.canPublish ≠ some false) :
    Confined scopes before after := by
  have named : ∀ row : Release, descriptor.names row = true →
      Covers scopes row.typeKey row.name := by
    intro row names
    simp only [IngestReleaseDescriptor.names, Bool.and_eq_true, decide_eq_true_eq] at names
    rw [names.1.1, names.1.2]
    exact covers
  have inScope : ∀ id, (∃ release ∈ after.releases, release.id = id ∧
      descriptor.names release = true) → InScope scopes after id := by
    rintro id ⟨release, member, same, names⟩
    exact ⟨release, member, same, named release names⟩
  refine ⟨?_, ?_, ?_, ?_, ?_⟩
  · intro row inside new
    exact named row ((ingested.releases row inside).resolve_left new)
  · intro row inside new
    exact inScope _ ((ingested.variants row inside).resolve_left new)
  · intro row inside new
    obtain ⟨variant, member, link, release⟩ := (ingested.links row inside).resolve_left new
    exact ⟨variant, member, link, inScope _ release⟩
  · intro row inside new
    have names := (ingested.heads row inside).resolve_left new
    simp only [IngestReleaseDescriptor.heads, Bool.and_eq_true, decide_eq_true_eq] at names
    rw [names.1.1, names.1.2]
    exact covers
  · intro forbidden
    refine ingested.unpublished ?_
    cases publish : descriptor.publish with
    | false => rfl
    | true => exact absurd forbidden (publishes publish)

theorem ingest_of {around : Surroundings} {input : ReleaseDescriptor} {publish : Bool}
    {before after : Tables} (ids : Ids before)
    (returned : ingest hashes around before input publish = .ok (result, after)) :
    ∃ descriptor : IngestReleaseDescriptor, descriptor.typeKey = input.typeKey ∧
      descriptor.name = input.name ∧ descriptor.publish = publish ∧
      Ingested descriptor before after := by
  obtain ⟨descriptor, described, ingested⟩ := bind_eq_ok.mp returned
  obtain ⟨variants, -, same⟩ := bind_eq_ok.mp described
  obtain rfl := Except.ok.inj same
  exact ⟨_, rfl, rfl, rfl, ingestRelease_of ids ingested⟩

/-- A token that is accepted is there, and its scopes allow what is required. -/
theorem verifyCiToken_ok {around : Surroundings} {tokens : CiTokens} {secret : Option String}
    {requirement : Requirement} {matched : CiToken}
    (verified : verifyCiToken hashes around tokens secret requirement = .ok matched) :
    ∃ presented ∈ secret, matched ∈ tokens.rows ∧
      matched.tokenPrefix = secretPrefix presented ∧
      matched.tokenHash = hashes.hashToken presented ∧
      (∀ typeKey ∈ requirement.typeKey, scopeAllows matched.scopes.typeKeys typeKey = true) ∧
      (∀ name ∈ requirement.name, scopeAllows matched.scopes.names name = true) ∧
      (requirement.publish = some true → matched.scopes.canPublish ≠ some false) := by
  unfold verifyCiToken at verified
  cases shape : nonBlank secret with
  | none =>
    rw [shape] at verified
    cases verified
  | some presented =>
    rw [shape] at verified
    dsimp only at verified
    cases found : findCiToken hashes around tokens presented with
    | none =>
      rw [found] at verified
      cases verified
    | some row =>
      rw [found] at verified
      dsimp only at verified
      split at verified
      · cases verified
      rename_i typeAllowed
      split at verified
      · cases verified
      rename_i nameAllowed
      split at verified
      · cases verified
      rename_i mayPublish
      obtain rfl := Except.ok.inj verified
      have inside := List.mem_of_find?_eq_some found
      obtain ⟨member, prefixed⟩ := List.mem_filter.mp inside
      have hash := List.find?_some found
      simp only [CiToken.matches, Bool.and_eq_true, decide_eq_true_eq] at hash
      refine ⟨presented, (Option.filter_eq_some_iff.mp shape).1, member,
        of_decide_eq_true prefixed, hash.1.1, ?_, ?_, ?_⟩
      · intro typeKey required
        rw [Option.mem_def.mp required] at typeAllowed
        simpa using typeAllowed
      · intro name required
        rw [Option.mem_def.mp required] at nameAllowed
        simpa using nameAllowed
      · exact fun publish forbidden => mayPublish ⟨publish, forbidden⟩

/-- No token of CI is found for the callback token of a build. -/
theorem minted_apart {tokens : CiTokens} {row : CiToken} {secret : String}
    (member : row ∈ tokens.rows) (same : row.tokenPrefix = secretPrefix secret) :
    ¬ buildSecretPrefix.toList <+: secret.toList := by
  rintro ⟨rest, shape⟩
  have minted := tokens.minted row member
  rw [same, secretPrefix, String.toList_ofList, ← shape] at minted
  have ofCi : ciSecretPrefix.toList = ['c', 'i', 't', '_'] := by decide
  have ofBuild : buildSecretPrefix.toList = ['b', 'c', 'b', '_'] := by decide
  rw [ofCi, ofBuild] at minted
  simp [ciTokenPrefixLen] at minted

/-- The client of a token: the tokens of the database stay, and it has no other token of CI. -/
structure Holds (tokens : CiTokens) (secret : String) (client : Client) : Prop where
  tokens : client.db.tokens = tokens
  ids : Ids client.db.tables
  held : ∀ other ∈ client.held, other = secret ∨ buildSecretPrefix.toList <+: other.toList

section

variable {tokens : CiTokens} {token : CiToken} {secret : String} {client : Client}
  {op : Call Config}

/-- The token that a client is known by is its own. -/
theorem matched_eq (member : token ∈ tokens.rows) (hash : token.tokenHash = hashes.hashToken secret)
    (holds : Holds tokens secret client) (presents : Presents client op)
    {requirement : Requirement} {matched : CiToken}
    (verified : verifyCiToken hashes op.around client.db.tokens (readBearer op.authorization)
      requirement = .ok matched) :
    (∀ typeKey ∈ requirement.typeKey, scopeAllows token.scopes.typeKeys typeKey = true) ∧
      (∀ name ∈ requirement.name, scopeAllows token.scopes.names name = true) ∧
      (requirement.publish = some true → token.scopes.canPublish ≠ some false) := by
  obtain ⟨presented, bearer, matched_mem, prefixed, matchedHash, allowed⟩ :=
    verifyCiToken_ok verified
  rw [holds.tokens] at matched_mem
  rcases holds.held presented (presents presented bearer) with rfl | ofBuild
  · have same : matched = token :=
      List.inj_on_of_nodup_map tokens.unique matched_mem member (matchedHash.trans hash.symm)
    rw [← same]
    exact allowed
  · exact absurd ofBuild (minted_apart matched_mem prefixed)

/-- What an ingestion of a client changes. -/
theorem ingest_confined {scopes : CiTokenScopes} {around : Surroundings}
    {input : ReleaseDescriptor} {publish : Bool} {before after : Tables}
    (ids : Ids before) (covers : Covers scopes input.typeKey input.name)
    (publishes : publish = true → scopes.canPublish ≠ some false)
    (returned : ingest hashes around before input publish = .ok (result, after)) :
    Confined scopes before after ∧ Ids after := by
  obtain ⟨descriptor, typeKey, name, published, ingested⟩ := ingest_of ids returned
  refine ⟨ingested.confined ?_ ?_, ingested.ids⟩
  · rw [typeKey, name]
    exact covers
  · rw [published]
    exact publishes

/-- What one call of the client changes. -/
theorem step_confined (member : token ∈ tokens.rows)
    (hash : token.tokenHash = hashes.hashToken secret) (holds : Holds tokens secret client)
    (presents : Presents client op) (fits : CallbackFits hashes token.scopes client op) :
    Confined token.scopes client.db.tables (step hashes client op).db.tables ∧
      Holds tokens secret (step hashes client op) := by
  have quiet : ∀ db : Db, ∀ answer : Answer, db.tables = client.db.tables →
      db.tokens = client.db.tokens →
      (∀ other ∈ secretsOf answer, buildSecretPrefix.toList <+: other.toList) →
      Confined token.scopes client.db.tables db.tables ∧
        Holds tokens secret ⟨db, secretsOf answer ++ client.held⟩ := by
    intro db answer sameTables sameTokens ofBuild
    refine ⟨sameTables ▸ .refl _ _, sameTokens.trans holds.tokens, sameTables ▸ holds.ids, ?_⟩
    intro other inside
    exact (List.mem_append.mp inside).elim (fun new => .inr (ofBuild other new)) (holds.held other)
  unfold step
  cases called : call hashes op.around client.db op.authorization op.procedure with
  | error failure => exact ⟨.refl _ _, holds⟩
  | ok returned =>
    obtain ⟨answer, db⟩ := returned
    dsimp only
    unfold CallbackFits at fits
    cases shape : op.procedure with
    | ciArtifactUploadUrl | buildArtifactUrl =>
      rw [shape] at called
      obtain ⟨-, -, called⟩ := bind_eq_ok.mp called
      obtain ⟨request, -, same⟩ := bind_eq_ok.mp called
      obtain ⟨rfl, rfl⟩ := Prod.mk.inj (Except.ok.inj same)
      exact quiet _ _ rfl rfl (by simp [secretsOf])
    | ciRegisterRelease input =>
      rw [shape] at called
      obtain ⟨matched, verified, called⟩ := bind_eq_ok.mp called
      obtain ⟨⟨result, tables⟩, ingested, same⟩ := bind_eq_ok.mp called
      obtain ⟨rfl, rfl⟩ := Prod.mk.inj (Except.ok.inj same)
      obtain ⟨typeAllowed, nameAllowed, publishes⟩ :=
        matched_eq member hash holds presents verified
      have covers : Covers token.scopes input.typeKey input.name :=
        ⟨typeAllowed _ rfl, nameAllowed _ rfl⟩
      obtain ⟨confined, ids⟩ := ingest_confined holds.ids covers
        (fun publish => publishes (congrArg some publish)) (mapError_eq_ok.mp ingested)
      exact ⟨confined, holds.tokens, ids, holds.held⟩
    | buildsRequest input =>
      rw [shape] at called
      obtain ⟨-, -, called⟩ := bind_eq_ok.mp called
      obtain ⟨⟨result, db⟩, requested, same⟩ := bind_eq_ok.mp called
      obtain ⟨rfl, rfl⟩ := Prod.mk.inj (Except.ok.inj same)
      obtain ⟨configHash, -, hit | queued⟩ := requestBuild_cases (mapError_eq_ok.mp requested)
      · obtain ⟨row, releaseId, -, -, rfl, rfl⟩ := hit
        exact quiet _ _ rfl rfl (by simp [secretsOf])
      · obtain ⟨builds, -, -, rfl, rfl⟩ := queued
        refine quiet _ _ rfl rfl fun other inside => ?_
        rw [secretsOf, List.mem_singleton] at inside
        rw [inside, generateBuildCallbackToken, String.toList_append]
        exact List.prefix_append _ _
    | buildComplete input =>
      rw [shape] at called fits
      obtain ⟨⟨releaseId, db⟩, completed, same⟩ := bind_eq_ok.mp called
      obtain ⟨rfl, rfl⟩ := Prod.mk.inj (Except.ok.inj same)
      obtain ⟨verified, nothing | brought⟩ := buildComplete_cases completed
      · obtain ⟨-, -, rfl⟩ := nothing
        exact quiet _ _ rfl rfl (by simp [secretsOf])
      · obtain ⟨release, result, tables, built, ingested, -, rfl⟩ := brought
        obtain ⟨covers, publishes⟩ := fits verified release built
        obtain ⟨confined, ids⟩ := ingest_confined holds.ids covers (fun _ => publishes) ingested
        exact ⟨confined, holds.tokens, ids, holds.held⟩
    | otaTrigger deviceId =>
      rw [shape] at called
      obtain ⟨-, -, same⟩ := bind_eq_ok.mp called
      obtain ⟨rfl, rfl⟩ := Prod.mk.inj (Except.ok.inj same)
      exact quiet _ _ rfl rfl (by simp [secretsOf])

end

/-- Every call of the holder of a token, or of callback tokens it was given, changes only what the
scopes of the token allow, if each callback that is accepted brings a release that they allow. -/
theorem scopes_hold (hashes : Hashes Config) (db : Db) (token : CiToken) (secret : String)
    (member : token ∈ db.tokens.rows) (hash : token.tokenHash = hashes.hashToken secret)
    (ids : Ids db.tables) (ops : List (Call Config))
    (calls : Along (step hashes) (fun client op =>
      Presents client op ∧ CallbackFits hashes token.scopes client op) ⟨db, [secret]⟩ ops) :
    Along (step hashes) (fun client op =>
      Confined token.scopes client.db.tables (step hashes client op).db.tables)
      ⟨db, [secret]⟩ ops := by
  have start : Holds db.tokens secret ⟨db, [secret]⟩ :=
    ⟨rfl, ids, fun other inside => .inl (List.mem_singleton.mp inside)⟩
  refine calls.always (Holds db.tokens secret) ?_ ?_ start
  · exact fun client op holds now => (step_confined member hash holds now.1 now.2).2
  · exact fun client op holds now => (step_confined member hash holds now.1 now.2).1

/-- A token for drafts of one release. -/
def sampleToken : CiToken :=
  { id := "tok", tokenPrefix := "cit_01234567", tokenHash := "cit_0123456789"
    scopes := { typeKeys := some ["firmware"], names := some ["app"], canPublish := some false } }

def sampleTokens : CiTokens where
  rows := [sampleToken]
  unique := by decide
  minted := by
    intro row member
    rw [List.mem_singleton.mp member]
    decide

def sampleDb : Db where
  tables :=
    { artifactTypes := [⟨"firmware", "esp32-firmware"⟩, ⟨"package", "helix-linux-package"⟩] }
  tokens := sampleTokens

def sampleClient : Client := ⟨sampleDb, ["cit_0123456789"]⟩

def draftRelease : ReleaseDescriptor :=
  { typeKey := "firmware", name := "app", version := "1", channel := "dev"
    variants := [{ selector := { chip := .text "esp32", flashSize := .text "4MB" }
                   artifacts := [{ role := "app", ref := some ⟨"r", "c", "1", "d"⟩ }] }] }

def strayRelease : ReleaseDescriptor :=
  { typeKey := "package", name := "kernel", version := "1", channel := "stable"
    variants := [{ selector := { arch := .text "arm64" }
                   artifacts := [{ role := "deb", ref := some ⟨"r", "c", "1", "d"⟩ }] }] }

def draftCalls : List (Call Unit) :=
  [⟨sampleAround "0", some "Bearer cit_0123456789", .ciRegisterRelease draftRelease⟩]

/-- The token requests a build of its type, and the callback brings a release of another. -/
def strayCalls : List (Call Unit) :=
  [⟨sampleAround "0", some "Bearer cit_0123456789",
      .buildsRequest { typeKey := "firmware", ownerUserId := "u", config := () }⟩,
    ⟨sampleAround "0", some "Bearer bcb_0",
      .buildComplete { buildId := "bld_0", release := some strayRelease }⟩]

theorem scopes_hold_sample :
    Along (step sampleHashes) (fun client op =>
      Confined sampleToken.scopes client.db.tables (step sampleHashes client op).db.tables)
      sampleClient draftCalls :=
  scopes_hold sampleHashes sampleDb sampleToken "cit_0123456789" (List.mem_singleton_self _) rfl
    ⟨List.nodup_nil, List.nodup_nil⟩ draftCalls ⟨⟨by decide, trivial⟩, trivial⟩

/-- The callback of a build publishes a release of a type and a name that the token does not allow,
and the token may not publish. -/
theorem scopes_escaped :
    Along (step sampleHashes) Presents sampleClient strayCalls ∧
      ¬ Along (step sampleHashes) (fun client op =>
        Confined sampleToken.scopes client.db.tables (step sampleHashes client op).db.tables)
        sampleClient strayCalls := by
  refine ⟨by decide, ?_⟩
  rintro ⟨-, confined, -⟩
  let stray : Release :=
    { id := "rel_0", typeKey := "package", name := "kernel", version := "1", channel := "stable"
      status := "ready" }
  have after : (run (step sampleHashes) sampleClient strayCalls).db.tables.releases = [stray] := by
    decide
  have before : (run (step sampleHashes) sampleClient
      (strayCalls.take 1)).db.tables.releases = [] := by
    decide
  have inside : stray ∈ (run (step sampleHashes) sampleClient strayCalls).db.tables.releases := by
    rw [after]
    exact List.mem_singleton_self _
  have new : stray ∉ (run (step sampleHashes) sampleClient
      (strayCalls.take 1)).db.tables.releases := by
    rw [before]
    exact List.not_mem_nil
  exact absurd (confined.releases stray inside new).1 (by decide)

end HelixKit.Backend.ReleaseScopes
