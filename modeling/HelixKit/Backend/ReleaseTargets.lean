/-
Purpose: The update a device is told of and the blobs it may fetch, as the rows of the database
  give them in whatever order they come.
Trusted boundary: jsonb containment is a parameter
Main exports: independent_iff
-/
import HelixKit.Backend.ReleaseSchema
import HelixKit.Lib.RowOrder
import Mathlib.Data.List.Dedup

namespace HelixKit.Backend.ReleaseTargets

open ReleaseSchema
open HelixKit.RowOrder

variable {Selector Manifest : Type}

/-! ## The database -/

/-- The tables, under the constraints that a lookup of one row rests on. -/
structure Database (Selector Manifest : Type) where
  artifacts : List Artifact
  releases : List Release
  variants : List (Variant Selector Manifest)
  variantArtifacts : List VariantArtifact
  heads : List ReleaseChannelHead
  tracks : List (ProfileTrack Selector)
  deviceProfiles : List DeviceProfile
  release_id_unique : ∀ a ∈ releases, ∀ b ∈ releases, a.id = b.id → a = b
  head_unique : ∀ a ∈ heads, ∀ b ∈ heads,
    a.typeKey = b.typeKey → a.name = b.name → a.channel = b.channel → a = b

structure ResolvedTrackArtifact where
  role : String
  offset : Option String
  storageMode : StorageMode
  storageKey : Option String
  sha256 : Option String
  sizeBytes : Option Nat
deriving Repr, DecidableEq

/-- The order of the rows that each query of one call returns. The queries for a track have an
order of their own. -/
structure RowOrder (Selector Manifest : Type) where
  tracks : List (ProfileTrack Selector) → List (ProfileTrack Selector)
  heads : ProfileTrack Selector → List ReleaseChannelHead → List ReleaseChannelHead
  releases : ProfileTrack Selector → List Release → List Release
  variants : ProfileTrack Selector → List (Variant Selector Manifest) →
    List (Variant Selector Manifest)
  artifacts : ProfileTrack Selector → List ResolvedTrackArtifact → List ResolvedTrackArtifact
  tracks_perm : ∀ rows, (tracks rows).Perm rows
  heads_perm : ∀ track rows, (heads track rows).Perm rows
  releases_perm : ∀ track rows, (releases track rows).Perm rows
  variants_perm : ∀ track rows, (variants track rows).Perm rows
  artifacts_perm : ∀ track rows, (artifacts track rows).Perm rows

/-- `@>` of jsonb, and the selector `{}`. -/
structure Containment (Selector : Type) where
  contains : Selector → Selector → Bool
  empty : Selector

variable (jsonb : Containment Selector) (order : RowOrder Selector Manifest)
  (db : Database Selector Manifest)

/-! ## One track -/

inductive Status where
  | resolved
  | noRelease
  | noVariant
deriving Repr, DecidableEq

inductive Source where
  | pinned
  | channel
deriving Repr, DecidableEq

structure TrackResolution (Selector Manifest : Type) where
  status : Status
  source : Option Source
  release : Option Release
  variant : Option (Variant Selector Manifest)
  artifacts : List ResolvedTrackArtifact
deriving Repr, DecidableEq

/-- The heads of a track's channel. -/
def Database.headsOf (track : ProfileTrack Selector) (channel : String) :
    List ReleaseChannelHead :=
  db.heads.filter fun head =>
    head.typeKey = track.typeKey ∧ head.name = track.releaseName ∧ head.channel = channel

/-- The pinned release of a track or the head of its channel. -/
def pointed (track : ProfileTrack Selector) : Option (Source × String) :=
  match track.pinnedReleaseId with
  | some releaseId => some (.pinned, releaseId)
  | none =>
    match track.channel with
    | none => none
    | some channel =>
      match (order.heads track (db.headsOf track channel)).head? with
      | none => none
      | some head => some (.channel, head.releaseId)

def Database.releasesWith (releaseId : String) : List Release :=
  db.releases.filter fun release => release.id = releaseId

def Database.matching (track : ProfileTrack Selector) (releaseId : String) :
    List (Variant Selector Manifest) :=
  db.variants.filter fun variant =>
    variant.releaseId = releaseId ∧ variant.status = "ready" ∧
      jsonb.contains variant.selector (track.selector.getD jsonb.empty)

/-- The artifacts of a variant, joined with its links. -/
def Database.artifactsOf (variantId : String) : List ResolvedTrackArtifact :=
  (db.variantArtifacts.filter fun link => link.variantId = variantId).flatMap fun link =>
    (db.artifacts.filter fun artifact => link.artifactId = artifact.id).map fun artifact =>
      { role := link.role, offset := link.offset, storageMode := artifact.storageMode
        storageKey := artifact.storageKey, sha256 := artifact.sha256
        sizeBytes := artifact.sizeBytes }

def resolveTrack (track : ProfileTrack Selector) : TrackResolution Selector Manifest :=
  match pointed order db track with
  | none =>
    { status := .noRelease, source := none, release := none, variant := none, artifacts := [] }
  | some (source, releaseId) =>
    match (order.releases track (db.releasesWith releaseId)).head? with
    | none =>
      { status := .noRelease, source := none, release := none, variant := none
        artifacts := [] }
    | some release =>
      let rows := order.variants track (db.matching jsonb track releaseId)
      match firstNewest Variant.createdAt rows with
      | none =>
        { status := .noVariant, source := some source, release := some release
          variant := none, artifacts := [] }
      | some variant =>
        { status := .resolved, source := some source, release := some release
          variant := some variant
          artifacts := order.artifacts track (db.artifactsOf variant.id) }

/-! ## A device -/

/-- The tracks of the profiles that a device is assigned. -/
def Database.tracksOf (deviceId : String) : List (ProfileTrack Selector) :=
  let profiles := (db.deviceProfiles.filter fun row => row.deviceId = deviceId).map
    DeviceProfile.profileId
  db.tracks.filter fun track => track.profileId ∈ profiles

def tracksForDevice (deviceId : String) : List (ProfileTrack Selector) :=
  order.tracks (db.tracksOf deviceId)

structure ResolvedArtifact extends ResolvedTrackArtifact where
  releaseId : String
  releaseVersion : String
  variantId : String
  typeKey : String
deriving Repr, DecidableEq

def ResolvedTrackArtifact.resolved (row : ResolvedTrackArtifact) (track : ProfileTrack Selector)
    (release : Release) (variant : Variant Selector Manifest) : ResolvedArtifact :=
  { row with releaseId := release.id, releaseVersion := release.version
             variantId := variant.id, typeKey := track.typeKey }

/-- What one track adds to the artifacts of a device. -/
def resolvedArtifacts (track : ProfileTrack Selector) : List ResolvedArtifact :=
  let result := resolveTrack jsonb order db track
  match result.status, result.release, result.variant with
  | .resolved, some release, some variant =>
    result.artifacts.map fun row => row.resolved track release variant
  | _, _, _ => []

def resolveDeviceArtifacts (deviceId : String) : List ResolvedArtifact :=
  (tracksForDevice order db deviceId).flatMap (resolvedArtifacts jsonb order db)

/-- The keys of the blobs, without regard to their order. -/
def blobKeys (entries : List ResolvedArtifact) : List String :=
  entries.filterMap fun entry => if entry.storageMode = .blob then entry.storageKey else none

def resolveDeviceAllowedKeys (deviceId : String) : List String :=
  (blobKeys (resolveDeviceArtifacts jsonb order db deviceId)).dedup

structure OtaTarget where
  storageKey : String
  sha256 : String
  version : String
  releaseId : String
  variantId : String
deriving Repr, DecidableEq

/-- An app that can be fetched as a blob. -/
def ResolvedArtifact.isApp (entry : ResolvedArtifact) : Bool :=
  entry.role = "app" && entry.storageMode = .blob && entry.storageKey.isSome

/-- The target that an entry makes, unless its digest is not known. -/
def ResolvedArtifact.target (entry : ResolvedArtifact) : Option OtaTarget :=
  match entry.storageKey, entry.sha256 with
  | some storageKey, some sha256 =>
    some { storageKey, sha256, version := entry.releaseVersion, releaseId := entry.releaseId
           variantId := entry.variantId }
  | _, _ => none

def resolveOtaTarget (deviceId : String) : Option OtaTarget :=
  match (resolveDeviceArtifacts jsonb order db deviceId).find? ResolvedArtifact.isApp with
  | none => none
  | some app => app.target

/-! ## What the tables say -/

def Database.pointed (track : ProfileTrack Selector) : Option String :=
  match track.pinnedReleaseId with
  | some releaseId => some releaseId
  | none =>
    track.channel.bind fun channel =>
      (db.headsOf track channel).head?.map ReleaseChannelHead.releaseId

/-- The release that a track lands on. -/
def Database.landing (track : ProfileTrack Selector) : Option Release :=
  (db.pointed track).bind fun releaseId => (db.releasesWith releaseId).head?

/-- The variants that a track can land on: one, unless several are equally new. -/
def Database.landings (track : ProfileTrack Selector) : List (Variant Selector Manifest) :=
  match db.landing track with
  | none => []
  | some release => newest Variant.createdAt (db.matching jsonb track release.id)

def Database.entries (track : ProfileTrack Selector) (variant : Variant Selector Manifest) :
    List ResolvedArtifact :=
  match db.landing track with
  | none => []
  | some release => (db.artifactsOf variant.id).map fun row => row.resolved track release variant

/-- Every key that a track can give is one that some track gives whichever variant it lands on. -/
def Database.KeysAgree (deviceId : String) : Prop :=
  ∀ track ∈ db.tracksOf deviceId, ∀ variant ∈ db.landings jsonb track,
    ∀ key ∈ blobKeys (db.entries track variant),
      ∃ other ∈ db.tracksOf deviceId, db.landings jsonb other ≠ [] ∧
        ∀ variant ∈ db.landings jsonb other, key ∈ blobKeys (db.entries other variant)

/-- `entry` is the app of a variant that a track of the device can land on. -/
def Database.App (deviceId : String) (entry : ResolvedArtifact) : Prop :=
  ∃ track ∈ db.tracksOf deviceId, ∃ variant ∈ db.landings jsonb track,
    entry ∈ db.entries track variant ∧ entry.isApp = true

/-- All apps make the same target, and if they make one, some track has an app whichever variant it
lands on. -/
def Database.TargetsAgree (deviceId : String) : Prop :=
  (∀ entry other, db.App jsonb deviceId entry → db.App jsonb deviceId other →
    entry.target = other.target) ∧
  ((∃ entry, db.App jsonb deviceId entry ∧ entry.target ≠ none) →
    ∃ track ∈ db.tracksOf deviceId, db.landings jsonb track ≠ [] ∧
      ∀ variant ∈ db.landings jsonb track,
        ∃ entry ∈ db.entries track variant, entry.isApp = true)

/-! ## The order of the rows and the tables -/

variable {jsonb order db}

theorem pointed_eq (order : RowOrder Selector Manifest) (db : Database Selector Manifest)
    (track : ProfileTrack Selector) :
    (pointed order db track).map Prod.snd = db.pointed track := by
  unfold pointed Database.pointed
  cases track.pinnedReleaseId with
  | some releaseId => rfl
  | none =>
    cases track.channel with
    | none => rfl
    | some channel =>
      have unique : ∀ a ∈ db.headsOf track channel, ∀ b ∈ db.headsOf track channel, a = b := by
        intro a a_mem b b_mem
        simp only [Database.headsOf, List.mem_filter, decide_eq_true_eq] at a_mem b_mem
        obtain ⟨a_mem, a_type, a_name, a_channel⟩ := a_mem
        obtain ⟨b_mem, b_type, b_name, b_channel⟩ := b_mem
        exact db.head_unique a a_mem b b_mem (a_type.trans b_type.symm)
          (a_name.trans b_name.symm) (a_channel.trans b_channel.symm)
      have same := head?_eq_of_perm (order.heads_perm track _).symm unique
      simp only [Option.bind_some, same]
      cases (order.heads track (db.headsOf track channel)).head? <;> rfl

theorem releases_head (track : ProfileTrack Selector) (releaseId : String) :
    (order.releases track (db.releasesWith releaseId)).head? =
      (db.releasesWith releaseId).head? := by
  symm
  apply head?_eq_of_perm (order.releases_perm track _).symm
  intro a a_mem b b_mem
  simp only [Database.releasesWith, List.mem_filter, decide_eq_true_eq] at a_mem b_mem
  exact db.release_id_unique a a_mem.1 b b_mem.1 (a_mem.2.trans b_mem.2.symm)

/-- Only the variant that a track lands on, and the order of its artifacts, depend on the order of
the rows. -/
theorem resolvedArtifacts_eq (track : ProfileTrack Selector) :
    resolvedArtifacts jsonb order db track =
      match db.landing track with
      | none => []
      | some release =>
        match firstNewest Variant.createdAt
            (order.variants track (db.matching jsonb track release.id)) with
        | none => []
        | some variant =>
          (order.artifacts track (db.artifactsOf variant.id)).map fun row =>
            row.resolved track release variant := by
  have point := pointed_eq order db track
  unfold resolvedArtifacts resolveTrack Database.landing
  rw [← point]
  cases pointed order db track with
  | none => rfl
  | some found =>
    obtain ⟨source, releaseId⟩ := found
    simp only [Option.map_some, Option.bind_some, releases_head]
    cases landed : (db.releasesWith releaseId).head? with
    | none => rfl
    | some release =>
      have named : release.id = releaseId := by
        have member := List.mem_of_mem_head? landed
        simpa using (List.mem_filter.mp member).2
      simp only [named]
      cases firstNewest Variant.createdAt
          (order.variants track (db.matching jsonb track releaseId)) <;> rfl

theorem resolvedArtifacts_none {track : ProfileTrack Selector}
    (nowhere : db.landings jsonb track = []) : resolvedArtifacts jsonb order db track = [] := by
  rw [resolvedArtifacts_eq]
  unfold Database.landings at nowhere
  cases landed : db.landing track with
  | none => rfl
  | some release =>
    rw [landed] at nowhere
    have none_first := (firstNewest_eq_none (order.variants_perm track _)).mpr nowhere
    simp only [none_first]

theorem resolvedArtifacts_perm (order : RowOrder Selector Manifest) {track : ProfileTrack Selector}
    (somewhere : db.landings jsonb track ≠ []) :
    ∃ variant ∈ db.landings jsonb track,
      (resolvedArtifacts jsonb order db track).Perm (db.entries track variant) := by
  rw [resolvedArtifacts_eq]
  unfold Database.landings Database.entries at *
  cases landed : db.landing track with
  | none => simp [landed] at somewhere
  | some release =>
    simp only [landed] at somewhere ⊢
    have perm := order.variants_perm track (db.matching jsonb track release.id)
    cases first : firstNewest Variant.createdAt
        (order.variants track (db.matching jsonb track release.id)) with
    | none => exact absurd ((firstNewest_eq_none perm).mp first) somewhere
    | some variant =>
      exact ⟨variant, firstNewest_mem perm first,
        (order.artifacts_perm track (db.artifactsOf variant.id)).map _⟩

/-- Tracks, variants and artifacts that are preferred come first. -/
def RowOrder.preferring (tracks : ProfileTrack Selector → Bool)
    (variants : ProfileTrack Selector → Variant Selector Manifest → Bool)
    (artifacts : ResolvedTrackArtifact → Bool) : RowOrder Selector Manifest where
  tracks := HelixKit.RowOrder.preferring tracks
  heads _ rows := rows
  releases _ rows := rows
  variants track := HelixKit.RowOrder.preferring (variants track)
  artifacts _ := HelixKit.RowOrder.preferring artifacts
  tracks_perm := preferring_perm tracks
  heads_perm _ := List.Perm.refl
  releases_perm _ := List.Perm.refl
  variants_perm track := preferring_perm (variants track)
  artifacts_perm _ := preferring_perm artifacts

section

variable (tracks : ProfileTrack Selector → Bool)
  (variants : ProfileTrack Selector → Variant Selector Manifest → Bool)
  (artifacts : ResolvedTrackArtifact → Bool) {track : ProfileTrack Selector}
  {variant : Variant Selector Manifest}

theorem resolvedArtifacts_preferring (member : variant ∈ db.landings jsonb track)
    (chosen : variants track variant = true) :
    ∃ release, ∃ first ∈ db.landings jsonb track, variants track first = true ∧
      db.landing track = some release ∧
      resolvedArtifacts jsonb (.preferring tracks variants artifacts) db track =
        (HelixKit.RowOrder.preferring artifacts (db.artifactsOf first.id)).map fun row =>
          row.resolved track release first := by
  rw [resolvedArtifacts_eq]
  unfold Database.landings at *
  cases landed : db.landing track with
  | none => simp [landed] at member
  | some release =>
    simp only [landed] at member ⊢
    obtain ⟨first, first_eq, first_chosen⟩ := firstNewest_preferring member chosen
    refine ⟨release, first, ?_, first_chosen, rfl, ?_⟩
    · exact firstNewest_mem (preferring_perm (variants track) _) first_eq
    · simp only [RowOrder.preferring, first_eq]

/-- What a track gives when a variant of a kind is preferred is what a variant of that kind
gives. -/
theorem resolvedArtifacts_preferring_perm (member : variant ∈ db.landings jsonb track)
    (chosen : variants track variant = true) :
    ∃ first ∈ db.landings jsonb track, variants track first = true ∧
      (resolvedArtifacts jsonb (.preferring tracks variants artifacts) db track).Perm
        (db.entries track first) := by
  obtain ⟨release, first, first_mem, first_chosen, landed, same⟩ :=
    resolvedArtifacts_preferring tracks variants artifacts member chosen
  refine ⟨first, first_mem, first_chosen, ?_⟩
  simp only [same, Database.entries, landed]
  exact (preferring_perm artifacts _).map _

end

/-! ## The keys -/

theorem mem_blobKeys {entries : List ResolvedArtifact} {key : String} :
    key ∈ blobKeys entries ↔
      ∃ entry ∈ entries, entry.storageMode = .blob ∧ entry.storageKey = some key := by
  simp [blobKeys]

variable {deviceId : String}

theorem mem_resolveDeviceAllowedKeys {key : String} :
    key ∈ resolveDeviceAllowedKeys jsonb order db deviceId ↔
      ∃ track ∈ db.tracksOf deviceId, key ∈ blobKeys (resolvedArtifacts jsonb order db track) := by
  simp only [resolveDeviceAllowedKeys, List.mem_dedup, resolveDeviceArtifacts, mem_blobKeys,
    List.mem_flatMap, tracksForDevice, (order.tracks_perm _).mem_iff]
  constructor
  · rintro ⟨entry, ⟨track, track_mem, entry_mem⟩, facts⟩
    exact ⟨track, track_mem, entry, entry_mem, facts⟩
  · rintro ⟨track, track_mem, entry, entry_mem, facts⟩
    exact ⟨entry, ⟨track, track_mem, entry_mem⟩, facts⟩

theorem blobKeys_perm {entries other : List ResolvedArtifact} (perm : entries.Perm other)
    {key : String} : key ∈ blobKeys entries ↔ key ∈ blobKeys other :=
  (perm.filterMap _).mem_iff

/-- A key that is allowed is one of a variant that a track can land on. -/
theorem allowed_landing {key : String}
    (allowed : key ∈ resolveDeviceAllowedKeys jsonb order db deviceId) :
    ∃ track ∈ db.tracksOf deviceId, ∃ variant ∈ db.landings jsonb track,
      key ∈ blobKeys (db.entries track variant) := by
  obtain ⟨track, track_mem, given⟩ := mem_resolveDeviceAllowedKeys.mp allowed
  by_cases nowhere : db.landings jsonb track = []
  · rw [resolvedArtifacts_none nowhere] at given
    cases given
  · obtain ⟨variant, variant_mem, perm⟩ := resolvedArtifacts_perm order nowhere
    exact ⟨track, track_mem, variant, variant_mem, (blobKeys_perm perm).mp given⟩

theorem allowed_of_always {key : String} {track : ProfileTrack Selector}
    (member : track ∈ db.tracksOf deviceId) (somewhere : db.landings jsonb track ≠ [])
    (always : ∀ variant ∈ db.landings jsonb track, key ∈ blobKeys (db.entries track variant)) :
    key ∈ resolveDeviceAllowedKeys jsonb order db deviceId := by
  obtain ⟨variant, variant_mem, perm⟩ := resolvedArtifacts_perm order somewhere
  exact mem_resolveDeviceAllowedKeys.mpr
    ⟨track, member, (blobKeys_perm perm).mpr (always variant variant_mem)⟩

theorem keys_independent_iff (deviceId : String) :
    (∀ order other key, key ∈ resolveDeviceAllowedKeys jsonb order db deviceId →
      key ∈ resolveDeviceAllowedKeys jsonb other db deviceId) ↔ db.KeysAgree jsonb deviceId := by
  classical
  constructor
  · intro independent track track_mem variant variant_mem key given
    by_contra missing
    push Not at missing
    -- One order lands on the variant with the key, the other on variants without it.
    let having : RowOrder Selector Manifest := .preferring (fun _ => true)
      (fun track variant => key ∈ blobKeys (db.entries track variant)) (fun _ => true)
    let lacking : RowOrder Selector Manifest := .preferring (fun _ => true)
      (fun track variant => key ∉ blobKeys (db.entries track variant)) (fun _ => true)
    have allowed : key ∈ resolveDeviceAllowedKeys jsonb having db deviceId := by
      obtain ⟨first, first_mem, chosen, perm⟩ :=
        resolvedArtifacts_preferring_perm (fun _ => true)
          (fun track variant => key ∈ blobKeys (db.entries track variant)) (fun _ => true)
          variant_mem (by simpa using given)
      exact mem_resolveDeviceAllowedKeys.mpr
        ⟨track, track_mem, (blobKeys_perm perm).mpr (by simpa using chosen)⟩
    have still := independent having lacking key allowed
    obtain ⟨other, other_mem, other_given⟩ := mem_resolveDeviceAllowedKeys.mp still
    by_cases nowhere : db.landings jsonb other = []
    · rw [resolvedArtifacts_none nowhere] at other_given
      cases other_given
    · obtain ⟨without, without_mem, without_lacks⟩ := missing other other_mem nowhere
      obtain ⟨first, first_mem, chosen, perm⟩ :=
        resolvedArtifacts_preferring_perm (fun _ => true)
          (fun track variant => key ∉ blobKeys (db.entries track variant)) (fun _ => true)
          without_mem (by simpa using without_lacks)
      have lacks : key ∉ blobKeys (db.entries other first) := by simpa using chosen
      exact lacks ((blobKeys_perm perm).mp other_given)
  · intro agree order other key allowed
    obtain ⟨track, track_mem, variant, variant_mem, given⟩ := allowed_landing allowed
    obtain ⟨always, always_mem, somewhere, all⟩ := agree track track_mem variant variant_mem key given
    exact allowed_of_always always_mem somewhere all

/-! ## The target -/

theorem App.of_resolved {entry : ResolvedArtifact}
    (member : entry ∈ resolveDeviceArtifacts jsonb order db deviceId) (app : entry.isApp = true) :
    db.App jsonb deviceId entry := by
  obtain ⟨track, track_mem, entry_mem⟩ := List.mem_flatMap.mp member
  rw [tracksForDevice, (order.tracks_perm _).mem_iff] at track_mem
  by_cases nowhere : db.landings jsonb track = []
  · rw [resolvedArtifacts_none nowhere] at entry_mem
    cases entry_mem
  · obtain ⟨variant, variant_mem, perm⟩ := resolvedArtifacts_perm order nowhere
    exact ⟨track, track_mem, variant, variant_mem, perm.mem_iff.mp entry_mem, app⟩

/-- Some order makes the target of any app that the device can get. -/
theorem target_of_app {entry : ResolvedArtifact} (app : db.App jsonb deviceId entry) :
    ∃ order, resolveOtaTarget jsonb order db deviceId = entry.target := by
  classical
  obtain ⟨track, track_mem, variant, variant_mem, entry_mem, is_app⟩ := app
  obtain ⟨release, landed⟩ : ∃ release, db.landing track = some release := by
    cases landed : db.landing track with
    | none => simp [Database.landings, landed] at variant_mem
    | some release => exact ⟨release, rfl⟩
  simp only [Database.entries, landed, List.mem_map] at entry_mem
  obtain ⟨row, row_mem, rfl⟩ := entry_mem
  let order : RowOrder Selector Manifest := .preferring (fun other => other = track)
    (fun _ other => other = variant) (fun other => other = row)
  obtain ⟨rest, tracks_eq⟩ := preferring_eq_cons (fun other => decide (other = track))
    track_mem (by simp)
  obtain ⟨rows, rows_eq⟩ := preferring_eq_cons (fun other => decide (other = row))
    row_mem (by simp)
  obtain ⟨release', first, -, chosen, landed', given⟩ :=
    resolvedArtifacts_preferring (fun other => decide (other = track))
      (fun _ other => decide (other = variant)) (fun other => decide (other = row)) variant_mem (by simp)
  obtain rfl : release = release' := Option.some.inj (landed.symm.trans landed')
  obtain rfl : first = variant := by simpa using chosen
  rw [rows_eq, List.map_cons] at given
  refine ⟨order, ?_⟩
  have listed : resolveDeviceArtifacts jsonb order db deviceId =
      row.resolved track release first ::
        (rows.map (fun row => row.resolved track release first) ++
          rest.flatMap (resolvedArtifacts jsonb order db)) := by
    have in_front : tracksForDevice order db deviceId = track :: rest := tracks_eq
    rw [resolveDeviceArtifacts, in_front, List.flatMap_cons]
    exact congrArg (· ++ rest.flatMap (resolvedArtifacts jsonb order db)) given
  rw [resolveOtaTarget, listed, List.find?_cons_of_pos is_app]

theorem isApp_perm {entries other : List ResolvedArtifact} (perm : entries.Perm other) :
    (∃ entry ∈ entries, entry.isApp = true) ↔ ∃ entry ∈ other, entry.isApp = true := by
  simp only [perm.mem_iff]

/-- If each track can land where there is no app, some order makes no target. -/
theorem no_target (jsonb : Containment Selector) (db : Database Selector Manifest)
    (deviceId : String)
    (avoidable : ∀ track ∈ db.tracksOf deviceId, db.landings jsonb track ≠ [] →
      ∃ variant ∈ db.landings jsonb track,
        ¬ ∃ entry ∈ db.entries track variant, entry.isApp = true) :
    ∃ order, resolveOtaTarget jsonb order db deviceId = none := by
  classical
  let order : RowOrder Selector Manifest := .preferring (fun _ => true)
    (fun track variant => ¬ ∃ entry ∈ db.entries track variant, entry.isApp = true) (fun _ => true)
  have nothing : (resolveDeviceArtifacts jsonb order db deviceId).find? ResolvedArtifact.isApp =
      none := by
    rw [List.find?_eq_none]
    intro entry entry_mem is_app
    obtain ⟨track, track_mem, entry_mem⟩ := List.mem_flatMap.mp entry_mem
    rw [tracksForDevice, (order.tracks_perm _).mem_iff] at track_mem
    by_cases nowhere : db.landings jsonb track = []
    · rw [resolvedArtifacts_none nowhere] at entry_mem
      cases entry_mem
    · obtain ⟨variant, variant_mem, lacks⟩ := avoidable track track_mem nowhere
      obtain ⟨first, first_mem, chosen, perm⟩ :=
        resolvedArtifacts_preferring_perm (fun _ => true)
          (fun track variant => ¬ ∃ entry ∈ db.entries track variant, entry.isApp = true)
          (fun _ => true) variant_mem (decide_eq_true lacks)
      have first_lacks := of_decide_eq_true chosen
      exact first_lacks ((isApp_perm perm).mp ⟨entry, entry_mem, is_app⟩)
  exact ⟨order, by rw [resolveOtaTarget, nothing]⟩

/-- A target is that of an app that the device can get. -/
theorem target_cases (jsonb : Containment Selector) (order : RowOrder Selector Manifest)
    (db : Database Selector Manifest) (deviceId : String) :
    (∃ entry, db.App jsonb deviceId entry ∧
      entry ∈ resolveDeviceArtifacts jsonb order db deviceId ∧
      resolveOtaTarget jsonb order db deviceId = entry.target) ∨
    ((∀ entry ∈ resolveDeviceArtifacts jsonb order db deviceId, entry.isApp = false) ∧
      resolveOtaTarget jsonb order db deviceId = none) := by
  cases found : (resolveDeviceArtifacts jsonb order db deviceId).find? ResolvedArtifact.isApp with
  | none =>
    right
    constructor
    · intro entry entry_mem
      simpa using List.find?_eq_none.mp found entry entry_mem
    · rw [resolveOtaTarget, found]
  | some entry =>
    left
    have member := List.mem_of_find?_eq_some found
    have app := App.of_resolved member (List.find?_some found)
    exact ⟨entry, app, member, by rw [resolveOtaTarget, found]⟩

theorem targets_independent_iff (deviceId : String) :
    (∀ order other, resolveOtaTarget jsonb order db deviceId =
      resolveOtaTarget jsonb other db deviceId) ↔ db.TargetsAgree jsonb deviceId := by
  constructor
  · intro independent
    constructor
    · intro entry other entry_app other_app
      obtain ⟨order, makes⟩ := target_of_app entry_app
      obtain ⟨order', makes'⟩ := target_of_app other_app
      rw [← makes, ← makes', independent order order']
    · rintro ⟨entry, entry_app, makes_one⟩
      by_contra missing
      push Not at missing
      obtain ⟨order, makes⟩ := target_of_app entry_app
      obtain ⟨without, none_made⟩ := no_target jsonb db deviceId
        (by
          intro track track_mem somewhere
          obtain ⟨variant, variant_mem, lacks⟩ := missing track track_mem somewhere
          exact ⟨variant, variant_mem, by push Not; exact lacks⟩)
      exact makes_one (makes.symm.trans ((independent order without).trans none_made))
  · rintro ⟨agree, always⟩ order other
    have none_of_none : ∀ without : RowOrder Selector Manifest,
        (∀ entry ∈ resolveDeviceArtifacts jsonb without db deviceId, entry.isApp = false) →
        ∀ entry, db.App jsonb deviceId entry → entry.target = none := by
      intro without lacks entry entry_app
      by_contra makes_one
      obtain ⟨track, track_mem, somewhere, all⟩ := always ⟨entry, entry_app, makes_one⟩
      obtain ⟨variant, variant_mem, perm⟩ := resolvedArtifacts_perm without somewhere
      obtain ⟨app, app_mem, is_app⟩ := (isApp_perm perm).mpr (all variant variant_mem)
      have in_list : app ∈ resolveDeviceArtifacts jsonb without db deviceId :=
        List.mem_flatMap.mpr ⟨track, (without.tracks_perm _).mem_iff.mpr track_mem, app_mem⟩
      rw [lacks app in_list] at is_app
      cases is_app
    rcases target_cases jsonb order db deviceId with
      ⟨entry, entry_app, -, makes⟩ | ⟨lacks, makes⟩
    · rcases target_cases jsonb other db deviceId with
        ⟨entry', entry_app', -, makes'⟩ | ⟨lacks', makes'⟩
      · rw [makes, makes', agree entry entry' entry_app entry_app']
      · rw [makes, makes', none_of_none other lacks' entry entry_app]
    · rcases target_cases jsonb other db deviceId with
        ⟨entry', entry_app', -, makes'⟩ | ⟨-, makes'⟩
      · rw [makes, makes', none_of_none order lacks entry' entry_app']
      · rw [makes, makes']

/-- A target can be fetched in the order in which it was found. -/
theorem target_allowed {target : OtaTarget}
    (found : resolveOtaTarget jsonb order db deviceId = some target) :
    target.storageKey ∈ resolveDeviceAllowedKeys jsonb order db deviceId := by
  unfold resolveOtaTarget at found
  cases first : (resolveDeviceArtifacts jsonb order db deviceId).find? ResolvedArtifact.isApp with
  | none => simp [first] at found
  | some entry =>
    rw [first] at found
    have is_app := List.find?_some first
    simp only [ResolvedArtifact.isApp, Bool.and_eq_true, decide_eq_true_eq] at is_app
    have stored : entry.storageKey = some target.storageKey := by
      simp only [ResolvedArtifact.target] at found
      split at found
      next key digest key_eq digest_eq =>
        rw [← Option.some.inj found, key_eq]
      · cases found
    rw [resolveDeviceAllowedKeys, List.mem_dedup, mem_blobKeys]
    exact ⟨entry, List.mem_of_find?_eq_some first, is_app.1.2, stored⟩

/-! ## The law -/

/-- Neither result depends on the order of the rows, and a target can be fetched whichever orders
the two calls see. -/
def Independent (jsonb : Containment Selector) (db : Database Selector Manifest)
    (deviceId : String) : Prop :=
  (∀ order other, resolveOtaTarget jsonb order db deviceId =
    resolveOtaTarget jsonb other db deviceId) ∧
  (∀ order other key, key ∈ resolveDeviceAllowedKeys jsonb order db deviceId ↔
    key ∈ resolveDeviceAllowedKeys jsonb other db deviceId) ∧
  ∀ order other target, resolveOtaTarget jsonb order db deviceId = some target →
    target.storageKey ∈ resolveDeviceAllowedKeys jsonb other db deviceId

theorem independent_iff (jsonb : Containment Selector) (db : Database Selector Manifest)
    (deviceId : String) :
    Independent jsonb db deviceId ↔
      db.TargetsAgree jsonb deviceId ∧ db.KeysAgree jsonb deviceId := by
  rw [← targets_independent_iff, ← keys_independent_iff]
  constructor
  · rintro ⟨targets, keys, -⟩
    exact ⟨targets, fun order other key => (keys order other key).mp⟩
  · rintro ⟨targets, keys⟩
    refine ⟨targets, fun order other key => ⟨keys order other key, keys other order key⟩, ?_⟩
    intro order other target found
    exact keys order other _ (target_allowed found)

/-- Two variants of one release, made in one transaction, with an app each. -/
def twinDatabase : Database (List String) Unit where
  artifacts :=
    [{ id := "art_1", typeKey := "firmware", storageMode := .blob, sha256 := some "aa"
       sizeBytes := some 1, storageKey := some "cas/aa", registry := none, coordinate := none
       refVersion := none, digest := none },
     { id := "art_2", typeKey := "firmware", storageMode := .blob, sha256 := some "bb"
       sizeBytes := some 1, storageKey := some "cas/bb", registry := none, coordinate := none
       refVersion := none, digest := none }]
  releases :=
    [{ id := "rel_1", typeKey := "firmware", name := "kit", version := "1.0", channel := "stable"
       status := "ready" }]
  variants :=
    [{ id := "var_1", releaseId := "rel_1", selector := ["esp32"], selectorHash := "h1"
       name := none, manifest := none, status := "ready", createdAt := 7 },
     { id := "var_2", releaseId := "rel_1", selector := ["esp32s3"], selectorHash := "h2"
       name := none, manifest := none, status := "ready", createdAt := 7 }]
  variantArtifacts :=
    [{ id := "vart_1", variantId := "var_1", artifactId := "art_1", role := "app", offset := none
       path := none },
     { id := "vart_2", variantId := "var_2", artifactId := "art_2", role := "app", offset := none
       path := none }]
  heads :=
    [{ id := "head_1", typeKey := "firmware", name := "kit", channel := "stable"
       releaseId := "rel_1" }]
  tracks :=
    [{ id := "trk_1", profileId := "pro_1", typeKey := "firmware", releaseName := "kit"
       channel := some "stable", pinnedReleaseId := none, selector := none }]
  deviceProfiles := [{ deviceId := "device", profileId := "pro_1" }]
  release_id_unique := by decide
  head_unique := by decide

/-- A device is told of an update that it cannot fetch. -/
theorem twins_disagree :
    ¬ Independent ⟨fun whole part => part.all (· ∈ whole), []⟩ twinDatabase "device" := by
  intro independent
  let first : RowOrder (List String) Unit :=
    .preferring (fun _ => true) (fun _ _ => true) (fun _ => true)
  let second : RowOrder (List String) Unit :=
    .preferring (fun _ => true) (fun _ variant => variant.id = "var_2") (fun _ => true)
  let target : OtaTarget :=
    { storageKey := "cas/aa", sha256 := "aa", version := "1.0", releaseId := "rel_1"
      variantId := "var_1" }
  have allowed := independent.2.2 first second target (by decide)
  revert allowed
  decide

end HelixKit.Backend.ReleaseTargets
