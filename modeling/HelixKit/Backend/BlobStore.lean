/-
Purpose: The blobs of releases in the file system store: signed URLs for keys that are named by a
  hash, the uploads through them, and the releases that refer to the hashes.
Trusted boundary: SHA-256 is a parameter; no request is signed but by the store
Main exports: blobs_addressed
-/
import HelixKit.Backend.ReleasesApi
import HelixKit.Lib.Runs
import HelixKit.Lib.SharedTemp

namespace HelixKit.Backend.BlobStore

open ReleaseSchema ReleaseAdapters ReleaseIngest ReleasesApi
open HelixKit.Runs HelixKit.SharedTemp HelixKit.Fallible HelixKit.Upsert

/-! ## The store -/

/-- A signed request to put a key, until a second of the clock. -/
structure SignedUrl where
  key : String
  exp : Nat
deriving Repr, DecidableEq

def defaultSignedUrlExpirySeconds : Nat := 3600

def millisecondsInSecond : Nat := 1000

def maxUploadBytes : Nat := 64 * 1024 * 1024

/-- `createSignedRequest` for an upload. -/
def createSignedRequest (key : String) (now : Nat) : SignedUrl :=
  { key
    exp := (now + defaultSignedUrlExpirySeconds * millisecondsInSecond) / millisecondsInSecond }

/-- The state of the store and the database, with the URLs that were handed out and the hashes that
were reported to exist. -/
structure State where
  pool : Pool String UInt8 := {}
  urls : List SignedUrl := []
  tables : Tables
  reported : List String := []

def State.object (state : State) (key : String) : Option (List UInt8) := state.pool.disk.read key

def State.exists (state : State) (key : String) : Bool := (state.object key).isSome

/-- `verifyFsRequest`, for a request that the store has signed. -/
def verifyFsRequest (state : State) (url : SignedUrl) (now : Nat) : Bool :=
  state.urls.contains url && now ≤ url.exp * millisecondsInSecond

inductive Event where
  | presign (sha256 : String) (now : Nat)
  /-- The body of a request has arrived. -/
  | put (url : SignedUrl) (body : List UInt8) (now : Nat)
  /-- An upload writes up to `n` bytes more, or ends. -/
  | advance (i n : Nat)
  | abandon (i : Nat)
  | register (env : Environment) (descriptor : IngestReleaseDescriptor)

def State.accepts (state : State) (url : SignedUrl) (body : List UInt8) (now : Nat) : Bool :=
  verifyFsRequest state url now && body.length ≤ maxUploadBytes

def step (state : State) : Event → State
  | .presign sha256 now =>
    match presignBlob state.exists id sha256 with
    | .error _ => state
    | .ok { url := none, .. } => { state with reported := sha256 :: state.reported }
    | .ok { url := some key, .. } =>
      { state with urls := createSignedRequest key now :: state.urls }
  | .put url body now =>
    if state.accepts url body now then { state with pool := state.pool.start url.key body }
    else state
  | .advance i n => { state with pool := state.pool.advance 0 i n }
  | .abandon i => { state with pool := state.pool.abandon i }
  | .register env descriptor =>
    match ingestRelease env state.tables descriptor with
    | .error _ => state
    | .ok (_, tables) => { state with tables }

/-! ## What is promised -/

/-- A release that is published links to the blob of a hash. -/
def Published (tables : Tables) (sha256 : String) : Prop :=
  ∃ release ∈ tables.releases, release.status = "ready" ∧
    ∃ variant ∈ tables.variants, variant.releaseId = release.id ∧
      ∃ link ∈ tables.links, link.variantId = variant.id ∧
        ∃ artifact ∈ tables.artifacts, artifact.id = link.artifactId ∧
          artifact.storageMode = .blob ∧ artifact.sha256 = some sha256

instance (tables : Tables) (sha256 : String) : Decidable (Published tables sha256) := by
  unfold Published
  infer_instance

/-- Somebody relies on the blob of a hash. -/
def Vouched (state : State) (sha256 : String) : Prop :=
  sha256 ∈ state.reported ∨ Published state.tables sha256

def casKey (sha256 : String) : String := s!"cas/{sha256}"

variable (sha256Of : List UInt8 → String)

/-- The object of each hash that is relied on has that hash, and what was relied on stays. -/
structure Right (state : State) (event : Event) : Prop where
  addressed : ∀ sha256, Vouched (step state event) sha256 →
    ∃ content, (step state event).object (casKey sha256) = some content ∧
      sha256Of content = sha256
  kept : ∀ sha256, Vouched state sha256 →
    (step state event).object (casKey sha256) = state.object (casKey sha256)

/-- The bytes are those that the key is for, and those that are there. -/
def BodyFits (state : State) (key : String) (body : List UInt8) : Prop :=
  key = casKey (sha256Of body) ∧ ∀ content ∈ state.object key, body = content

/-- The hash of the blob that an artifact is. -/
def blobOf : IngestArtifact → Option String
  | .blob _ _ _ sha256 _ => some sha256
  | .ref _ _ _ _ _ _ _ => none

/-- Uploads that are accepted bring the bytes of their key, one at a time, and releases that are
registered name blobs that are stored. -/
def Fits (state : State) : Event → Prop
  | .put url body now =>
    state.accepts url body now = true →
      url.key ∉ state.pool.writers.map Writer.key ∧ BodyFits sha256Of state url.key body
  | .register env descriptor =>
    (ingestRelease env state.tables descriptor).isOk = true →
      ∀ variant ∈ descriptor.variants, ∀ input ∈ variant.artifacts, ∀ sha256 ∈ blobOf input,
        state.exists (casKey sha256) = true
  | _ => True

instance (state : State) (event : Event) : Decidable (Fits sha256Of state event) :=
  match event with
  | .put url body now => inferInstanceAs (Decidable (state.accepts url body now = true →
      url.key ∉ state.pool.writers.map Writer.key ∧
        url.key = casKey (sha256Of body) ∧ ∀ content ∈ state.object url.key, body = content))
  | .register env descriptor =>
    inferInstanceAs (Decidable ((ingestRelease env state.tables descriptor).isOk = true →
      ∀ variant ∈ descriptor.variants, ∀ input ∈ variant.artifacts, ∀ sha256 ∈ blobOf input,
        state.exists (casKey sha256) = true))
  | .presign _ _ | .advance _ _ | .abandon _ => .isTrue trivial

/-! ## The blobs of a release -/

variable {env : Environment} {tables tables' : Tables} {P : String → Prop}

/-- The blobs of the artifacts. -/
def Blobs (P : String → Prop) (artifacts : List Artifact) : Prop :=
  ∀ row ∈ artifacts, row.storageMode = .blob → ∀ sha256 ∈ row.sha256, P sha256

theorem upsertArtifact_blobs {typeKey id : String} {input : IngestArtifact}
    (blobs : Blobs P tables.artifacts) (named : ∀ sha256 ∈ blobOf input, P sha256)
    (returned : upsertArtifact env tables typeKey input = .ok (id, tables')) :
    Blobs P tables'.artifacts := by
  obtain ⟨⟨id, artifacts, drawn⟩, upserted, same⟩ := bind_eq_ok.mp returned
  obtain ⟨rfl, rfl⟩ := Prod.mk.inj (Except.ok.inj same)
  rcases upsert_cases upserted with ⟨row, -, -, rfl, -⟩ | ⟨-, row, made, -, rfl⟩
  · exact blobs
  · intro other inside blob sha256 hashed
    rcases List.mem_append.mp inside with old | new
    · exact blobs other old blob sha256 hashed
    · obtain rfl := List.mem_singleton.mp new
      cases input with
      | ref role offset path registry coordinate refVersion digest =>
        obtain rfl := Except.ok.inj made
        cases blob
      | blob role offset path digest sizeBytes =>
        obtain ⟨storageKey, -, same⟩ := bind_eq_ok.mp made
        obtain rfl := Except.ok.inj same
        exact named sha256 hashed

theorem ingestArtifacts_blobs {typeKey : String} {inputs : List IngestArtifact}
    {links : List Link} {artifacts : List AdapterArtifact} (blobs : Blobs P tables.artifacts)
    (named : ∀ input ∈ inputs, ∀ sha256 ∈ blobOf input, P sha256)
    (returned : ingestArtifacts env typeKey tables inputs = .ok (links, artifacts, tables')) :
    Blobs P tables'.artifacts := by
  induction inputs generalizing tables links artifacts with
  | nil =>
    obtain ⟨-, same⟩ := Prod.mk.inj (Except.ok.inj returned)
    obtain ⟨-, rfl⟩ := Prod.mk.inj same
    exact blobs
  | cons input rest ih =>
    obtain ⟨⟨id, between⟩, first, returned⟩ := bind_eq_ok.mp returned
    obtain ⟨artifact, -, returned⟩ := bind_eq_ok.mp returned
    obtain ⟨⟨links', artifacts', last⟩, others, same⟩ := bind_eq_ok.mp returned
    obtain ⟨-, same⟩ := Prod.mk.inj (Except.ok.inj same)
    obtain ⟨-, rfl⟩ := Prod.mk.inj same
    have now := upsertArtifact_blobs blobs (named input List.mem_cons_self) first
    exact ih now (fun other inside => named other (List.mem_cons_of_mem input inside)) others

theorem linkArtifacts_artifacts {variantId : String} {links : List Link}
    (returned : linkArtifacts env variantId tables links = .ok tables') :
    tables'.artifacts = tables.artifacts := by
  induction links generalizing tables with
  | nil => rw [Except.ok.inj returned]
  | cons link rest ih =>
    obtain ⟨between, first, others⟩ := bind_eq_ok.mp returned
    obtain ⟨⟨_, rows, drawn⟩, -, same⟩ := bind_eq_ok.mp first
    obtain rfl := Except.ok.inj same
    have later := ih others
    exact later

theorem ingestVariants_blobs {adapter : Adapter} {descriptor : IngestReleaseDescriptor}
    {releaseId : String} {inputs : List IngestVariant} {ids : List String}
    (blobs : Blobs P tables.artifacts)
    (named : ∀ variant ∈ inputs, ∀ input ∈ variant.artifacts,
      ∀ sha256 ∈ blobOf input, P sha256)
    (returned : ingestVariants env adapter descriptor releaseId tables inputs =
      .ok (ids, tables')) : Blobs P tables'.artifacts := by
  induction inputs generalizing tables ids with
  | nil =>
    obtain ⟨-, rfl⟩ := Prod.mk.inj (Except.ok.inj returned)
    exact blobs
  | cons input rest ih =>
    obtain ⟨⟨id, between⟩, first, returned⟩ := bind_eq_ok.mp returned
    obtain ⟨⟨ids', last⟩, others, same⟩ := bind_eq_ok.mp returned
    obtain ⟨-, rfl⟩ := Prod.mk.inj (Except.ok.inj same)
    obtain ⟨selector, links, artifacts, manifest, ingested, created, -, stored, -, upserted,
      linking⟩ := ingestVariant_parts first
    obtain ⟨⟨_, variants, drawn⟩, -, same⟩ := bind_eq_ok.mp upserted
    obtain ⟨rfl, rfl⟩ := Prod.mk.inj (Except.ok.inj same)
    have now := ingestArtifacts_blobs blobs (named input List.mem_cons_self) stored
    rw [← linkArtifacts_artifacts linking] at now
    exact ih now (fun other inside => named other (List.mem_cons_of_mem input inside)) others

/-- The blobs of a release that is registered are those that were there, and those it names. -/
theorem ingestRelease_blobs {descriptor : IngestReleaseDescriptor} {result : IngestResult}
    (blobs : Blobs P tables.artifacts)
    (named : ∀ variant ∈ descriptor.variants, ∀ input ∈ variant.artifacts,
      ∀ sha256 ∈ blobOf input, P sha256)
    (returned : ingestRelease env tables descriptor = .ok (result, tables')) :
    Blobs P tables'.artifacts := by
  obtain ⟨type, adapter, released, ingested, -, -, upserted, variants, published⟩ :=
    ingestRelease_parts returned
  obtain ⟨⟨_, releases, drawn⟩, -, same⟩ := bind_eq_ok.mp upserted
  obtain ⟨-, rfl⟩ := Prod.mk.inj (Except.ok.inj same)
  have now : Blobs P ingested.artifacts :=
    @ingestVariants_blobs env { tables with releases, drawn } ingested P adapter descriptor
      result.releaseId descriptor.variants result.variantIds blobs named variants
  split at published
  · obtain ⟨headId, heads, drawn, -, rfl⟩ := publishRelease_parts published
    exact now
  · rw [← published]
    exact now

/-! ## The invariant -/

structure Inv (state : State) : Prop where
  pool : state.pool.Sound
  objects : ∀ sha256, ∀ content ∈ state.object (casKey sha256), sha256Of content = sha256
  bodies : ∀ writer ∈ state.pool.writers, BodyFits sha256Of state writer.key writer.body
  reported : ∀ sha256 ∈ state.reported, state.exists (casKey sha256) = true
  blobs : Blobs (fun sha256 => state.exists (casKey sha256) = true) state.tables.artifacts

variable {sha256Of} {state after : State}

/-- Objects stay as they are. -/
def Kept (state after : State) : Prop :=
  ∀ key, ∀ content ∈ state.object key, state.object key = after.object key

theorem casKey_inj {sha256 other : String} (same : casKey sha256 = casKey other) :
    sha256 = other := by
  simpa [casKey, toString] using same

theorem Kept.exists (kept : Kept state after) {key : String} (there : state.exists key = true) :
    after.exists key = true := by
  obtain ⟨content, stored⟩ := Option.isSome_iff_exists.mp there
  unfold State.exists
  rw [← kept key content stored]
  exact there

/-- Whoever relies on a blob relies on one that is stored. -/
theorem Inv.vouched (inv : Inv sha256Of state) {sha256 : String} (vouched : Vouched state sha256) :
    state.exists (casKey sha256) = true := by
  rcases vouched with reported | published
  · exact inv.reported sha256 reported
  · obtain ⟨release, -, -, variant, -, -, link, -, -, artifact, member, -, blob, hashed⟩ :=
      published
    exact inv.blobs artifact member blob sha256 hashed

theorem right_of_inv {event : Event} (inv : Inv sha256Of state)
    (later : Inv sha256Of (step state event)) (kept : Kept state (step state event)) :
    Right sha256Of state event where
  addressed sha256 vouched := by
    obtain ⟨content, stored⟩ := Option.isSome_iff_exists.mp (later.vouched vouched)
    exact ⟨content, stored, later.objects sha256 content stored⟩
  kept sha256 vouched := by
    obtain ⟨content, stored⟩ := Option.isSome_iff_exists.mp (inv.vouched vouched)
    exact (kept _ content stored).symm

/-! ## Steps -/

variable {url : SignedUrl} {body : List UInt8}

theorem kept_refl (state : State) : Kept state state := fun _ _ _ => rfl

/-- What the pool of the store keeps, where nothing that can be read changes. -/
theorem Inv.withPool {pool : Pool String UInt8} (inv : Inv sha256Of state) (sound : pool.Sound)
    (same : ∀ key, pool.disk.read key = state.pool.disk.read key)
    (bodies : ∀ writer ∈ pool.writers, BodyFits sha256Of state writer.key writer.body) :
    Inv sha256Of { state with pool } ∧ Kept state { state with pool } := by
  have object : ∀ key, ({ state with pool } : State).object key = state.object key := same
  refine ⟨⟨sound, ?_, ?_, ?_, ?_⟩, fun key _ _ => (object key).symm⟩
  · intro sha256 content stored
    rw [object] at stored
    exact inv.objects sha256 content stored
  · intro writer member
    obtain ⟨key, there⟩ := bodies writer member
    refine ⟨key, fun content stored => ?_⟩
    rw [object] at stored
    exact there content stored
  · intro sha256 member
    rw [State.exists, object]
    exact inv.reported sha256 member
  · intro row member blob sha256 hashed
    rw [State.exists, object]
    exact inv.blobs row member blob sha256 hashed

/-- An upload replaces an object by its own bytes, which are those of the key. -/
theorem advance_inv (inv : Inv sha256Of state) (i n : Nat) :
    Inv sha256Of (step state (.advance i n)) ∧ Kept state (step state (.advance i n)) := by
  obtain ⟨sound, same | ⟨writer, member, replaced, others, left⟩⟩ :=
    @advance_spec _ _ 0 _ _ inv.pool i n
  · refine inv.withPool sound same fun writer inside => ?_
    obtain ⟨old, old_mem, key, body⟩ := advance_writers inside
    rw [← key, ← body]
    exact inv.bodies old old_mem
  · obtain ⟨key, there⟩ := inv.bodies writer member
    have kept : Kept state (step state (.advance i n)) := by
      intro other content stored
      by_cases here : other = writer.key
      · subst here
        have equal := there content stored
        rw [Option.mem_def.mp stored, ← equal]
        exact replaced.symm
      · exact (others other here).symm
    refine ⟨⟨sound, ?_, ?_, ?_, ?_⟩, kept⟩
    · intro sha256 content stored
      by_cases here : casKey sha256 = writer.key
      · have now : (step state (.advance i n)).object (casKey sha256) = some writer.body := by
          rw [here]
          exact replaced
        rw [now, Option.mem_def] at stored
        rw [← Option.some.inj stored]
        exact (casKey_inj (here.trans key)).symm
      · have before : content ∈ state.object (casKey sha256) := by
          rw [State.object, ← others _ here]
          exact stored
        exact inv.objects sha256 content before
    · intro other inside
      obtain ⟨old, old_mem, sameKey, sameBody⟩ := advance_writers inside
      obtain ⟨oldKey, oldThere⟩ := inv.bodies old old_mem
      rw [sameKey, sameBody] at oldKey oldThere
      refine ⟨oldKey, fun content stored => oldThere content ?_⟩
      rw [State.object, ← others _ (left other inside)]
      exact stored
    · exact fun sha256 inside => kept.exists (inv.reported sha256 inside)
    · intro row inside blob sha256 hashed
      exact kept.exists (inv.blobs row inside blob sha256 hashed)

/-- An upload starts. -/
theorem put_inv (inv : Inv sha256Of state) {now : Nat}
    (fits : Fits sha256Of state (.put url body now)) :
    Inv sha256Of (step state (.put url body now)) ∧
      Kept state (step state (.put url body now)) := by
  rw [step]
  split
  next accepted =>
    obtain ⟨idle, bodyFits⟩ := fits accepted
    obtain ⟨sound, same⟩ := start_spec inv.pool idle body
    refine inv.withPool sound same fun writer inside => ?_
    rcases List.mem_append.mp inside with old | new
    · exact inv.bodies writer old
    · rw [List.mem_singleton.mp new]
      exact bodyFits
  · exact ⟨inv, kept_refl state⟩

/-- A URL is handed out, or the blob is there. -/
theorem presign_inv (inv : Inv sha256Of state) (sha256 : String) (now : Nat) :
    Inv sha256Of (step state (.presign sha256 now)) ∧
      Kept state (step state (.presign sha256 now)) := by
  simp only [step]
  cases presigned : presignBlob state.exists id sha256 with
  | error failure => exact ⟨inv, kept_refl state⟩
  | ok request =>
    obtain ⟨storageKey, joined, same⟩ := bind_eq_ok.mp presigned
    obtain rfl := Except.ok.inj same
    have key : storageKey = casKey sha256 := by
      unfold joinCasKey at joined
      split at joined
      · exact (Except.ok.inj joined).symm
      · cases joined
    cases there : state.exists storageKey with
    | true =>
      simp only [if_true]
      refine ⟨⟨inv.pool, inv.objects, inv.bodies, ?_, inv.blobs⟩, kept_refl state⟩
      intro other inside
      rcases List.mem_cons.mp inside with rfl | old
      · exact key ▸ there
      · exact inv.reported other old
    | false =>
      simp only [Bool.false_eq_true, if_false]
      exact ⟨⟨inv.pool, inv.objects, inv.bodies, inv.reported, inv.blobs⟩, kept_refl state⟩

/-- A release is registered with blobs that are stored. -/
theorem register_inv (inv : Inv sha256Of state) {descriptor : IngestReleaseDescriptor}
    (fits : Fits sha256Of state (.register env descriptor)) :
    Inv sha256Of (step state (.register env descriptor)) ∧
      Kept state (step state (.register env descriptor)) := by
  simp only [step]
  cases ingested : ingestRelease env state.tables descriptor with
  | error failure => exact ⟨inv, kept_refl state⟩
  | ok returned =>
    obtain ⟨result, tables⟩ := returned
    have named := fits (by rw [ingested]; rfl)
    have blobs := ingestRelease_blobs inv.blobs named ingested
    exact ⟨⟨inv.pool, inv.objects, inv.bodies, inv.reported, blobs⟩, kept_refl state⟩

theorem step_inv (inv : Inv sha256Of state) (event : Event) (fits : Fits sha256Of state event) :
    Inv sha256Of (step state event) ∧ Kept state (step state event) := by
  cases event with
  | presign sha256 now => exact presign_inv inv sha256 now
  | put url body now => exact put_inv inv fits
  | advance i n => exact advance_inv inv i n
  | abandon i =>
    exact inv.withPool (abandon_spec inv.pool i) (fun _ => rfl) fun writer inside =>
      inv.bodies writer (List.mem_of_mem_eraseIdx inside)
  | register env descriptor => exact register_inv inv fits

/-- An empty store, and a database with its artifact types. -/
def initial (artifactTypes : List ArtifactType) : State := { tables := { artifactTypes } }

theorem inv_initial (artifactTypes : List ArtifactType) :
    Inv sha256Of (initial artifactTypes) where
  pool := sound_empty
  objects _ _ stored := by cases stored
  bodies _ member := by cases member
  reported _ member := by cases member
  blobs _ member := by cases member

/-- In a run whose uploads bring the bytes of their keys, one at a time, and whose releases name
blobs that are stored, every blob that is relied on has its hash, and stays. -/
theorem blobs_addressed (sha256Of : List UInt8 → String) (artifactTypes : List ArtifactType)
    (events : List Event)
    (fits : Along step (Fits sha256Of) (initial artifactTypes) events) :
    Along step (Right sha256Of) (initial artifactTypes) events := by
  refine fits.always (Inv sha256Of) ?_ ?_ (inv_initial artifactTypes)
  · exact fun state event inv now => (step_inv inv event now).1
  · intro state event inv now
    obtain ⟨later, kept⟩ := step_inv inv event now
    exact right_of_inv inv later kept

/-! ### Uploads that do not fit -/

/-- The hash of `abc`. -/
def abcHash : String := "ba7816bf8f01cfea414140de5dae2223b00361a396177a9cb410ff61f20015ad"

def abc : List UInt8 := [0x61, 0x62, 0x63]

/-- SHA-256 of the bodies that are uploaded here, and of no other. -/
def sampleSha256 (body : List UInt8) : String :=
  if body = [] then "e3b0c44298fc1c149afbf4c8996fb92427ae41e4649b934ca495991b7852b855"
  else if body = abc then abcHash
  else ""

def sampleTypes : List ArtifactType := [⟨"package", "helix-linux-package"⟩]

def sampleUrl : SignedUrl := createSignedRequest (casKey abcHash) 0

def sampleRegistration : Event :=
  .register { selectorHashOf := fun _ => "selector", randomHex := toString, now := 0 }
    { typeKey := "package", name := "app", version := "1", channel := "stable", publish := true
      variants := [{ selector := { arch := .text "arm64" }
                     artifacts := [.blob "deb" none none abcHash 3] }] }

/-- A blob that is uploaded, found, and released. -/
def goodEvents : List Event :=
  [.presign abcHash 0, .put sampleUrl abc 1, .advance 0 3, .advance 0 0, .presign abcHash 2,
    sampleRegistration]

theorem blobs_addressed_sample :
    Along step (Right sampleSha256) (initial sampleTypes) goodEvents :=
  blobs_addressed sampleSha256 sampleTypes goodEvents (by decide)

/-- An upload brings other bytes, and the blob is found. -/
def wrongBody : List Event :=
  [.presign abcHash 0, .put sampleUrl [] 1, .advance 0 0] ++ [.presign abcHash 2]

/-- One upload is renamed after another has emptied the temporary file, both of the right bytes. -/
def overlapping : List Event :=
  [.presign abcHash 0, .put sampleUrl abc 1, .advance 0 3, .put sampleUrl abc 2,
    .advance 0 0] ++ [.presign abcHash 3]

/-- A URL is used again after the blob was found. -/
def lateUpload : List Event :=
  [.presign abcHash 0, .put sampleUrl abc 1, .advance 0 3, .advance 0 0, .presign abcHash 2,
    .put sampleUrl [] 3] ++ [.advance 0 0]

/-- A release is published whose blob was never uploaded. -/
def neverUploaded : List Event := [] ++ [sampleRegistration]

theorem last_right {events : List Event} {event : Event}
    (along : Along step (Right sampleSha256) (initial sampleTypes) (events ++ [event])) :
    Right sampleSha256 (run step (initial sampleTypes) events) event :=
  (along_append.mp along).2.1

/-- A blob that is relied on has not its hash, or is not there. -/
theorem not_addressed {events : List Event}
    (member : events ∈ [wrongBody, overlapping, lateUpload, neverUploaded]) :
    ¬ Along step (Right sampleSha256) (initial sampleTypes) events := by
  intro along
  have vouched : ∀ events ∈ [wrongBody, overlapping, lateUpload, neverUploaded],
      abcHash ∈ (run step (initial sampleTypes) events).reported ∨
        Published (run step (initial sampleTypes) events).tables abcHash := by
    decide
  have objects : ∀ events ∈ [wrongBody, overlapping, lateUpload, neverUploaded],
      ∀ content ∈ (run step (initial sampleTypes) events).object (casKey abcHash),
        sampleSha256 content ≠ abcHash := by
    decide
  have relied := vouched events member
  have stored := objects events member
  simp only [List.mem_cons, List.not_mem_nil, or_false] at member
  rcases member with rfl | rfl | rfl | rfl
  all_goals
    obtain ⟨content, found, hashed⟩ := (last_right along).addressed abcHash relied
    exact stored content found hashed

theorem blobs_not_addressed :
    ¬ Along step (Right sampleSha256) (initial sampleTypes) wrongBody ∧
      ¬ Along step (Right sampleSha256) (initial sampleTypes) overlapping ∧
      ¬ Along step (Right sampleSha256) (initial sampleTypes) lateUpload ∧
      ¬ Along step (Right sampleSha256) (initial sampleTypes) neverUploaded :=
  ⟨not_addressed (.head _), not_addressed (.tail _ (.head _)),
    not_addressed (.tail _ (.tail _ (.head _))),
    not_addressed (.tail _ (.tail _ (.tail _ (.head _))))⟩

end HelixKit.Backend.BlobStore
