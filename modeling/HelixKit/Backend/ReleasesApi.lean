/-
Purpose: The control plane of releases and builds: the tokens of CI and of builds, the request for a
  build, and the procedures of the releases API.
Trusted boundary: the hashes and what is drawn at random are parameters; requests passed their
  schemas; the time a token was last used is left out
-/
import HelixKit.Backend.ReleaseIngest

namespace HelixKit.Backend.ReleasesApi

open ReleaseSchema ReleaseAdapters ReleaseIngest
open HelixKit.Fallible HelixKit.Upsert

/-! ## The database -/

structure CiTokenScopes where
  typeKeys : Option (List String) := none
  names : Option (List String) := none
  canPublish : Option Bool := none
deriving Repr, DecidableEq

structure CiToken where
  id : String
  tokenPrefix : String
  tokenHash : String
  scopes : CiTokenScopes
  expiresAt : Option Nat := none
  revokedAt : Option Nat := none
deriving Repr, DecidableEq

def ciSecretPrefix : String := "cit_"

def buildSecretPrefix : String := "bcb_"

/-- The tokens, as `generateCiToken` mints them: no two have a hash, which is unique. -/
structure CiTokens where
  rows : List CiToken
  unique : (rows.map CiToken.tokenHash).Nodup
  minted : ∀ row ∈ rows, ciSecretPrefix.toList <+: row.tokenPrefix.toList

inductive BuildStatus where
  | queued
  | success
  | failed
deriving Repr, DecidableEq

/-- What is written of a build and not read again is left out. -/
structure Build where
  id : String
  typeKey : String
  ownerUserId : Option String
  status : BuildStatus
  configHash : String
  releaseId : Option String := none
  variantId : Option String := none
  callbackTokenHash : Option String
  callbackExpiresAt : Option Nat
deriving Repr, DecidableEq

structure Db where
  tables : Tables
  tokens : CiTokens
  builds : List Build := []

/-- The order in which a query returns its rows. -/
structure QueryOrder where
  order : List Build → List Build
  perm : ∀ rows, (order rows).Perm rows

/-- The hash functions. -/
structure Hashes (Config : Type) where
  hashToken : String → String
  selectorHashOf : Selector → String
  computeConfigHash : Adapter → Config → String

/-- What a call finds outside the database: the time, what it draws at random, the order of rows,
the storage, and the devices. -/
structure Surroundings where
  now : Nat
  randomHex : Nat → String
  buildHex : String
  secretHex : String
  rows : QueryOrder
  stored : String → Bool
  uploadUrl : String → String
  publishOta : String → Option String

def Surroundings.environment {Config : Type} (hashes : Hashes Config) (around : Surroundings) :
    Environment :=
  { selectorHashOf := hashes.selectorHashOf, randomHex := around.randomHex, now := around.now }

inductive ApiError where
  | unauthorized (message : String)
  | forbidden (message : String)
  | failed (message : String)
deriving Repr, DecidableEq

variable {Config : Type} (hashes : Hashes Config) (around : Surroundings)

/-! ## Tokens -/

def ciTokenPrefixLen : Nat := 12

def scopeAllows (allowed : Option (List String)) (value : String) : Bool :=
  match allowed with
  | none => true
  | some allowed => allowed.contains "*" || allowed.contains value

structure Requirement where
  typeKey : Option String := none
  name : Option String := none
  publish : Option Bool := none
deriving Repr, DecidableEq

/-- A secret that is there and not blank. -/
def nonBlank (secret : Option String) : Option String :=
  secret.filter fun secret => JsText.trim secret ≠ ""

def secretPrefix (secret : String) : String :=
  String.ofList (secret.toList.take ciTokenPrefixLen)

def CiToken.matches (row : CiToken) (tokenHash : String) (now : Nat) : Bool :=
  row.tokenHash = tokenHash && row.revokedAt.isNone && row.expiresAt.all (now < ·)

def findCiToken (tokens : CiTokens) (secret : String) : Option CiToken :=
  (tokens.rows.filter fun row => row.tokenPrefix = secretPrefix secret).find?
    fun row => row.matches (hashes.hashToken secret) around.now

def verifyCiToken (tokens : CiTokens) (secret : Option String) (requirement : Requirement) :
    Except ApiError CiToken :=
  match nonBlank secret with
  | none => .error (.unauthorized "CI token is missing.")
  | some secret =>
    match findCiToken hashes around tokens secret with
    | none => .error (.unauthorized "CI token is invalid.")
    | some matched =>
      let scopes := matched.scopes
      if requirement.typeKey.any fun typeKey => !scopeAllows scopes.typeKeys typeKey then
        .error (.forbidden "CI token not scoped for this type.")
      else if requirement.name.any fun name => !scopeAllows scopes.names name then
        .error (.forbidden "CI token not scoped for this release.")
      else if requirement.publish = some true ∧ scopes.canPublish = some false then
        .error (.forbidden "CI token cannot publish.")
      else .ok matched

def generateBuildCallbackToken : String := buildSecretPrefix ++ around.secretHex

structure CallbackOwner where
  ownerUserId : Option String
  typeKey : String
deriving Repr, DecidableEq

def Build.acceptsCallback (row : Build) (secret : String) : Bool :=
  row.callbackTokenHash = some (hashes.hashToken secret) &&
    row.callbackExpiresAt.all (around.now < ·)

def verifyBuildCallback (builds : List Build) (buildId : String) (secret : Option String) :
    Except ApiError CallbackOwner :=
  match nonBlank secret with
  | none => .error (.unauthorized "Build callback token is missing.")
  | some secret =>
    match builds.find? fun row => row.id = buildId with
    | none => .error (.unauthorized "Build callback token is invalid.")
    | some row =>
      if row.acceptsCallback hashes around secret then
        .ok { ownerUserId := row.ownerUserId, typeKey := row.typeKey }
      else .error (.unauthorized "Build callback token is invalid.")

/-! ## Builds -/

def callbackTtlMs : Nat := 3600000

structure BuildRequestInput (Config : Type) where
  typeKey : String
  ownerUserId : String
  config : Config

inductive BuildRequestResult where
  | hit (buildId releaseId : String) (variantId : Option String)
  | queued (buildId callbackToken : String)
deriving Repr, DecidableEq

def queuedBuild (input : BuildRequestInput Config) (configHash : String) : Build :=
  { id := s!"bld_{around.buildHex}", typeKey := input.typeKey, ownerUserId := input.ownerUserId
    status := .queued, configHash
    callbackTokenHash := hashes.hashToken (generateBuildCallbackToken around)
    callbackExpiresAt := around.now + callbackTtlMs }

def insertBuild (builds : List Build) (row : Build) : Except String (List Build) :=
  if builds.any fun other => other.id = row.id then .error duplicateKey else .ok (builds ++ [row])

/-- The hash by which a request is looked up. -/
def configHashFor (types : List ArtifactType) (input : BuildRequestInput Config) :
    Except String String :=
  match types.find? fun type => type.key = input.typeKey with
  | none => .error s!"Unknown artifact type \"{input.typeKey}\"."
  | some type => do
      let adapter ← getAdapter type.adapterKey
      return hashes.computeConfigHash adapter input.config

/-- The first row that the lookup by the hash returns. -/
def firstWithHash (builds : List Build) (configHash : String) : Option Build :=
  (around.rows.order (builds.filter fun row => row.configHash = configHash)).head?

def requestBuild (db : Db) (input : BuildRequestInput Config) :
    Except String (BuildRequestResult × Db) := do
  let configHash ← configHashFor hashes db.tables.artifactTypes input
  let found := firstWithHash around db.builds configHash
  match found.bind fun hit => hit.releaseId.map fun releaseId => (hit, releaseId) with
  | some (hit, releaseId) => return (.hit hit.id releaseId hit.variantId, db)
  | none =>
    let row := queuedBuild hashes around input configHash
    let builds ← insertBuild db.builds row
    return (.queued row.id (generateBuildCallbackToken around), { db with builds })

/-! ## Releases as they are described -/

structure ArtifactRef where
  registry : String
  coordinate : String
  refVersion : String
  digest : String
deriving Repr, DecidableEq

structure ArtifactInput where
  role : String
  offset : Option String := none
  path : Option String := none
  sha256 : Option String := none
  sizeBytes : Option Nat := none
  ref : Option ArtifactRef := none
deriving Repr, DecidableEq

structure VariantInput where
  selector : SelectorInput
  name : Option String := none
  artifacts : List ArtifactInput
deriving Repr, DecidableEq

structure ReleaseDescriptor where
  typeKey : String
  name : String
  version : String
  channel : String
  publish : Option Bool := none
  variants : List VariantInput
deriving Repr, DecidableEq

def toIngestArtifact (input : ArtifactInput) : Except String IngestArtifact :=
  match input.ref with
  | some ref =>
    .ok (.ref input.role input.offset input.path ref.registry ref.coordinate ref.refVersion
      ref.digest)
  | none =>
    match input.sha256, input.sizeBytes with
    | some sha256, some sizeBytes =>
      .ok (.blob input.role input.offset input.path sha256 sizeBytes)
    | _, _ => .error s!"Blob artifact \"{input.role}\" requires sha256 and sizeBytes."

def toIngestVariant (input : VariantInput) : Except String IngestVariant := do
  let artifacts ← input.artifacts.mapM toIngestArtifact
  return { selector := input.selector, name := input.name, artifacts }

def toDescriptor (input : ReleaseDescriptor) (publish : Bool) :
    Except String IngestReleaseDescriptor := do
  let variants ← input.variants.mapM toIngestVariant
  return { typeKey := input.typeKey, name := input.name, version := input.version
           channel := input.channel, publish, variants }

/-- A description is read and ingested. -/
def ingest (tables : Tables) (input : ReleaseDescriptor) (publish : Bool) :
    Except String (IngestResult × Tables) := do
  let descriptor ← toDescriptor input publish
  ingestRelease (around.environment hashes) tables descriptor

/-! ## The callback of a build -/

structure BuildCompleteInput where
  buildId : String
  /-- Whether `status` is `failed`. -/
  failed : Bool := false
  release : Option ReleaseDescriptor := none
deriving Repr, DecidableEq

def failBuild (buildId : String) (row : Build) : Build :=
  if row.id = buildId then { row with status := .failed } else row

def finishBuild (buildId : String) (result : IngestResult) (row : Build) : Build :=
  if row.id = buildId then
    { row with
      status := .success, releaseId := some result.releaseId
      variantId := result.variantIds.head? }
  else row

/-- The release that a callback brings, if it says that the build has succeeded. -/
def BuildCompleteInput.built (input : BuildCompleteInput) : Option ReleaseDescriptor :=
  if input.failed then none else input.release

/-- The release of the build, if there is one. -/
def buildComplete (db : Db) (secret : Option String) (input : BuildCompleteInput) :
    Except ApiError (Option String × Db) := do
  let _ ← verifyBuildCallback hashes around db.builds input.buildId secret
  match input.built with
  | none => return (none, { db with builds := db.builds.map (failBuild input.buildId) })
  | some release =>
    let (result, tables) ← (ingest hashes around db.tables release true).mapError .failed
    return (some result.releaseId,
      { db with tables, builds := db.builds.map (finishBuild input.buildId result) })

/-! ## The procedures -/

structure Presigned where
  storageKey : String
  url : Option String
deriving Repr, DecidableEq

/-- A URL for an upload, unless the blob is there. -/
def presignBlob (stored : String → Bool) (uploadUrl : String → String) (sha256 : String) :
    Except String Presigned := do
  let storageKey ← joinCasKey sha256
  return { storageKey, url := if stored storageKey then none else some (uploadUrl storageKey) }

inductive Procedure (Config : Type) where
  | ciArtifactUploadUrl (typeKey sha256 : String)
  | ciRegisterRelease (input : ReleaseDescriptor)
  | buildsRequest (input : BuildRequestInput Config)
  | buildArtifactUrl (buildId sha256 : String)
  | buildComplete (input : BuildCompleteInput)
  | otaTrigger (deviceId : String)

inductive Answer where
  | presigned (request : Presigned)
  | ingested (result : IngestResult)
  | requested (result : BuildRequestResult)
  | completed (releaseId : Option String)
  | published (version : Option String)
deriving Repr, DecidableEq

def bearerPrefix : String := "Bearer "

def readBearer (authorization : Option String) : Option String :=
  let value := (authorization.getD "").toList
  let token :=
    if bearerPrefix.toList <+: value then JsText.trim (.ofList (value.drop bearerPrefix.length))
    else ""
  if token = "" then none else some token

/-- A call with the header `authorization`. A call that fails changes nothing. -/
def call (db : Db) (authorization : Option String) (procedure : Procedure Config) :
    Except ApiError (Answer × Db) :=
  let secret := readBearer authorization
  match procedure with
  | .ciArtifactUploadUrl typeKey sha256 => do
      let _ ← verifyCiToken hashes around db.tokens secret { typeKey }
      let request ← (presignBlob around.stored around.uploadUrl sha256).mapError .failed
      return (.presigned request, db)
  | .ciRegisterRelease input => do
      let publish := input.publish.getD false
      let _ ← verifyCiToken hashes around db.tokens secret
        { typeKey := input.typeKey, name := input.name, publish }
      let (result, tables) ← (ingest hashes around db.tables input publish).mapError .failed
      return (.ingested result, { db with tables })
  | .buildsRequest input => do
      let _ ← verifyCiToken hashes around db.tokens secret { typeKey := input.typeKey }
      let (result, db) ← (requestBuild hashes around db input).mapError .failed
      return (.requested result, db)
  | .buildArtifactUrl buildId sha256 => do
      let _ ← verifyBuildCallback hashes around db.builds buildId secret
      let request ← (presignBlob around.stored around.uploadUrl sha256).mapError .failed
      return (.presigned request, db)
  | .buildComplete input => do
      let (releaseId, db) ← buildComplete hashes around db secret input
      return (.completed releaseId, db)
  | .otaTrigger deviceId => do
      let _ ← verifyCiToken hashes around db.tokens secret {}
      return (.published (around.publishOta deviceId), db)

/-! ## What the calls do -/

variable {hashes} {around}

theorem mapError_eq_ok {α Failure Other : Type} {result : Except Failure α} {f : Failure → Other}
    {value : α} : result.mapError f = .ok value ↔ result = .ok value := by
  cases result <;> simp [Except.mapError]

/-- The first row with the hash is returned if it has a release; else a build is queued. -/
theorem requestBuild_cases {before after : Db} {input : BuildRequestInput Config}
    {result : BuildRequestResult}
    (returned : requestBuild hashes around before input = .ok (result, after)) :
    ∃ configHash, configHashFor hashes before.tables.artifactTypes input = .ok configHash ∧
      ((∃ hit releaseId, firstWithHash around before.builds configHash = some hit ∧
          hit.releaseId = some releaseId ∧ result = .hit hit.id releaseId hit.variantId ∧
          after = before) ∨
        ∃ builds, (∀ row ∈ firstWithHash around before.builds configHash, row.releaseId = none) ∧
          insertBuild before.builds (queuedBuild hashes around input configHash) = .ok builds ∧
          result = .queued (queuedBuild hashes around input configHash).id
            (generateBuildCallbackToken around) ∧
          after = { before with builds }) := by
  obtain ⟨configHash, hashed, returned⟩ := bind_eq_ok.mp returned
  refine ⟨configHash, hashed, ?_⟩
  dsimp only at returned
  split at returned
  next hit releaseId found =>
    obtain ⟨rfl, rfl⟩ := Prod.mk.inj (Except.ok.inj returned)
    obtain ⟨row, first, released⟩ := Option.bind_eq_some_iff.mp found
    obtain ⟨id, id_eq, same⟩ := Option.map_eq_some_iff.mp released
    obtain ⟨rfl, rfl⟩ := Prod.mk.inj same
    exact .inl ⟨row, id, first, id_eq, rfl, rfl⟩
  next missing =>
    obtain ⟨builds, inserted, same⟩ := bind_eq_ok.mp returned
    obtain ⟨rfl, rfl⟩ := Prod.mk.inj (Except.ok.inj same)
    refine .inr ⟨builds, fun row first => ?_, inserted, rfl, rfl⟩
    rw [Option.mem_def.mp first] at missing
    simpa using missing

/-- A callback that is accepted fails the build, or finishes it with the release that it brings. -/
theorem buildComplete_cases {before after : Db} {bearer : Option String}
    {input : BuildCompleteInput} {releaseId : Option String}
    (returned : buildComplete hashes around before bearer input = .ok (releaseId, after)) :
    (verifyBuildCallback hashes around before.builds input.buildId bearer).isOk = true ∧
      ((input.built = none ∧ releaseId = none ∧
          after = { before with builds := before.builds.map (failBuild input.buildId) }) ∨
        ∃ release result tables, input.built = some release ∧
          ingest hashes around before.tables release true = .ok (result, tables) ∧
          releaseId = some result.releaseId ∧
          after = { before with
            tables, builds := before.builds.map (finishBuild input.buildId result) }) := by
  obtain ⟨owner, verified, returned⟩ := bind_eq_ok.mp returned
  refine ⟨by rw [verified]; rfl, ?_⟩
  cases built : input.built with
  | none =>
    rw [built] at returned
    obtain ⟨rfl, rfl⟩ := Prod.mk.inj (Except.ok.inj returned)
    exact .inl ⟨rfl, rfl, rfl⟩
  | some release =>
    rw [built] at returned
    obtain ⟨⟨result, tables⟩, ingested, same⟩ := bind_eq_ok.mp returned
    obtain ⟨rfl, rfl⟩ := Prod.mk.inj (Except.ok.inj same)
    exact .inr ⟨release, result, tables, rfl, mapError_eq_ok.mp ingested, rfl, rfl⟩

/-- A callback that is accepted returns, unless its release is refused. -/
theorem buildComplete_returns {db : Db} {bearer : Option String} {input : BuildCompleteInput}
    (accepted : (verifyBuildCallback hashes around db.builds input.buildId bearer).isOk = true)
    (fits : ∀ release ∈ input.built, (ingest hashes around db.tables release true).isOk = true) :
    (buildComplete hashes around db bearer input).isOk = true := by
  unfold buildComplete
  cases verified : verifyBuildCallback hashes around db.builds input.buildId bearer with
  | error failure =>
    rw [verified] at accepted
    cases accepted
  | ok owner =>
    cases built : input.built with
    | none => rfl
    | some release =>
      have ingested := fits release built
      cases returned : ingest hashes around db.tables release true with
      | error failure =>
        rw [returned] at ingested
        cases ingested
      | ok result => simp [bind, Except.bind, returned, Except.mapError, pure, Except.pure]; rfl

/-! ## A sample of what is outside -/

def sampleHashes : Hashes Unit where
  hashToken secret := secret
  selectorHashOf _ := "selector"
  computeConfigHash _ _ := "config"

def sampleAround (hex : String) : Surroundings where
  now := 0
  randomHex n := toString n
  buildHex := hex
  secretHex := hex
  rows := ⟨id, fun _ => .refl _⟩
  stored _ := false
  uploadUrl key := key
  publishOta _ := none

end HelixKit.Backend.ReleasesApi
