/-
Purpose: The selectors of the variants of a release, and the manifests that the adapters of the
  artifact types build for them.
Trusted boundary: integers stand for JavaScript numbers
-/
import HelixKit.Backend.JsText
import HelixKit.Backend.ReleaseSchema
import Mathlib.Data.List.Nodup

namespace HelixKit.Backend.ReleaseAdapters

open ReleaseSchema

/-! ## Selectors -/

/-- A property of a selector as it is given. -/
inductive Property where
  | absent
  | null
  | text (value : String)
  | other
deriving Repr, DecidableEq

/-- The properties of a selector that the adapters read. -/
structure SelectorInput where
  chip : Property := .absent
  flashSize : Property := .absent
  featureSet : Property := .absent
  arch : Property := .absent
  distro : Property := .absent
deriving Repr, DecidableEq

inductive Selector where
  | firmware (chip flashSize : String) (featureSet : Option String)
  | package (arch : String) (distro : Option String)
deriving Repr, DecidableEq

inductive Adapter where
  | esp32Firmware
  | linuxPackage
deriving Repr, DecidableEq

def Adapter.key : Adapter → String
  | .esp32Firmware => "esp32-firmware"
  | .linuxPackage => "helix-linux-package"

def getAdapter (adapterKey : String) : Except String Adapter :=
  match [Adapter.esp32Firmware, Adapter.linuxPackage].find? fun adapter => adapter.key = adapterKey
  with
  | some adapter => .ok adapter
  | none => .error s!"No artifact-type adapter registered for \"{adapterKey}\"."

def requireString (adapter : Adapter) (value : Property) (field : String) :
    Except String String :=
  let refused := s!"{adapter.key} selector requires \"{field}\"."
  match value with
  | .text value => if JsText.trim value = "" then .error refused else .ok (JsText.trim value)
  | _ => .error refused

def optionalString (adapter : Adapter) (value : Property) (field : String) :
    Except String (Option String) :=
  match value with
  | .absent | .null => .ok none
  | value => do return some (← requireString adapter value field)

/-- A property that is required unless it is undefined. -/
def definedString (adapter : Adapter) (value : Property) (field : String) :
    Except String (Option String) :=
  match value with
  | .absent => .ok none
  | value => do return some (← requireString adapter value field)

def Adapter.canonicalizeSelector (adapter : Adapter) (selector : SelectorInput) :
    Except String Selector :=
  match adapter with
  | .esp32Firmware => do
      let chip ← requireString adapter selector.chip "chip"
      let flashSize ← requireString adapter selector.flashSize "flashSize"
      let featureSet ← optionalString adapter selector.featureSet "featureSet"
      return .firmware chip flashSize featureSet
  | .linuxPackage => do
      let arch ← requireString adapter selector.arch "arch"
      let distro ← optionalString adapter selector.distro "distro"
      return .package arch distro

/-! ## Manifests -/

/-- A variant's artifact as the adapter sees it. -/
structure AdapterArtifact where
  role : String
  offset : Option String
  path : Option String
  storageMode : StorageMode
  sha256 : Option String
  sizeBytes : Option Nat
  storageKey : Option String
  registry : Option String
  coordinate : Option String
  refVersion : Option String
  digest : Option String
deriving Repr, DecidableEq

def hexDigit (c : Char) : Option Nat :=
  if '0' ≤ c ∧ c ≤ '9' then some (c.toNat - '0'.toNat)
  else if 'a' ≤ c ∧ c ≤ 'f' then some (c.toNat - 'a'.toNat + 10)
  else if 'A' ≤ c ∧ c ≤ 'F' then some (c.toNat - 'A'.toNat + 10)
  else none

/-- `Number.parseInt(text, 16)`, where `none` is NaN. -/
def parseIntHex (text : String) : Option Int :=
  let signed := text.toList.dropWhile JsText.isWhiteSpace
  let negative := signed.head? = some '-'
  let unsigned := if negative ∨ signed.head? = some '+' then signed.tail else signed
  let digits := if ['0', 'x'] <+: unsigned ∨ ['0', 'X'] <+: unsigned then unsigned.drop 2
    else unsigned
  match (digits.map hexDigit).takeWhile Option.isSome with
  | [] => none
  | values =>
    let number : Int := (values.reduceOption.foldl (fun value digit => 16 * value + digit) 0 : Nat)
    some (if negative then -number else number)

structure ManifestArtifact where
  id : String
  name : String
  offset : Option Int
  sha256 : String
  size : Nat
deriving Repr, DecidableEq

/-- The roles that flash to the device, in flash order. -/
def flashRoles : List String := ["bootloader", "partition-table", "ota-data", "app"]

/-- The entry of an artifact, if it has an offset and a digest. -/
def flashEntry (artifact : AdapterArtifact) : Option ManifestArtifact :=
  match artifact.offset, artifact.sha256 with
  | some offset, some sha256 =>
    some { id := artifact.role, name := s!"{artifact.role}.bin", offset := parseIntHex offset
           sha256, size := artifact.sizeBytes.getD 0 }
  | _, _ => none

def manifestArtifacts (artifacts : List AdapterArtifact) : List ManifestArtifact :=
  flashRoles.flatMap fun role =>
    match artifacts.find? fun candidate => candidate.role = role with
    | none => []
    | some artifact => (flashEntry artifact).toList

structure PackageEntry where
  role : String
  sha256 : String
  size : Nat
  path : Option String
deriving Repr, DecidableEq

def packageEntry (artifact : AdapterArtifact) : Option PackageEntry :=
  match artifact.storageMode, artifact.sha256 with
  | .blob, some sha256 =>
    some { role := artifact.role, sha256, size := artifact.sizeBytes.getD 0
           path := artifact.path }
  | _, _ => none

def packageEntries (artifacts : List AdapterArtifact) : List PackageEntry :=
  artifacts.filterMap packageEntry

inductive Manifest where
  | firmware (chip : String) (baudRate : Nat) (flashMode flashFreq flashSize version : String)
      (artifacts : List ManifestArtifact)
  | package (name version arch : String) (distro : Option String) (packages : List PackageEntry)
deriving Repr, DecidableEq

/-- `name`, `version` and `channel` are those of the release. -/
structure ManifestRelease where
  name : String
  version : String
  channel : String
deriving Repr, DecidableEq

def Selector.property (selector : Selector) (field : String) : Property :=
  match selector, field with
  | .firmware chip _ _, "chip" => .text chip
  | .firmware _ flashSize _, "flashSize" => .text flashSize
  | .package arch _, "arch" => .text arch
  | .package _ (some distro), "distro" => .text distro
  | _, _ => .absent

def Adapter.buildVariantManifest (adapter : Adapter) (release : ManifestRelease)
    (selector : Selector) (artifacts : List AdapterArtifact) : Except String Manifest :=
  match adapter with
  | .esp32Firmware => do
      let chip ← requireString adapter (selector.property "chip") "chip"
      let flashSize ← requireString adapter (selector.property "flashSize") "flashSize"
      return .firmware chip 460800 "dio" "80m" flashSize release.version
        (manifestArtifacts artifacts)
  | .linuxPackage => do
      let arch ← requireString adapter (selector.property "arch") "arch"
      let distro ← definedString adapter (selector.property "distro") "distro"
      return .package release.name release.version arch distro (packageEntries artifacts)

/-! ## What a manifest lists -/

/-- The entry of an artifact that is flashed. -/
def flashed (artifact : AdapterArtifact) : Option ManifestArtifact :=
  if artifact.role ∈ flashRoles then flashEntry artifact else none

inductive Entry where
  | flash (entry : ManifestArtifact)
  | package (entry : PackageEntry)
deriving Repr, DecidableEq

/-- The entry of an artifact in the manifests of an adapter, if they list it. -/
def Adapter.entry (adapter : Adapter) (artifact : AdapterArtifact) : Option Entry :=
  match adapter with
  | .esp32Firmware => (flashed artifact).map .flash
  | .linuxPackage => (packageEntry artifact).map .package

theorem entry_congr {adapter : Adapter} {a b : AdapterArtifact} (role : a.role = b.role)
    (offset : a.offset = b.offset) (path : a.path = b.path) (mode : a.storageMode = b.storageMode)
    (sha256 : a.sha256 = b.sha256) (size : a.sizeBytes = b.sizeBytes) :
    adapter.entry a = adapter.entry b := by
  cases adapter with
  | esp32Firmware => simp only [Adapter.entry, flashed, flashEntry, role, offset, sha256, size]
  | linuxPackage => simp only [Adapter.entry, packageEntry, role, path, mode, sha256, size]

def Manifest.adapter : Manifest → Adapter
  | .firmware _ _ _ _ _ _ _ => .esp32Firmware
  | .package _ _ _ _ _ => .linuxPackage

def Manifest.entries : Manifest → List Entry
  | .firmware _ _ _ _ _ _ entries => entries.map .flash
  | .package _ _ _ _ entries => entries.map .package

/-- The entries are those of the artifacts, one for each that the manifest can list. -/
def Manifest.ListsExactly (manifest : Manifest) (artifacts : List AdapterArtifact) : Prop :=
  manifest.entries.Perm (artifacts.filterMap manifest.adapter.entry)

/-! ### One artifact a role -/

section

variable {Row : Type} (roleOf : Row → String)

/-- The first of each role, apart from the roles that are there already. -/
def newlyLinked : List String → List Row → List Row
  | _, [] => []
  | roles, row :: rest =>
    if roleOf row ∈ roles then newlyLinked roles rest
    else row :: newlyLinked (roleOf row :: roles) rest

variable {roleOf} {roles : List String} {rows : List Row}

theorem mem_newlyLinked {row : Row} :
    row ∈ newlyLinked roleOf roles rows ↔
      roleOf row ∉ roles ∧ rows.find? (fun other => roleOf other = roleOf row) = some row := by
  induction rows generalizing roles with
  | nil => simp [newlyLinked]
  | cons first rest ih =>
    by_cases same : roleOf first = roleOf row
    · rw [List.find?_cons_of_pos (by simpa using same), Option.some_inj]
      by_cases there : roleOf first ∈ roles
      · rw [newlyLinked, if_pos there, ih]
        constructor
        · rintro ⟨absent, -⟩
          exact absurd (same ▸ there) absent
        · rintro ⟨absent, -⟩
          exact absurd (same ▸ there) absent
      · rw [newlyLinked, if_neg there, List.mem_cons, ih]
        constructor
        · rintro (rfl | ⟨absent, -⟩)
          · exact ⟨there, rfl⟩
          · exact absurd (by rw [same]; exact List.mem_cons_self) absent
        · rintro ⟨-, rfl⟩
          exact .inl rfl
    · rw [List.find?_cons_of_neg (by simpa using same)]
      have other : row ≠ first := fun equal => same (by rw [equal])
      by_cases there : roleOf first ∈ roles
      · rw [newlyLinked, if_pos there, ih]
      · rw [newlyLinked, if_neg there, List.mem_cons, ih]
        simp [other, Ne.symm same]

theorem newlyLinked_roles (roleOf : Row → String) (roles : List String) (rows : List Row) :
    ((newlyLinked roleOf roles rows).map roleOf).Nodup := by
  induction rows generalizing roles with
  | nil => exact List.nodup_nil
  | cons first rest ih =>
    unfold newlyLinked
    split
    · exact ih roles
    · rw [List.map_cons, List.nodup_cons]
      refine ⟨?_, ih _⟩
      intro member
      obtain ⟨row, row_mem, same⟩ := List.mem_map.mp member
      exact (mem_newlyLinked.mp row_mem).1 (by rw [same]; exact List.mem_cons_self)

end

theorem flashEntry_id {artifact : AdapterArtifact} {entry : ManifestArtifact}
    (made : flashEntry artifact = some entry) : entry.id = artifact.role := by
  unfold flashEntry at made
  split at made
  · rw [← Option.some.inj made]
  · cases made

theorem mem_manifestArtifacts {artifacts : List AdapterArtifact} {entry : ManifestArtifact} :
    entry ∈ manifestArtifacts artifacts ↔
      ∃ artifact ∈ newlyLinked AdapterArtifact.role [] artifacts, flashed artifact = some entry := by
  simp only [manifestArtifacts, List.mem_flatMap, mem_newlyLinked, List.not_mem_nil,
    not_false_eq_true, true_and]
  constructor
  · rintro ⟨role, role_mem, entry_mem⟩
    cases found : artifacts.find? fun candidate => candidate.role = role with
    | none => simp [found] at entry_mem
    | some artifact =>
      have named : artifact.role = role := by simpa using List.find?_some found
      rw [← named] at found role_mem
      have made : flashEntry artifact = some entry := by
        rw [named] at found
        simpa [found] using entry_mem
      exact ⟨artifact, found, by rw [flashed, if_pos role_mem, made]⟩
  · rintro ⟨artifact, found, listed⟩
    unfold flashed at listed
    split at listed
    next role_mem =>
      exact ⟨artifact.role, role_mem, by simp [found, listed]⟩
    · cases listed

theorem manifestArtifacts_nodup (artifacts : List AdapterArtifact) :
    (manifestArtifacts artifacts).Nodup := by
  have made : ∀ role, ∀ entry ∈ (match artifacts.find? fun candidate => candidate.role = role with
      | none => []
      | some artifact => (flashEntry artifact).toList), entry.id = role := by
    intro role entry entry_mem
    cases found : artifacts.find? fun candidate => candidate.role = role with
    | none => simp [found] at entry_mem
    | some artifact =>
      have named : artifact.role = role := by simpa using List.find?_some found
      rw [flashEntry_id (by simpa [found] using entry_mem), named]
  rw [manifestArtifacts, List.nodup_flatMap]
  constructor
  · intro role _
    cases artifacts.find? fun candidate => candidate.role = role with
    | none => exact List.nodup_nil
    | some artifact => cases made : flashEntry artifact <;> simp [made]
  · apply List.Pairwise.imp_of_mem (R := (· ≠ ·)) _ (by decide : flashRoles.Nodup)
    intro role other _ _ different entry entry_mem other_mem
    exact different ((made role entry entry_mem).symm.trans (made other entry other_mem))

/-- The manifest of a variant lists the first artifact of each flash role. -/
theorem manifestArtifacts_perm (artifacts : List AdapterArtifact) :
    (manifestArtifacts artifacts).Perm
      ((newlyLinked AdapterArtifact.role [] artifacts).filterMap flashed) := by
  apply (List.perm_ext_iff_of_nodup (manifestArtifacts_nodup artifacts) ?_).mpr
  · intro entry
    rw [mem_manifestArtifacts, List.mem_filterMap]
  · have distinct := newlyLinked_roles AdapterArtifact.role [] artifacts
    generalize newlyLinked AdapterArtifact.role [] artifacts = rows at distinct
    apply List.Nodup.of_map ManifestArtifact.id
    refine List.Nodup.sublist ?_ distinct
    clear distinct
    induction rows with
    | nil => exact List.Sublist.refl []
    | cons row rest ih =>
      cases listed : flashed row with
      | none =>
        rw [List.filterMap_cons_none listed]
        exact ih.cons _
      | some entry =>
        have named : entry.id = row.role := by
          unfold flashed at listed
          split at listed
          · exact flashEntry_id listed
          · cases listed
        rw [List.filterMap_cons_some listed, List.map_cons, named]
        exact ih.cons_cons _

end HelixKit.Backend.ReleaseAdapters
