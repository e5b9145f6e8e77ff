/-
Purpose: What an installation that fails leaves behind: before the payload nothing outside its
  own directory, and after it a half-installed entry that is to list every file of the package.
Trusted boundary: what the maintainer scripts and the setup command do themselves is left out
Main exports: fails_cleanly_iff
-/
import HelixKit.Pkg.Containment
import HelixKit.Pkg.Extraction

namespace HelixKit.Pkg

variable {host : Host}

/-! ## The property -/

/-- The device, with nothing recorded of who wrote its files. -/
def Device.unwritten (device : Device) : Device :=
  { device with disk := { device.disk with written := fun _ => none } }

/-- An installation of the package that failed before the payload has left the database, the
catalog and the files as they were, and extracted no script below the root but into its own
directory. -/
structure Untouched (host : Host) (request : InstallRequest) (before after : Device) : Prop where
  db : after.db = before.db
  catalog : after.catalog = before.catalog
  files : after.disk.files = before.disk.files
  scripts : ∀ m, checkPackage request before.db = .ok m →
    ∀ script ∈ (extractMaintainerScripts request m).1, host.Contains script.1 →
      insideDir request.tempDir script.1 = true

/-- The package is half-installed, and its entry lists every file that was written since nothing was
recorded, and every file of the version before that is still there. -/
def Recorded (host : Host) (name : String) (before after : Device) : Prop :=
  ∃ e, after.db.get name = some e ∧ e.status = .halfInstalled ∧
    (∀ path, after.disk.holds name path → ∃ f ∈ e.files, host.rootJoin f = path) ∧
    ∀ old, before.db.get name = some old → ∀ f ∈ old.files,
      (after.disk.files (host.rootJoin f)).isSome = true →
        ∃ g ∈ e.files, host.rootJoin g = host.rootJoin f

/-- An installation that fails before the payload touches nothing, and one that fails later, with a
database that can be saved, is recorded. -/
def FailsCleanly (host : Host) (request : InstallRequest) (device : Device) : Prop :=
  let result := install host request device.unwritten
  result.2 ≠ none →
    ((∀ m, ¬ Begins request device.unwritten m) →
      Untouched host request device.unwritten result.1) ∧
    ∀ m, Begins request device.unwritten m → request.faults.saveDB = none →
      Recorded host m.name device.unwritten result.1

/-! ## The condition -/

/-- The files of the payload that the installation gets through. -/
def extracted (host : Host) (request : InstallRequest) (m : Manifest) (device : Device) :
    List String :=
  if request.faults.payload.isSome then []
  else
    extractedFrom host m (device.db.get m.name) request.faults.entry 0 request.archive.entries
      { disk := device.disk }

/-- The condition holds at every entry that the installation gets to. -/
def AtEntries (host : Host) (request : InstallRequest) (m : Manifest) (device : Device)
    (Condition : EntryFaults → TarEntry → Extraction → Prop) : Prop :=
  request.faults.payload = none →
    AtEach host m (device.db.get m.name) request.faults.entry Condition 0 request.archive.entries
      { disk := device.disk }

/-- The hooks whose scripts the extraction opens, from the entry number `i` on. -/
def openedFrom (dir : String) (m : Manifest) (faults : Nat → ScriptFaults) :
    Nat → List TarEntry → List String
  | _, [] => []
  | i, entry :: rest =>
    match (faults i).read, if entry.type = .regular then m.hookOf entry.name else none with
    | some _, _ => []
    | none, none => openedFrom dir m faults (i + 1) rest
    | none, some hook =>
      match certainFault dir (join dir hook), (faults i).write with
      | some _, _ | none, some (none, _) => []
      | none, some (some _, _) => [hook]
      | none, none => hook :: openedFrom dir m faults (i + 1) rest

/-- What an installation has to be for its failure to be recorded.  Where it has not come to the
payload, no hook whose script was opened climbs out of its directory below the root.  Where it has,
the failure is not the catalog's; every file that an entry leaves unlisted is one that the payload
lists itself; and so is every file of the version before that was there, and that is not where an
entry puts its temporary file. -/
structure Recoverable (host : Host) (request : InstallRequest) (device : Device) : Prop where
  scripts : (∀ m, ¬ Begins request device m) → ∀ m, checkPackage request device.db = .ok m →
    ∀ hook ∈ openedFrom request.tempDir m request.faults.scriptEntry 0 request.archive.entries,
      host.Contains (join request.tempDir hook) →
        insideDir request.tempDir (join request.tempDir hook) = true
  catalog : ∀ m, Begins request device m → request.faults.saveDB = none →
    (unpack host request m device).2.2 = none → request.faults.saveCatalog = none
  leaves : ∀ m, Begins request device m → request.faults.saveDB = none →
    (unpack host request m device).2.2 ≠ none →
      AtEntries host request m device fun faults entry x =>
        ∀ path, entryLeaves host m (device.db.get m.name) faults entry x = some path →
          ∃ f ∈ extracted host request m device, host.rootJoin f = path
  previous : ∀ m, Begins request device m → request.faults.saveDB = none →
    (unpack host request m device).2.2 ≠ none →
      ∀ old, device.db.get m.name = some old → ∀ f ∈ old.files,
        (device.disk.files (host.rootJoin f)).isSome = true →
          (AtEntries host request m device fun faults entry x =>
            entryTmp host m (device.db.get m.name) faults entry x ≠ some (host.rootJoin f)) →
          ∃ g ∈ extracted host request m device, host.rootJoin g = host.rootJoin f

/-! ## The payload -/

section Payload

variable {request : InstallRequest} {m : Manifest} {device : Device}

theorem payload_listed (host : Host) (request : InstallRequest) (m : Manifest) (device : Device) :
    (extractPayload host request m device).1.files = extracted host request m device := by
  unfold extractPayload extracted
  cases request.faults.payload with
  | some cause => rfl
  | none => exact (extractFrom_listed _ 0 _).trans (List.nil_append _)

/-- The payload lists every file that it wrote, when it lists those that its entries left. -/
theorem payload_held (fresh : ∀ path, ¬ device.disk.holds m.name path) :
    (∀ path, (extractPayload host request m device).1.disk.holds m.name path →
        ∃ f ∈ extracted host request m device, host.rootJoin f = path) ↔
      AtEntries host request m device fun faults entry x =>
        ∀ path, entryLeaves host m (device.db.get m.name) faults entry x = some path →
          ∃ f ∈ extracted host request m device, host.rootJoin f = path := by
  cases opened : request.faults.payload with
  | some cause =>
    refine ⟨fun _ unopened => absurd unopened (by simp [opened]), fun _ path held => ?_⟩
    simp only [extractPayload, opened] at held
    exact absurd held (fresh path)
  | none =>
    constructor
    · intro all _
      refine extractFrom_leaves _ _ _ fun path held => all path ?_
      simpa only [extractPayload, opened] using held
    · intro left path held
      simp only [extractPayload, opened] at held
      refine extractFrom_held (L := fun path => ∃ f ∈ extracted host request m device,
        host.rootJoin f = path) _ _ _ (left opened) (fun f member => ⟨f, ?_, rfl⟩)
        (fun path held => absurd held (fresh path)) path held
      simpa [extracted, opened] using member

theorem payload_present {path : String} (there : (device.disk.files path).isSome = true)
    (apart : AtEntries host request m device fun faults entry x =>
      entryTmp host m (device.db.get m.name) faults entry x ≠ some path) :
    ((extractPayload host request m device).1.disk.files path).isSome = true := by
  unfold extractPayload
  cases opened : request.faults.payload with
  | some cause => exact there
  | none => exact extractFrom_present _ _ _ (apart opened) there

theorem present_of_payload {path : String}
    (there : ((extractPayload host request m device).1.disk.files path).isSome = true) :
    (extractPayload host request m device).1.disk.holds m.name path ∨
      (device.disk.files path).isSome = true ∧
        AtEntries host request m device fun faults entry x =>
          entryTmp host m (device.db.get m.name) faults entry x ≠ some path := by
  unfold extractPayload at there ⊢
  unfold AtEntries
  cases opened : request.faults.payload with
  | some cause =>
    rw [opened] at there
    exact .inr ⟨there, fun no => by cases no⟩
  | none =>
    rw [opened] at there
    rcases present_of_extractFrom _ _ _ there with held | ⟨before, apart⟩
    · exact .inl held
    · exact .inr ⟨before, fun _ => apart⟩

end Payload

/-! ## The scripts -/

theorem extractScripts_opened (dir : String) (m : Manifest) (faults : Nat → ScriptFaults)
    (entries : List TarEntry) (i : Nat) (scripts : Scripts) :
    (extractScriptsFrom dir m faults i entries scripts).1.map Prod.fst =
      scripts.map Prod.fst ++ (openedFrom dir m faults i entries).map (join dir) := by
  induction entries generalizing i scripts with
  | nil => simp [extractScriptsFrom, openedFrom]
  | cons entry rest ih =>
    unfold extractScriptsFrom openedFrom
    cases (faults i).read with
    | some cause => simp
    | none =>
      cases if entry.type = .regular then m.hookOf entry.name else none with
      | none => exact ih (i + 1) scripts
      | some hook =>
        dsimp only
        rcases certainFault dir (join dir hook) with _ | cause
        · rcases (faults i).write with _ | ⟨_ | part, cause⟩
          · simp [ih]
          · simp
          · simp
        · simp

theorem openedFrom_nil {m : Manifest} (scriptless : m.maintainerScripts = []) (dir : String)
    (faults : Nat → ScriptFaults) (entries : List TarEntry) (i : Nat) :
    openedFrom dir m faults i entries = [] := by
  induction entries generalizing i with
  | nil => rfl
  | cons entry rest ih =>
    have hookless : (if entry.type = .regular then m.hookOf entry.name else none) = none := by
      simp [Manifest.hookOf, scriptless]
    unfold openedFrom
    rw [hookless]
    cases (faults i).read with
    | some cause => rfl
    | none => exact ih (i + 1)

/-- The scripts are extracted to where the hooks of those that are opened put them. -/
theorem extractMaintainerScripts_opened (request : InstallRequest) (m : Manifest) :
    (extractMaintainerScripts request m).1.map Prod.fst =
      (openedFrom request.tempDir m request.faults.scriptEntry 0 request.archive.entries).map
        (join request.tempDir) := by
  unfold extractMaintainerScripts
  split
  next scriptless =>
    rw [openedFrom_nil scriptless]
    rfl
  · exact extractScripts_opened _ _ _ _ _ _

theorem extractMaintainerScripts_forall (request : InstallRequest) (m : Manifest)
    {P : String → Prop} :
    (∀ script ∈ (extractMaintainerScripts request m).1, P script.1) ↔
      ∀ hook ∈ openedFrom request.tempDir m request.faults.scriptEntry 0 request.archive.entries,
        P (join request.tempDir hook) := by
  have paths := extractMaintainerScripts_opened request m
  have first : (∀ script ∈ (extractMaintainerScripts request m).1, P script.1) ↔
      ∀ path ∈ (extractMaintainerScripts request m).1.map Prod.fst, P path :=
    List.forall_mem_map.symm
  rw [first, paths, List.forall_mem_map]

/-! ## What an installation that fails leaves -/

section Install

variable {request : InstallRequest} {m : Manifest} {device : Device}

/-- An installation that does not come to the payload fails, and changes nothing. -/
theorem install_refused (host : Host) (refused : ∀ m, ¬ Begins request device m) :
    (install host request device).2 ≠ none ∧ (install host request device).1.db = device.db ∧
      (install host request device).1.catalog = device.catalog := by
  unfold install
  cases checked : checkPackage request device.db with
  | error failure => simp
  | ok m =>
    dsimp only [installChecked]
    rcases prepared : prepare request m device with ⟨ran, _ | failure⟩
    · exact absurd ⟨checked, by rw [prepared]⟩ (refused m)
    · simp

/-- An installation that comes to the payload and can save the database records the package as
half-installed when it fails before that, and as installed otherwise. -/
theorem install_saved (host : Host) (begun : Begins request device m)
    (saved : request.faults.saveDB = none) :
    ((unpack host request m device).2.2 ≠ none ∧ (install host request device).2 ≠ none ∧
        (install host request device).1.db =
          device.db.put (halfInstalled request m (extracted host request m device))) ∨
      ((unpack host request m device).2.2 = none ∧
        ((install host request device).2 = none ↔ request.faults.saveCatalog = none) ∧
        (install host request device).1.db =
          device.db.put (configured request m (extractPayload host request m device).1)) := by
  rw [← payload_listed]
  have extraction := unpack_extraction host request m device
  have prepared := begun.prepared
  unfold install
  rw [begun.checked]
  dsimp only [installChecked]
  rcases ran : prepare request m device with ⟨ran, _ | failure⟩
  · rcases unpacked : unpack host request m device with ⟨x, more, _ | failure⟩
    · right
      rw [unpacked] at extraction
      dsimp only at extraction ⊢
      rw [saved, ← extraction]
      cases request.faults.saveCatalog <;> simp [publish]
    · left
      rw [unpacked] at extraction
      dsimp only at extraction ⊢
      rw [saved, ← extraction]
      simp [saveDB]
  · rw [ran] at prepared
    cases prepared

/-- What is left when the payload or what comes after it fails is recorded when every file that was
written, and every file of the version before that is still there, is listed. -/
theorem recorded_iff (begun : Begins request device m) (saved : request.faults.saveDB = none)
    (failed : (unpack host request m device).2.2 ≠ none) :
    Recorded host m.name device (install host request device).1 ↔
      (∀ path, (extractPayload host request m device).1.disk.holds m.name path →
        ∃ f ∈ extracted host request m device, host.rootJoin f = path) ∧
      ∀ old, device.db.get m.name = some old → ∀ f ∈ old.files,
        ((extractPayload host request m device).1.disk.files (host.rootJoin f)).isSome = true →
          ∃ g ∈ extracted host request m device, host.rootJoin g = host.rootJoin f := by
  have disk : (install host request device).1.disk =
      (extractPayload host request m device).1.disk := install_disk begun
  rcases install_saved host begun saved with ⟨-, -, db⟩ | ⟨unpacked, -⟩
  · have entry : (install host request device).1.db.get m.name =
        some (halfInstalled request m (extracted host request m device)) := by
      rw [db]
      exact DB.get_put_self _ _
    unfold Recorded
    rw [entry, disk]
    constructor
    · rintro ⟨e, same, -, held, previous⟩
      obtain rfl := Option.some.inj same
      exact ⟨held, previous⟩
    · rintro ⟨held, previous⟩
      exact ⟨_, rfl, rfl, held, previous⟩
  · exact absurd unpacked failed

theorem recorded_iff_listed (fresh : ∀ path, ¬ device.disk.holds m.name path)
    (begun : Begins request device m) (saved : request.faults.saveDB = none)
    (failed : (unpack host request m device).2.2 ≠ none) :
    Recorded host m.name device (install host request device).1 ↔
      (AtEntries host request m device fun faults entry x =>
        ∀ path, entryLeaves host m (device.db.get m.name) faults entry x = some path →
          ∃ f ∈ extracted host request m device, host.rootJoin f = path) ∧
      ∀ old, device.db.get m.name = some old → ∀ f ∈ old.files,
        (device.disk.files (host.rootJoin f)).isSome = true →
          (AtEntries host request m device fun faults entry x =>
            entryTmp host m (device.db.get m.name) faults entry x ≠ some (host.rootJoin f)) →
          ∃ g ∈ extracted host request m device, host.rootJoin g = host.rootJoin f := by
  rw [recorded_iff begun saved failed]
  constructor
  · rintro ⟨held, previous⟩
    exact ⟨(payload_held fresh).mp held, fun old found f member there apart =>
      previous old found f member (payload_present there apart)⟩
  · rintro ⟨left, previous⟩
    have held := (payload_held fresh).mpr left
    refine ⟨held, fun old found f member there => ?_⟩
    rcases present_of_payload there with written | ⟨before, apart⟩
    · exact held _ written
    · exact previous old found f member before apart

theorem not_recorded_of_unpacked (begun : Begins request device m)
    (saved : request.faults.saveDB = none) (unpacked : (unpack host request m device).2.2 = none) :
    ¬ Recorded host m.name device (install host request device).1 := by
  rintro ⟨e, found, half, -⟩
  rcases install_saved host begun saved with ⟨failed, -⟩ | ⟨-, -, db⟩
  · exact failed unpacked
  · rw [db] at found
    have same : some (configured request m (extractPayload host request m device).1) = some e :=
      (DB.get_put_self _ _).symm.trans found
    rw [← Option.some.inj same] at half
    cases half

theorem refused_untouched_iff (refused : ∀ m, ¬ Begins request device m) :
    Untouched host request device (install host request device).1 ↔
      ∀ m, checkPackage request device.db = .ok m →
        ∀ hook ∈ openedFrom request.tempDir m request.faults.scriptEntry 0 request.archive.entries,
          host.Contains (join request.tempDir hook) →
            insideDir request.tempDir (join request.tempDir hook) = true := by
  have opened := fun m => extractMaintainerScripts_forall request m
    (P := fun path => host.Contains path → insideDir request.tempDir path = true)
  obtain ⟨-, db, catalog⟩ := install_refused host refused
  constructor
  · intro untouched m checked
    exact (opened m).mp (untouched.scripts m checked)
  · intro inside
    exact
      { db
        catalog
        files := by rw [refused_disk refused]
        scripts := fun m checked => (opened m).mpr (inside m checked) }

end Install

/-- Whether an installation that fails leaves the device as it was, or the package recorded with
what is left of it. -/
theorem fails_cleanly_iff (host : Host) (request : InstallRequest) (device : Device) :
    FailsCleanly host request device ↔ Recoverable host request device.unwritten := by
  have fresh : ∀ name path, ¬ device.unwritten.disk.holds name path := by
    rintro name path ⟨-, no⟩
    cases no
  unfold FailsCleanly
  generalize device.unwritten = start at fresh ⊢
  dsimp only
  by_cases begins : ∃ m, Begins request start m
  · obtain ⟨m, begun⟩ := begins
    have only : ∀ {P : Manifest → Prop}, (∀ m, Begins request start m → P m) ↔ P m :=
      ⟨fun all => all m begun, fun here m' begun' => begun.unique begun' ▸ here⟩
    have comes : ¬ ∀ m, ¬ Begins request start m := fun refused => refused m begun
    constructor
    · intro clean
      have recorded : request.faults.saveDB = none → (unpack host request m start).2.2 ≠ none →
          Recorded host m.name start (install host request start).1 := by
        intro saved failed
        rcases install_saved host begun saved with ⟨-, fails, -⟩ | ⟨unpacked, -⟩
        · exact (clean fails).2 m begun saved
        · exact absurd unpacked failed
      refine
        { scripts := fun refused => absurd refused comes
          catalog := only.mpr fun saved unpacked => ?_
          leaves := only.mpr fun saved failed =>
            ((recorded_iff_listed (fresh _) begun saved failed).mp (recorded saved failed)).1
          previous := only.mpr fun saved failed =>
            ((recorded_iff_listed (fresh _) begun saved failed).mp (recorded saved failed)).2 }
      rcases install_saved host begun saved with ⟨failed, -⟩ | ⟨-, catalogued, -⟩
      · exact absurd unpacked failed
      · rw [← catalogued]
        by_contra fails
        exact not_recorded_of_unpacked begun saved unpacked ((clean fails).2 m begun saved)
    · intro recoverable fails
      refine ⟨fun refused => absurd refused comes, only.mpr fun saved => ?_⟩
      rcases install_saved host begun saved with ⟨failed, -⟩ | ⟨unpacked, catalogued, -⟩
      · exact (recorded_iff_listed (fresh _) begun saved failed).mpr
          ⟨recoverable.leaves m begun saved failed, recoverable.previous m begun saved failed⟩
      · exact absurd (catalogued.mpr (recoverable.catalog m begun saved unpacked)) fails
  · have refused : ∀ m, ¬ Begins request start m := fun m begun => begins ⟨m, begun⟩
    have fails := (install_refused host refused).1
    constructor
    · intro clean
      exact ⟨fun _ => (refused_untouched_iff refused).mp ((clean fails).1 refused),
        fun m begun => absurd begun (refused m), fun m begun => absurd begun (refused m),
        fun m begun => absurd begun (refused m)⟩
    · intro recoverable _
      exact ⟨fun _ => (refused_untouched_iff refused).mpr (recoverable.scripts refused),
        fun m begun => absurd begun (refused m)⟩

/-! ## An upgrade on a full disk -/

/-- A device with the first version of package `x`. -/
def upgradable : Device :=
  (install testHost { archive := xArchive "1.0.0" firstDefault } blank).1

/-- An upgrade of package `x` that cannot write its file. -/
def fullUpgrade : InstallRequest where
  archive := xArchive "2.0.0" secondDefault
  faults := { entry := fun _ => { write := some (.openTmp "no space left on device") } }

/-- The conffile of the first version is on the disk, and no entry lists it. -/
theorem upgrade_forgets_files : ¬ FailsCleanly testHost fullUpgrade upgradable := by
  intro clean
  have fails : (install testHost fullUpgrade upgradable.unwritten).2 ≠ none := by decide
  obtain ⟨e, found, -, -, previous⟩ := (clean fails).2 (xManifest "2.0.0")
    ⟨by decide, by decide⟩ rfl
  have lists : ((install testHost fullUpgrade upgradable.unwritten).1.db.get "x").map
      DBEntry.files = some [] := by decide
  have empty : e.files = [] := by
    have named : (xManifest "2.0.0").name = "x" := rfl
    rw [named] at found
    rw [found] at lists
    exact Option.some.inj lists
  have listed : (upgradable.unwritten.db.get "x").map DBEntry.files = some [xPath] := by
    decide
  obtain ⟨old, before, files⟩ := Option.map_eq_some_iff.mp listed
  obtain ⟨g, member, -⟩ := previous old before xPath (by simp [files]) (by decide)
  rw [empty] at member
  cases member

end HelixKit.Pkg
