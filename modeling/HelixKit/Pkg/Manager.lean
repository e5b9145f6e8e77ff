/-
Purpose: The package manager (`linux/device/go/internal/pkg/install.go`, `db.go`
  and `service.go`): the database, the service catalog, and `Install` and
  `Remove` with every point at which they can fail.
Trusted boundary: the maintainer scripts are beside the disk, wherever their hooks put them
-/
import HelixKit.Lib.Runs
import HelixKit.Pkg.Archive
import Mathlib.Data.List.AList
import Mathlib.Data.List.Sort

namespace HelixKit.Pkg

/-! ### The database -/

/-- The status of a database entry. -/
inductive Status where
  | installed
  | configFiles
  | halfInstalled
deriving DecidableEq, Repr

/-- The recorded hashes of a conffile. -/
structure ConffileState where
  path : String
  installedSHA : String
  defaultSHA : String
deriving DecidableEq, Repr

/-- The record of one package. -/
structure DBEntry where
  name : String
  version : String
  kind : Kind
  status : Status
  sha256 : String
  files : List String
  conffiles : List ConffileState
  service : Option ServiceDescriptor
  installedAt : String
deriving DecidableEq, Repr

abbrev DB : Type := AList fun _ : String => DBEntry

namespace DB

def get (db : DB) (name : String) : Option DBEntry := db.lookup name
def put (db : DB) (e : DBEntry) : DB := db.insert e.name e
def delete (db : DB) (name : String) : DB := db.erase name

/-- `List`: the entries sorted by name. -/
def list (db : DB) : List DBEntry :=
  (db.entries.map Sigma.snd).insertionSort fun a b => a.name ≤ b.name

@[simp] theorem get_put_self (db : DB) (e : DBEntry) : (db.put e).get e.name = some e :=
  AList.lookup_insert db

theorem get_put_ne (db : DB) (e : DBEntry) {name : String} (other : name ≠ e.name) :
    (db.put e).get name = db.get name :=
  AList.lookup_insert_ne other

@[simp] theorem get_delete_self (db : DB) (name : String) : (db.delete name).get name = none :=
  AList.lookup_erase name db

theorem get_delete_ne (db : DB) {name other : String} (ne : other ≠ name) :
    (db.delete name).get other = db.get other :=
  AList.lookup_erase_ne ne

theorem mem_list {db : DB} {e : DBEntry} : e ∈ db.list ↔ ∃ name, db.get name = some e := by
  simp only [list, List.mem_insertionSort, List.mem_map, Sigma.exists, get]
  constructor
  · rintro ⟨name, entry, member, rfl⟩
    exact ⟨name, AList.mem_lookup_iff.2 member⟩
  · rintro ⟨name, found⟩
    exact ⟨name, e, AList.mem_lookup_iff.1 found, rfl⟩

/-- The constraint is satisfied by an installed version. -/
def meets (db : DB) (d : Dependency) : Bool :=
  (db.get d.name).any fun e => e.status = .installed && d.satisfiedBy e.version

end DB

/-- The constraints of `specs` that the database does not meet. -/
def unmetDepends (db : DB) : List String → Except Failure (List String)
  | [] => .ok []
  | spec :: rest =>
    match parseDependency spec with
    | .error failure => .error failure
    | .ok d =>
      match unmetDepends db rest with
      | .error failure => .error failure
      | .ok unmet => .ok (if db.meets d then unmet else spec :: unmet)

/-- `CheckDepends`. -/
def checkDepends (m : Manifest) (db : DB) : Except Failure (List String) :=
  unmetDepends db m.depends

/-! ### The catalog -/

/-- `Upsert`. -/
def upsert (services : List ServiceDescriptor) (d : ServiceDescriptor) : List ServiceDescriptor :=
  match services with
  | [] => [d]
  | s :: rest => if s.name = d.name then d :: rest else s :: upsert rest d

/-- The service an entry publishes. -/
def DBEntry.published (e : DBEntry) : Option ServiceDescriptor :=
  if e.status = .installed then e.service else none

/-- `syncCatalog`: the catalog that is written. -/
def catalogOf (db : DB) : List ServiceDescriptor :=
  ((db.list.filterMap DBEntry.published).foldl upsert []).insertionSort fun a b => a.name ≤ b.name

/-! ### The disk -/

structure File where
  content : Bytes
  mode : Nat
deriving DecidableEq, Repr

/-- What the manager last wrote at a path: for which package, the content, and
whether as the package's conffile. -/
structure Written where
  package : String
  content : Bytes
  conffile : Bool
deriving DecidableEq, Repr

/-- The files, and beside them (not on the device) what the manager wrote last at
each path since it last deleted the file there. -/
structure Disk where
  files : String → Option File
  written : String → Option Written

namespace Disk

def put (disk : Disk) (path : String) (file : File) (record : Written) : Disk :=
  { files := Function.update disk.files path (some file)
    written := Function.update disk.written path (some record) }

def delete (disk : Disk) (path : String) : Disk :=
  { files := Function.update disk.files path none
    written := Function.update disk.written path none }

/-- The file is written beside `path` and renamed over it. -/
def replace (disk : Disk) (path : String) (file : File) (record : Written) : Disk :=
  (disk.delete (tmpPath path)).put path file record

/-- An administrator puts a file at the path, or deletes the one there. -/
def edit (disk : Disk) (path : String) (file : Option File) : Disk :=
  { disk with files := Function.update disk.files path file }

section

variable (disk : Disk) (path other : String) (file : File) (record : Written)

@[simp] theorem files_put :
    (disk.put path file record).files other = if other = path then some file else disk.files other :=
  Function.update_apply ..

@[simp] theorem written_put :
    (disk.put path file record).written other =
      if other = path then some record else disk.written other :=
  Function.update_apply ..

@[simp] theorem files_delete :
    (disk.delete path).files other = if other = path then none else disk.files other :=
  Function.update_apply ..

@[simp] theorem written_delete :
    (disk.delete path).written other = if other = path then none else disk.written other :=
  Function.update_apply ..

@[simp] theorem files_replace :
    (disk.replace path file record).files other =
      if other = path then some file else if other = tmpPath path then none else disk.files other := by
  simp [replace]

@[simp] theorem written_replace :
    (disk.replace path file record).written other =
      if other = path then some record
      else if other = tmpPath path then none else disk.written other := by
  simp [replace]

@[simp] theorem files_edit (edited : Option File) :
    (disk.edit path edited).files other = if other = path then edited else disk.files other :=
  Function.update_apply ..

end

end Disk

/-- How writing a file can fail. -/
inductive WriteFault where
  /-- The temporary file cannot be opened. -/
  | openTmp (cause : String)
  /-- It can, but only `some` of the content gets into it. -/
  | writeTmp (part : Bytes) (cause : String)
  /-- `Chmod` fails, and the temporary file is removed, or that fails too. -/
  | chmod (removed : Bool) (cause : String)
  | rename (cause : String)
deriving DecidableEq, Repr

/-- The fault leaves the temporary file behind. -/
def WriteFault.leavesTmp : WriteFault → Bool
  | .openTmp _ | .chmod true _ => false
  | .writeTmp _ _ | .chmod false _ | .rename _ => true

/-- `writeFileAtomicBytes`. -/
def writeFileAtomicBytes (disk : Disk) (dest : String) (mode : Nat) (record : Written) :
    Option WriteFault → Disk × Option Failure
  | none => (disk.replace dest ⟨record.content, mode⟩ record, none)
  | some (.openTmp cause) => (disk, some (.os cause))
  | some (.writeTmp part cause) =>
    (disk.put (tmpPath dest) ⟨part, mode⟩ ⟨record.package, part, false⟩, some (.os cause))
  | some (.chmod true cause) => (disk.delete (tmpPath dest), some (.os cause))
  | some (.chmod false cause) | some (.rename cause) =>
    (disk.put (tmpPath dest) ⟨record.content, mode⟩ ⟨record.package, record.content, false⟩,
      some (.os cause))

/-! ### The payload -/

/-- What fails at one entry of the archive. -/
structure EntryFaults where
  /-- Reading the entry's header. -/
  next : Option String := none
  /-- Reading its content. -/
  read : Option String := none
  /-- Making the directory, or the file's. -/
  mkdir : Option String := none
  /-- Reading the conffile that is there. -/
  current : Option String := none
  write : Option WriteFault := none
deriving DecidableEq, Repr

/-- The state of `extractPayload`. -/
structure Extraction where
  disk : Disk
  files : List String := []
  conf : List ConffileState := []

/-- The conffile a manifest declares at a path; the last one wins. -/
def Manifest.conffileAt (m : Manifest) (onDevice : String) : Option Conffile :=
  m.conffiles.reverse.find? fun c => c.path = onDevice

/-- The recorded state of a conffile; the last one wins. -/
def DBEntry.conffileAt (e : DBEntry) (onDevice : String) : Option ConffileState :=
  e.conffiles.reverse.find? fun c => c.path = onDevice

/-- `DefaultSHA` of the recorded state, empty without one. -/
def defaultSHA (prev : Option DBEntry) (onDevice : String) : String :=
  match prev.bind fun e => e.conffileAt onDevice with
  | none => ""
  | some st => st.defaultSHA

/-- `parseMode`. -/
def parseMode (s : String) (fallback : Nat) : Nat :=
  let digits := s.toList
  if digits = [] ∨ ¬ digits.all (fun c => '0' ≤ c ∧ c ≤ '7') then fallback
  else
    let n := digits.foldl (fun n c => 8 * n + (c.toNat - '0'.toNat)) 0
    if n < 2 ^ 32 then n else fallback

section

variable (host : Host)

/-- The conffile is the one the package put there, so far as its record says. -/
def untouched (prev : Option DBEntry) (onDevice : String) (current : File) : Bool :=
  defaultSHA prev onDevice ≠ "" && host.sha256 current.content = defaultSHA prev onDevice

/-- `applyConffile`. -/
def applyConffile (disk : Disk) (package onDevice : String) (shipped : Bytes) (c : Conffile)
    (prev : Option DBEntry) (faults : EntryFaults) : Disk × Except Failure ConffileState :=
  let dest := host.rootJoin onDevice
  let shippedSHA := host.sha256 shipped
  let mode := parseMode c.mode 0o640
  let replaced : Disk × Except Failure ConffileState :=
    match writeFileAtomicBytes disk dest mode ⟨package, shipped, true⟩ faults.write with
    | (disk, some failure) => (disk, .error failure)
    | (disk, none) => (disk, .ok ⟨onDevice, shippedSHA, shippedSHA⟩)
  match faults.current with
  | some cause => (disk, .error (.os cause))
  | none =>
    match disk.files dest with
    | none => replaced
    | some current =>
      if untouched host prev onDevice current then replaced
      else if host.sha256 current.content ≠ shippedSHA then
        match writeFileAtomicBytes disk (newPath dest) mode ⟨package, shipped, false⟩
            faults.write with
        | (disk, some failure) => (disk, .error failure)
        | (disk, none) => (disk, .ok ⟨onDevice, host.sha256 current.content, shippedSHA⟩)
      else (disk, .ok ⟨onDevice, host.sha256 current.content, shippedSHA⟩)

/-- What `extractPayload` makes of the result of `applyConffile`. -/
def Extraction.settle (x : Extraction) (onDevice : String) :
    Disk × Except Failure ConffileState → Extraction × Option Failure
  | (disk, .error failure) => ({ x with disk }, some failure)
  | (disk, .ok st) => ({ disk, files := x.files ++ [onDevice], conf := x.conf ++ [st] }, none)

/-- One pass of the loop of `extractPayload`. -/
def extractEntry (m : Manifest) (prev : Option DBEntry) (faults : EntryFaults) (entry : TarEntry)
    (x : Extraction) : Extraction × Option Failure :=
  match faults.next with
  | some cause => (x, some (.os cause))
  | none =>
    match entry.onDevice with
    | none => (x, none)
    | some onDevice =>
      match entry.type with
      | .dir => (x, faults.mkdir.map .os)
      | .other flag => (x, some (.unsupportedEntry entry.name flag))
      | .regular =>
        match faults.read.or faults.mkdir with
        | some cause => (x, some (.os cause))
        | none =>
          match m.conffileAt onDevice with
          | some c =>
            x.settle onDevice
              (applyConffile host x.disk m.name onDevice entry.data c prev faults)
          | none =>
            let mode := if entry.mode % 0o1000 = 0 then 0o644 else entry.mode % 0o1000
            match writeFileAtomicBytes x.disk (host.rootJoin onDevice) mode
                ⟨m.name, entry.data, false⟩ faults.write with
            | (disk, some failure) => ({ x with disk }, some failure)
            | (disk, none) => ({ x with disk, files := x.files ++ [onDevice] }, none)

/-- The loop of `extractPayload`, from the entry number `i` on. -/
def extractFrom (m : Manifest) (prev : Option DBEntry) (faults : Nat → EntryFaults) :
    Nat → List TarEntry → Extraction → Extraction × Option Failure
  | i, [], x => (x, (faults i).next.map .os)
  | i, entry :: rest, x =>
    match extractEntry host m prev (faults i) entry x with
    | (after, some failure) => (after, some failure)
    | (after, none) => extractFrom m prev faults (i + 1) rest after

end

/-! ### Install -/

/-- What fails at one entry when the maintainer scripts are extracted. -/
structure ScriptFaults where
  /-- Reading the entry. -/
  read : Option String := none
  /-- Writing the script, with the part of it that gets into the file if it can be opened. -/
  write : Option (Option Bytes × String) := none
deriving DecidableEq, Repr

/-- Where an installation fails, if anywhere. -/
structure InstallFaults where
  /-- Opening and hashing the archive, or reading its control document. -/
  package : Option String := none
  loadDB : Option String := none
  /-- Making the directory of the maintainer scripts, or opening the archive for them. -/
  scripts : Option String := none
  scriptEntry : Nat → ScriptFaults := fun _ => {}
  /-- The exit of the script of each hook. -/
  script : String → Option String := fun _ => none
  /-- Opening the archive for its payload. -/
  payload : Option String := none
  entry : Nat → EntryFaults := fun _ => {}
  setup : Option String := none
  saveDB : Option String := none
  saveCatalog : Option String := none

structure InstallRequest where
  archive : Archive
  expectedSHA : String := ""
  /-- The directory that `os.MkdirTemp` makes. -/
  tempDir : String := "/var/lib/helix/tmp/maint-1"
  installedAt : String := ""
  faults : InstallFaults := {}

/-- A run of a maintainer script. -/
structure ScriptRun where
  package : String
  hook : String
  args : List String
  script : Bytes
deriving DecidableEq, Repr

/-- The disk, the saved database, the saved catalog, and the maintainer scripts
run so far. -/
structure Device where
  disk : Disk
  db : DB := ∅
  catalog : List ServiceDescriptor := []
  ran : List ScriptRun := []

/-- `strings.EqualFold`, on hexadecimal digits. -/
def equalFold (s t : String) : Bool :=
  s.toList.map Char.toLower = t.toList.map Char.toLower

/-- `Install` up to the maintainer scripts: the checks, none of which writes. -/
def checkPackage (request : InstallRequest) (db : DB) : Except Failure Manifest :=
  match request.faults.package with
  | some cause => .error (.os cause)
  | none =>
    if request.expectedSHA ≠ "" ∧ ¬ equalFold request.archive.sum request.expectedSHA then
      .error (.sha256Mismatch request.archive.sum request.expectedSHA)
    else
      match request.archive.control with
      | none => .error .missingControl
      | some control =>
        match control.validate with
        | .error failure => .error failure
        | .ok m =>
          match request.faults.loadDB with
          | some cause => .error (.os cause)
          | none =>
            match checkDepends m db with
            | .error failure => .error failure
            | .ok unmet =>
              if unmet ≠ [] then .error (.unmetDependencies m.name unmet)
              else
                match request.faults.scripts with
                | some cause => .error (.os cause)
                | none => .ok m

/-- The hook of an entry's name: of several with one script, the one that Go visits last. -/
def Manifest.hookOf (m : Manifest) (name : String) : Option String :=
  (m.maintainerScripts.reverse.find? fun script => script.2 = name).map Prod.fst

/-- The files that the extraction of the scripts writes, the last one last. -/
abbrev Scripts : Type := List (String × Bytes)

def Scripts.read (scripts : Scripts) (path : String) : Option Bytes :=
  (scripts.reverse.find? fun script => script.1 = path).map Prod.snd

/-- Why a file cannot be written: it is the directory or one above it, or it is in a directory
below, which nobody makes. -/
def certainFault (dir path : String) : Option String :=
  if (names path).isPrefixOf (names dir) then some "is a directory"
  else if (names dir).isPrefixOf (names path) ∧ (names path).length ≠ (names dir).length + 1 then
    some "no such file or directory"
  else none

/-- The loop of `extractMaintainerScripts`, from the entry number `i` on. -/
def extractScriptsFrom (dir : String) (m : Manifest) (faults : Nat → ScriptFaults) :
    Nat → List TarEntry → Scripts → Scripts × Option Failure
  | i, [], scripts => (scripts, (faults i).read.map .os)
  | i, entry :: rest, scripts =>
    match (faults i).read with
    | some cause => (scripts, some (.os cause))
    | none =>
      match if entry.type = .regular then m.hookOf entry.name else none with
      | none => extractScriptsFrom dir m faults (i + 1) rest scripts
      | some hook =>
        match certainFault dir (join dir hook), (faults i).write with
        | some cause, _ | none, some (none, cause) => (scripts, some (.os cause))
        | none, some (some part, cause) =>
          (scripts ++ [(join dir hook, part)], some (.os cause))
        | none, none =>
          extractScriptsFrom dir m faults (i + 1) rest
            (scripts ++ [(join dir hook, entry.data)])

/-- `extractMaintainerScripts`. -/
def extractMaintainerScripts (request : InstallRequest) (m : Manifest) :
    Scripts × Option Failure :=
  if m.maintainerScripts = [] then ([], none)
  else extractScriptsFrom request.tempDir m request.faults.scriptEntry 0 request.archive.entries []

/-- `runScript`. -/
def runScript (package : String) (scripts : Scripts) (request : InstallRequest) (hook : String)
    (args : List String) : List ScriptRun × Option Failure :=
  match scripts.read (join request.tempDir hook) with
  | none => ([], none)
  | some script =>
    ([⟨package, hook, args, script⟩], (request.faults.script hook).map (.script hook))

/-- Two scripts, the second only after the first. -/
def runScripts (package : String) (scripts : Scripts) (request : InstallRequest)
    (first second : String × List String) : List ScriptRun × Option Failure :=
  match runScript package scripts request first.1 first.2 with
  | (ran, some failure) => (ran, some failure)
  | (ran, none) =>
    match runScript package scripts request second.1 second.2 with
    | (more, failure) => (ran ++ more, failure)

/-- The version that an upgrade replaces, empty when there is none. -/
def oldVersion (prev : Option DBEntry) : String :=
  match prev with
  | some e => if e.status = .installed then e.version else ""
  | none => ""

/-- The first argument of `preinst`. -/
def installAction (prev : Option DBEntry) : String :=
  if prev.any (·.status = .installed) then "upgrade" else "install"

/-- The maintainer scripts: their extraction, and those that run before the payload is
extracted. -/
def prepare (request : InstallRequest) (m : Manifest) (device : Device) :
    List ScriptRun × Option Failure :=
  let prev := device.db.get m.name
  match extractMaintainerScripts request m with
  | (_, some failure) => ([], some failure)
  | (scripts, none) =>
    runScripts m.name scripts request
      ("preconfigure", []) ("preinst", [installAction prev, oldVersion prev])

section

variable (host : Host)

/-- `extractPayload`. -/
def extractPayload (request : InstallRequest) (m : Manifest) (device : Device) :
    Extraction × Option Failure :=
  match request.faults.payload with
  | some cause => ({ disk := device.disk }, some (.os cause))
  | none =>
    extractFrom host m (device.db.get m.name) request.faults.entry 0 request.archive.entries
      { disk := device.disk }

/-- The part of `Install` whose failure leaves the package half-installed: the
payload, the setup command and the last two scripts. -/
def unpack (request : InstallRequest) (m : Manifest) (device : Device) :
    Extraction × List ScriptRun × Option Failure :=
  match extractPayload host request m device with
  | (x, some failure) => (x, [], some failure)
  | (x, none) =>
    match if m.setupCommand = [] then none else request.faults.setup with
    | some cause => (x, [], some (.setup cause))
    | none =>
      (x, runScripts m.name (extractMaintainerScripts request m).1 request
        ("postinst", ["configure", oldVersion (device.db.get m.name)]) ("postconfigure", []))

/-- The entry of a package that could not be configured. -/
def halfInstalled (request : InstallRequest) (m : Manifest) (files : List String) : DBEntry :=
  { name := m.name, version := m.version, kind := m.kind, status := .halfInstalled
    sha256 := request.archive.sum, files, conffiles := [], service := none
    installedAt := request.installedAt }

/-- The entry of an installed package. -/
def configured (request : InstallRequest) (m : Manifest) (x : Extraction) : DBEntry :=
  { name := m.name, version := m.version, kind := m.kind, status := .installed
    sha256 := request.archive.sum, files := x.files, conffiles := x.conf, service := m.service
    installedAt := request.installedAt }

/-- `db.Save()` of a changed database; without an error it is on the device. -/
def saveDB (device : Device) (db : DB) (fault : Option String) : Device :=
  match fault with
  | some _ => device
  | none => { device with db }

/-- `db.Save()` and then `syncCatalog(db)`. -/
def publish (device : Device) (db : DB) (saveDB saveCatalog : Option String) :
    Device × Option Failure :=
  match saveDB with
  | some cause => (device, some (.os cause))
  | none =>
    match saveCatalog with
    | some cause => ({ device with db }, some (.os cause))
    | none => ({ device with db, catalog := catalogOf db }, none)

/-- `Install`, after its checks. -/
def installChecked (request : InstallRequest) (m : Manifest) (device : Device) :
    Device × Option Failure :=
  match prepare request m device with
  | (ran, some failure) => ({ device with ran := device.ran ++ ran }, some failure)
  | (ran, none) =>
    match unpack host request m device with
    | (x, more, some failure) =>
      (saveDB { device with disk := x.disk, ran := device.ran ++ ran ++ more }
        (device.db.put (halfInstalled request m x.files)) request.faults.saveDB, some failure)
    | (x, more, none) =>
      publish { device with disk := x.disk, ran := device.ran ++ ran ++ more }
        (device.db.put (configured request m x)) request.faults.saveDB
        request.faults.saveCatalog

/-- `Install`, without the manifest it returns. -/
def install (request : InstallRequest) (device : Device) : Device × Option Failure :=
  match checkPackage request device.db with
  | .error failure => (device, some failure)
  | .ok m => installChecked host request m device

/-! ### Remove -/

/-- Where a removal fails, if anywhere. -/
structure RemoveFaults where
  loadDB : Option String := none
  /-- Deleting the file with this number in the entry. -/
  file : Nat → Option String := fun _ => none
  saveDB : Option String := none
  saveCatalog : Option String := none

structure RemoveRequest where
  name : String
  purge : Bool
  faults : RemoveFaults := {}

/-- A file of the entry that a removal without purging leaves. -/
def DBEntry.keeps (e : DBEntry) (purge : Bool) (f : String) : Bool :=
  ¬ purge && e.conffiles.any fun c => c.path = f

/-- The loop of `Remove`, from the file number `i` on. -/
def removeFrom (e : DBEntry) (purge : Bool) (faults : Nat → Option String) :
    Nat → List String → Disk → Disk × Option Failure
  | _, [], disk => (disk, none)
  | i, f :: rest, disk =>
    if e.keeps purge f then removeFrom e purge faults (i + 1) rest disk
    else
      match faults i with
      | some cause => (disk, some (.remove f cause))
      | none => removeFrom e purge faults (i + 1) rest (disk.delete (host.rootJoin f))

/-- The database after a removal. -/
def removed (db : DB) (e : DBEntry) (name : String) (purge : Bool) : DB :=
  if purge ∨ e.conffiles = [] then db.delete name
  else db.put { e with status := .configFiles, files := [] }

/-- `Remove`. -/
def remove (request : RemoveRequest) (device : Device) : Device × Option Failure :=
  match request.faults.loadDB with
  | some cause => (device, some (.os cause))
  | none =>
    match device.db.get request.name with
    | none => (device, some (.notInstalled request.name))
    | some e =>
      match removeFrom host e request.purge request.faults.file 0 e.files device.disk with
      | (disk, some failure) => ({ device with disk }, some failure)
      | (disk, none) =>
        publish { device with disk } (removed device.db e request.name request.purge)
          request.faults.saveDB request.faults.saveCatalog

/-! ### Runs -/

/-- An operation of the manager, or an administrator's change of a file. -/
inductive Op where
  | install (request : InstallRequest)
  | remove (request : RemoveRequest)
  | edit (path : String) (file : Option File)

/-- One operation, with the error it returns. -/
def perform (device : Device) : Op → Device × Option Failure
  | .install request => install host request device
  | .remove request => remove host request device
  | .edit path file => ({ device with disk := device.disk.edit path file }, none)

def step (device : Device) (op : Op) : Device := (perform host device op).1

end

end HelixKit.Pkg
