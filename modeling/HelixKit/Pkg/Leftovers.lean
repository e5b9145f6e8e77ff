/-
Purpose: The files of a package that are left after it has been purged: none, as long as the database
  lists every file of the package that is on the disk.
Trusted boundary: none
Main exports: purge_leaves_nothing
-/
import HelixKit.Pkg.Operations

namespace HelixKit.Pkg

open HelixKit.Runs

variable {host : Host} {name : String}

/-- A file that an installation of the package wrote is at the path. -/
def Disk.holds (disk : Disk) (package path : String) : Prop :=
  (disk.files path).isSome = true ∧ (disk.written path).any (·.package = package) = true

instance (disk : Disk) (package path : String) : Decidable (disk.holds package path) :=
  inferInstanceAs (Decidable (_ ∧ _))

/-- A device without packages, with any files on it. -/
def Device.start (files : String → Option File) : Device :=
  { disk := { files, written := fun _ => none } }

/-- Every entry is filed under its own name. -/
def Keyed (db : DB) : Prop :=
  ∀ name e, db.get name = some e → e.name = name

theorem Keyed.put {db : DB} (keyed : Keyed db) (e : DBEntry) : Keyed (db.put e) := by
  intro name found present
  by_cases here : name = e.name
  · subst here
    rw [DB.get_put_self] at present
    cases present
    rfl
  · rw [DB.get_put_ne db e here] at present
    exact keyed name found present

theorem Keyed.removed {db : DB} (keyed : Keyed db) (e : DBEntry) (name : String) (purge : Bool) :
    Keyed (removed db e name purge) := by
  unfold HelixKit.Pkg.removed
  split
  · intro other found present
    by_cases here : other = name
    · subst here
      simp at present
    · rw [DB.get_delete_ne db here] at present
      exact keyed other found present
  · exact keyed.put _

theorem Keyed.step {device : Device} (keyed : Keyed device.db) (op : Op) :
    Keyed (step host device op).db := by
  unfold HelixKit.Pkg.step
  cases op with
  | install request =>
    obtain ⟨after, failure, performed, effect⟩ := perform_install host request device
    rw [performed]
    cases effect with
    | refused | unsaved => exact keyed
    | half | uncatalogued | done => exact keyed.put _
  | remove request =>
    obtain ⟨after, failure, performed, effect⟩ := perform_remove host request device
    rw [performed]
    cases effect with
    | refused | unsaved => exact keyed
    | uncatalogued | done => exact keyed.removed _ _ _
  | edit path file => exact keyed

/-- The database lists every file of the package that is on the disk. -/
def Listed (host : Host) (name : String) (device : Device) : Prop :=
  ∀ path, device.disk.holds name path →
    ∃ e, device.db.get name = some e ∧ ∃ f ∈ e.files, host.rootJoin f = path

/-! ### The operations that keep the list complete -/

/-- The archive ships the file, and nothing goes wrong at it or before it. -/
def Extracts (faults : Nat → EntryFaults) (f : String) : Nat → List TarEntry → Prop
  | _, [] => False
  | i, entry :: rest =>
    faults i = {} ∧
      ((entry.type = .regular ∧ entry.onDevice = some f) ∨
        (entry.onDevice = none ∨ entry.type = .regular ∨ entry.type = .dir) ∧
          Extracts faults f (i + 1) rest)

/-- The conffile on the disk is neither the package's own nor the shipped one. -/
def DropsAside (host : Host) (m : Manifest) (prev : Option DBEntry) (entry : TarEntry)
    (x : Extraction) : Prop :=
  entry.type = .regular ∧ ∃ onDevice c current, entry.onDevice = some onDevice ∧
    m.conffileAt onDevice = some c ∧ x.disk.files (host.rootJoin onDevice) = some current ∧
    untouched host prev onDevice current = false ∧
    host.sha256 current.content ≠ host.sha256 entry.data

/-- An entry of an archive that leaves no file the database will not list: it
drops no conffile aside, leaves no temporary file, and is in the list already
when the database is not going to be saved. -/
structure TidyEntry (host : Host) (m : Manifest) (prev : Option DBEntry) (saved : Bool)
    (faults : EntryFaults) (entry : TarEntry) (x : Extraction) : Prop where
  inPlace : ¬ DropsAside host m prev entry x
  noTmp : faults.write.any WriteFault.leavesTmp = false
  listed : saved = false → entry.type = .regular → ∀ f, entry.onDevice = some f →
    ∃ e, prev = some e ∧ f ∈ e.files

/-- An installation of the package that leaves no file the database will not
list: each of its entries is so, and when the database is saved the files of the
version before are all extracted again. -/
structure TidyInstall (host : Host) (m : Manifest) (request : InstallRequest) (device : Device) :
    Prop where
  entries : request.faults.payload = none →
    AtEach host m (device.db.get m.name) request.faults.entry
      (TidyEntry host m (device.db.get m.name) request.faults.saveDB.isNone) 0
      request.archive.entries { disk := device.disk }
  upgrade : request.faults.saveDB = none → ∀ e, device.db.get m.name = some e → ∀ f ∈ e.files,
    device.disk.holds m.name (host.rootJoin f) →
      request.faults.payload = none ∧ Extracts request.faults.entry f 0 request.archive.entries

/-- An operation after which the database lists what is left of the package. -/
def Tidy (host : Host) (name : String) (device : Device) : Op → Prop
  | .install request => ∀ m, Begins request device m → m.name = name →
      TidyInstall host m request device
  | .remove request => request.name = name → ∀ e, device.db.get name = some e →
      ∀ f ∈ e.files, e.keeps request.purge f = true → ¬ device.disk.holds name (host.rootJoin f)
  | .edit path file => file ≠ none → device.disk.files path = none →
      (device.disk.written path).any (·.package = name) = false

/-! ### Extracting a payload -/

/-- What the extraction of a payload keeps: the files of the package on the disk
are those that were there before and those extracted so far. -/
structure Accounted (host : Host) (m : Manifest) (before : Disk) (prev : Option DBEntry)
    (saved : Bool) (x : Extraction) : Prop where
  listed : ∀ path, x.disk.holds m.name path →
    before.holds m.name path ∨ ∃ f ∈ x.files, host.rootJoin f = path
  unsaved : saved = false → ∀ f ∈ x.files, ∃ e, prev = some e ∧ f ∈ e.files

variable {disk : Disk}

theorem holds_of_replace {dest : String} {file : File} {record : Written}
    {package path : String} (held : (disk.replace dest file record).holds package path) :
    path = dest ∧ record.package = package ∨ disk.holds package path := by
  obtain ⟨present, written⟩ := held
  rw [Disk.files_replace] at present
  rw [Disk.written_replace] at written
  by_cases here : path = dest
  · left
    simpa [here] using written
  right
  by_cases tmp : path = tmpPath dest
  · simp [tmp] at present
  · simp only [here, tmp, ↓reduceIte] at present written
    exact ⟨present, written⟩

theorem holds_of_tmpLeft {after : Disk} {dest writer : String} {fault : Option WriteFault}
    {package path : String} (tmp : TmpLeft disk dest writer fault after)
    (held : after.holds package path) :
    disk.holds package path ∨ writer = package ∧ fault.any WriteFault.leavesTmp = true := by
  cases tmp with
  | untouched => exact Or.inl held
  | cleaned =>
    obtain ⟨present, written⟩ := held
    rw [Disk.files_delete] at present
    rw [Disk.written_delete] at written
    by_cases tmp : path = tmpPath dest
    · simp [tmp] at present
    · simp only [tmp, ↓reduceIte] at present written
      exact Or.inl ⟨present, written⟩
  | left file leaves =>
    obtain ⟨present, written⟩ := held
    rw [Disk.files_put] at present
    rw [Disk.written_put] at written
    by_cases tmp : path = tmpPath dest
    · right
      exact ⟨by simpa [tmp] using written, leaves⟩
    · simp only [tmp, ↓reduceIte] at present written
      exact Or.inl ⟨present, written⟩

namespace Accounted

variable {m : Manifest} {before : Disk} {prev : Option DBEntry} {saved : Bool} {x : Extraction}

/-- One more file of the payload is extracted. -/
theorem extracted (accounted : Accounted host m before prev saved x) {f : String}
    {conf : List ConffileState}
    (holds : ∀ path, disk.holds m.name path → path = host.rootJoin f ∨ x.disk.holds m.name path)
    (listed : saved = false → ∃ e, prev = some e ∧ f ∈ e.files) :
    Accounted host m before prev saved { disk, files := x.files ++ [f], conf } := by
  constructor
  · intro path held
    rcases holds path held with rfl | still
    · exact Or.inr ⟨f, by simp, rfl⟩
    · rcases accounted.listed path still with old | ⟨g, member, at_⟩
      · exact Or.inl old
      · exact Or.inr ⟨g, List.mem_append_left _ member, at_⟩
  · intro notSaved g member
    rcases List.mem_append.1 member with earlier | now
    · exact accounted.unsaved notSaved g earlier
    · rw [List.mem_singleton.1 now]
      exact listed notSaved

theorem entry {faults : EntryFaults} {entry : TarEntry} {after : Extraction}
    {failure : Option Failure} (tidy : TidyEntry host m prev saved faults entry x)
    (accounted : Accounted host m before prev saved x)
    (step : EntryStep host m prev faults entry x after failure) :
    Accounted host m before prev saved after := by
  cases step with
  | skipped | refused => exact accounted
  | plain regular named undeclared | conffile regular named declared free =>
    apply accounted.extracted
    · intro path held
      exact (holds_of_replace held).imp And.left id
    · exact fun notSaved => tidy.listed notSaved regular _ named
  | aside regular named declared present touched differs =>
    exact absurd ⟨regular, _, _, _, named, declared, present, touched, differs⟩ tidy.inPlace
  | kept regular named declared present touched same =>
    apply accounted.extracted
    · exact fun path held => Or.inr held
    · exact fun notSaved => tidy.listed notSaved regular _ named
  | unwritten regular named target tmp =>
    constructor
    · intro path held
      rcases holds_of_tmpLeft tmp held with still | ⟨-, leaves⟩
      · exact accounted.listed path still
      · rw [tidy.noTmp] at leaves
        cases leaves
    · exact accounted.unsaved

end Accounted

/-- The extraction of another package's payload puts no file of this package
anywhere. -/
theorem holds_of_otherEntry {m : Manifest} {prev : Option DBEntry} {faults : EntryFaults}
    {entry : TarEntry} {x after : Extraction} {failure : Option Failure} (other : m.name ≠ name)
    (step : EntryStep host m prev faults entry x after failure) {path : String}
    (held : after.disk.holds name path) : x.disk.holds name path := by
  cases step with
  | skipped | refused | kept => exact held
  | plain | conffile | aside => exact (holds_of_replace held).resolve_left fun here => other here.2
  | unwritten regular named target tmp =>
    exact (holds_of_tmpLeft tmp held).resolve_right fun left => other left.1

/-! ### What an extraction without faults lists -/

theorem applyConffile_clean (host : Host) (disk : Disk) (package onDevice : String) (shipped : Bytes)
    (c : Conffile) (prev : Option DBEntry) :
    ∃ after st, applyConffile host disk package onDevice shipped c prev {} = (after, .ok st) := by
  unfold applyConffile
  dsimp only [writeFileAtomicBytes]
  split
  · exact ⟨_, _, rfl⟩
  split
  · exact ⟨_, _, rfl⟩
  · split <;> exact ⟨_, _, rfl⟩

theorem extractEntry_clean (host : Host) (m : Manifest) (prev : Option DBEntry) {entry : TarEntry}
    (supported : entry.onDevice = none ∨ entry.type = .regular ∨ entry.type = .dir)
    (x : Extraction) :
    ∃ after, extractEntry host m prev {} entry x = (after, none) ∧
      ∀ f, entry.type = .regular → entry.onDevice = some f → f ∈ after.files := by
  unfold extractEntry
  dsimp only
  cases named : entry.onDevice with
  | none => exact ⟨x, rfl, by simp⟩
  | some onDevice =>
    cases type : entry.type with
    | dir => exact ⟨x, rfl, by simp⟩
    | other flag => simp [named, type] at supported
    | regular =>
      dsimp only [Option.or]
      cases m.conffileAt onDevice with
      | none => exact ⟨_, rfl, by simp⟩
      | some c =>
        obtain ⟨disk, st, applied⟩ := applyConffile_clean host x.disk m.name
          onDevice entry.data c prev
        refine ⟨{ disk, files := x.files ++ [onDevice], conf := x.conf ++ [st] }, ?_, by simp⟩
        dsimp only
        rw [applied]
        rfl

variable {f : String}

/-- The list of extracted files only grows. -/
theorem extractEntry_files (host : Host) (m : Manifest) (prev : Option DBEntry) (faults : EntryFaults)
    (entry : TarEntry) (x : Extraction) (member : f ∈ x.files) :
    f ∈ (extractEntry host m prev faults entry x).1.files := by
  have effect := extractEntry_step host m prev faults entry x
  generalize extractEntry host m prev faults entry x = result at effect ⊢
  obtain ⟨after, failure⟩ := result
  cases effect with
  | skipped | refused | unwritten => exact member
  | plain | conffile | aside | kept => exact List.mem_append_left _ member

theorem extractFrom_files (m : Manifest) (prev : Option DBEntry) (faults : Nat → EntryFaults)
    (entries : List TarEntry) (i : Nat) (x : Extraction) (member : f ∈ x.files) :
    f ∈ (extractFrom host m prev faults i entries x).1.files := by
  induction entries generalizing i x with
  | nil => exact member
  | cons entry rest ih =>
    have grown := extractEntry_files host m prev (faults i) entry x member
    unfold extractFrom
    generalize extractEntry host m prev (faults i) entry x = result at grown ⊢
    rcases result with ⟨after, _ | failure⟩
    · exact ih (i + 1) after grown
    · exact grown

theorem extractFrom_lists (m : Manifest) (prev : Option DBEntry) {faults : Nat → EntryFaults}
    {entries : List TarEntry} {i : Nat} (extracts : Extracts faults f i entries)
    (x : Extraction) : f ∈ (extractFrom host m prev faults i entries x).1.files := by
  induction entries generalizing i x with
  | nil => exact extracts.elim
  | cons entry rest ih =>
    obtain ⟨clean, here⟩ := extracts
    unfold extractFrom
    rcases here with ⟨regular, named⟩ | ⟨supported, later⟩
    · obtain ⟨after, result, lists⟩ := extractEntry_clean host m prev
        (Or.inr (Or.inl regular)) x
      rw [clean, result]
      exact extractFrom_files m prev faults rest (i + 1) after (lists f regular named)
    · obtain ⟨after, result, -⟩ := extractEntry_clean host m prev supported x
      rw [clean, result]
      exact ih later after

/-! ### Runs -/

variable {device : Device}

theorem TidyInstall.accounted {m : Manifest} {request : InstallRequest}
    (tidy : TidyInstall host m request device) :
    Accounted host m device.disk (device.db.get m.name) request.faults.saveDB.isNone
      (extractPayload host request m device).1 := by
  apply extractPayload_invariant _ tidy.entries
  · constructor
    · exact fun path held => Or.inl held
    · intro _ f member
      cases member
  · exact fun _ _ _ _ _ condition inv effect => inv.entry condition effect

variable {e : DBEntry}

/-- Once the database lists what was extracted, it lists all that is on the disk. -/
theorem TidyInstall.listed {m : Manifest} {request : InstallRequest} {after : Device}
    (before : Listed host m.name device) (tidy : TidyInstall host m request device)
    (saved : request.faults.saveDB = none)
    (files : e.files = (extractPayload host request m device).1.files)
    (found : after.db.get m.name = some e)
    (disk : after.disk = (extractPayload host request m device).1.disk) :
    Listed host m.name after := by
  intro path held
  refine ⟨e, found, ?_⟩
  rw [disk] at held
  rw [files]
  rcases tidy.accounted.listed path held with there | new
  · obtain ⟨old, present, f, member, rfl⟩ := before path there
    obtain ⟨opened, extracts⟩ := tidy.upgrade saved old present f member there
    refine ⟨f, ?_, rfl⟩
    unfold extractPayload
    rw [opened]
    exact extractFrom_lists m _ extracts _
  · exact new

/-- A database that was not saved lists what was extracted already. -/
theorem TidyInstall.listed_unsaved {m : Manifest} {request : InstallRequest}
    {ran : List ScriptRun} (before : Listed host m.name device)
    (tidy : TidyInstall host m request device) (unsaved : request.faults.saveDB ≠ none) :
    Listed host m.name
      { device with disk := (extractPayload host request m device).1.disk, ran } := by
  intro path held
  rcases tidy.accounted.listed path held with there | ⟨f, member, at_⟩
  · exact before path there
  · obtain ⟨e, found, listed⟩ := tidy.accounted.unsaved
      (by simpa [Option.isSome_iff_ne_none] using unsaved) f member
    exact ⟨e, found, f, listed, at_⟩

/-- Installing another package leaves the package's files and entry as they are. -/
theorem listed_otherInstall {m : Manifest} {request : InstallRequest} {after : Device}
    (before : Listed host name device) (other : m.name ≠ name)
    (db : after.db.get name = device.db.get name)
    (disk : after.disk = (extractPayload host request m device).1.disk) : Listed host name after := by
  intro path held
  have there : device.disk.holds name path := by
    have along : AtEach host m (device.db.get m.name) request.faults.entry (fun _ _ _ => True) 0
        request.archive.entries { disk := device.disk } :=
      atEach_of_forall fun _ _ _ _ => trivial
    rw [disk] at held
    apply extractPayload_invariant (fun x => x.disk.holds name path → device.disk.holds name path)
      (fun _ => along)
    · exact id
    · intro _ _ _ _ _ _ inv effect held
      exact inv (holds_of_otherEntry other effect held)
    · exact held
  rw [db]
  exact before path there

theorem Listed.install {request : InstallRequest} {after : Device} {failure : Option Failure}
    (listed : Listed host name device) (tidy : Tidy host name device (.install request))
    (effect : InstallStep host request device after failure) : Listed host name after := by
  cases effect with
  | refused => exact listed
  | @unsaved m _ _ begun unsaved =>
    by_cases own : m.name = name
    · subst own
      exact (tidy m begun rfl).listed_unsaved listed unsaved
    · exact listed_otherInstall listed own rfl rfl
  | @half m _ _ begun failed saved | @uncatalogued m _ _ begun extracted saved _
  | @done m _ begun extracted saved =>
    by_cases own : m.name = name
    · subst own
      exact (tidy m begun rfl).listed listed saved rfl (DB.get_put_self _ _) rfl
    · exact listed_otherInstall listed own (DB.get_put_ne _ _ (Ne.symm own)) rfl

/-- What is left of the package by a removal was there before, at a path that
was not to be deleted. -/
theorem holds_of_removeFrom {purge : Bool} {faults : Nat → Option String}
    {files : List String} {i : Nat} {path : String}
    (held : (removeFrom host e purge faults i files disk).1.holds name path) :
    disk.holds name path := by
  obtain ⟨present, written⟩ := held
  rcases removeFrom_frame host e purge faults files i disk path with ⟨same, sameWritten⟩ | ⟨gone, -⟩
  · rw [same] at present
    rw [sameWritten] at written
    exact ⟨present, written⟩
  · rw [gone] at present
    cases present

/-- After the files of the entry are deleted, only the kept ones are left. -/
theorem kept_of_held {purge : Bool} {faults : Nat → Option String}
    (done : (removeFrom host e purge faults 0 e.files disk).2 = none) (member : f ∈ e.files)
    (held : (removeFrom host e purge faults 0 e.files disk).1.holds name (host.rootJoin f)) :
    e.keeps purge f = true := by
  by_contra dropped
  have gone := removeFrom_done done member (by simpa using dropped)
  have present := held.1
  rw [gone] at present
  cases present

theorem Listed.removed {request : RemoveRequest} {device : Device} {e : DBEntry}
    {catalog : List ServiceDescriptor} (keyed : Keyed device.db) (listed : Listed host name device)
    (tidy : Tidy host name device (.remove request))
    (found : device.db.get request.name = some e)
    (deleted : (removeFrom host e request.purge request.faults.file 0 e.files device.disk).2 = none) :
    Listed host name
      { device with
        disk := (removeFrom host e request.purge request.faults.file 0 e.files device.disk).1
        db := removed device.db e request.name request.purge
        catalog } := by
  intro path held
  obtain ⟨old, present, f, member, rfl⟩ := listed path (holds_of_removeFrom held)
  by_cases own : request.name = name
  · -- Every file of the package on the disk was listed; what was kept is not on it.
    subst own
    obtain rfl : e = old := Option.some.inj (found.symm.trans present)
    have kept := kept_of_held deleted member held
    exact absurd (holds_of_removeFrom held) (tidy rfl e found f member kept)
  · refine ⟨old, ?_, f, member, rfl⟩
    rw [← present]
    exact removed_get_ne (keyed _ _ found) (Ne.symm own)

theorem Listed.step {device : Device} {op : Op} (keyed : Keyed device.db)
    (listed : Listed host name device) (tidy : Tidy host name device op) :
    Listed host name (step host device op) := by
  unfold HelixKit.Pkg.step
  cases op with
  | install request =>
    obtain ⟨after, failure, performed, effect⟩ := perform_install host request device
    rw [performed]
    exact listed.install tidy effect
  | remove request =>
    obtain ⟨after, failure, performed, effect⟩ := perform_remove host request device
    rw [performed]
    cases effect with
    | refused => exact listed
    | unsaved found => exact fun path held => listed path (holds_of_removeFrom held)
    | uncatalogued found deleted | done found deleted =>
      exact listed.removed keyed tidy found deleted
  | edit path file =>
    rintro there ⟨present, written⟩
    apply listed there
    refine ⟨?_, written⟩
    by_cases here : there = path
    · subst here
      cases absent : device.disk.files there with
      | some _ => rfl
      | none =>
        have given : file ≠ none := by
          rintro rfl
          simp [perform] at present
        have unwritten := tidy given absent
        rw [show (device.disk.written there).any _ = true from written] at unwritten
        cases unwritten
    · simpa [perform, here] using present

/-- After a purge that succeeds, no file that an installation of the package
wrote is left, if every operation before it was tidy. -/
theorem purge_leaves_nothing (host : Host) (name : String) (files : String → Option File)
    (ops : List Op) (tidy : Along (step host) (Tidy host name) (Device.start files) ops)
    (request : RemoveRequest) (named : request.name = name) (purges : request.purge = true)
    (done : (remove host request (run (step host) (Device.start files) ops)).2 = none)
    (path : String) :
    ¬ (remove host request (run (step host) (Device.start files) ops)).1.disk.holds name path := by
  have invariant : Keyed (run (step host) (Device.start files) ops).db ∧
      Listed host name (run (step host) (Device.start files) ops) := by
    refine tidy.invariant (fun device => Keyed device.db ∧ Listed host name device) ?_ ⟨?_, ?_⟩
    · intro device op inv condition
      exact ⟨inv.1.step op, inv.2.step inv.1 condition⟩
    · intro other e found
      simp [Device.start, DB.get] at found
    · rintro there ⟨-, written⟩
      simp [Device.start] at written
  generalize run (step host) (Device.start files) ops = device at done invariant ⊢
  obtain ⟨keyed, listed⟩ := invariant
  have effect := remove_step host request device
  generalize remove host request device = result at effect done ⊢
  obtain ⟨after, failure⟩ := result
  dsimp only at done effect ⊢
  subst done
  cases effect with
  | @done e found deleted =>
    intro held
    obtain ⟨old, present, f, member, rfl⟩ := listed path (holds_of_removeFrom held)
    rw [← named, found] at present
    obtain rfl := Option.some.inj present
    have kept := kept_of_held deleted member held
    simp [DBEntry.keeps, purges] at kept

/-! ### The package of the conffile tests -/

/-- The bytes of an ASCII text. -/
def ascii (s : String) : Bytes := s.toList.map fun c => UInt8.ofNat c.toNat

/-- The three conffiles of `TestConffilePreservesLocalEdits`. -/
def firstDefault : Bytes := ascii "\x7b\"a\":1\x7d"
def secondDefault : Bytes := ascii "\x7b\"a\":2\x7d"
def localEdit : Bytes := ascii "\x7b\"a\":99\x7d"

/-- A device with the real root, and SHA-256 on the three conffiles. -/
def testHost : Host where
  root := ""
  sha256 data :=
    if data = firstDefault then "015abd7f5cc57a2dd94b7590f04ad8084273905ee33ec5cebeae62276a97f862"
    else if data = secondDefault then
      "7e8059f495589fcd981232cc11d00b00da3802c01d688fa1cf1f6bed6e5bb33c"
    else "33683f89cf4c31ba8cfa92f3ae41f44c6e4e9748f5357d839b7009339cfd3daf"
  sha256_ne := by
    intro data
    split
    · decide
    · split <;> decide

def xPath : String := "/etc/helix/conf.d/x.json"

/-- The control document of package `x`. -/
def xManifest (version : String) : Manifest :=
  { name := "x", version, kind := .asset, conffiles := [{ path := xPath, mode := "0640" }] }

def xArchive (version : String) (conffile : Bytes) : Archive :=
  { sum := "9f86d081884c7d659a2feaa0c55ad015a3bf4f1b2b0b822cd15d6c15b0f00a08"
    control := some (xManifest version)
    entries := [{ name := "payload" ++ xPath, data := conffile }] }

/-- An empty device. -/
def blank : Device := .start fun _ => none

/-- A purge after a removal that kept the conffile succeeds and leaves it. -/
theorem purge_forgets_conffile :
    let kept := run (step testHost) blank
      [.install { archive := xArchive "1.0.0" firstDefault }, .remove { name := "x", purge := false }]
    (remove testHost { name := "x", purge := true } kept).2 = none ∧
      (remove testHost { name := "x", purge := true } kept).1.disk.holds "x" xPath := by
  decide

theorem purge_leaves_nothing_x :
    ¬ (remove testHost { name := "x", purge := true } (run (step testHost) blank
      [.install { archive := xArchive "1.0.0" firstDefault }])).1.disk.holds "x" xPath := by
  apply purge_leaves_nothing testHost "x" (fun _ => none)
    [.install { archive := xArchive "1.0.0" firstDefault }] ?_ { name := "x", purge := true } rfl rfl
    (by decide)
  refine ⟨?_, trivial⟩
  intro m begins _
  have manifest : m = xManifest "1.0.0" :=
    Except.ok.inj (begins.checked.symm.trans (by decide))
  subst manifest
  constructor
  · intro _
    refine ⟨⟨?_, rfl, ?_⟩, by split <;> trivial⟩
    · rintro ⟨-, onDevice, c, current, -, -, present, -⟩
      cases present
    · intro unsaved
      cases unsaved
  · intro _ e found
    cases found

end HelixKit.Pkg
