/-
Purpose: Which package a file belongs to: the manager never asks, so packages that ship no file at
  another's place never meet.
Trusted boundary: none
Main exports: packages_kept_apart
-/
import HelixKit.Pkg.Leftovers

namespace HelixKit.Pkg

open HelixKit.Runs

variable {host : Host}

/-- The path is listed in the entry of the package. -/
def Owns (host : Host) (db : DB) (name path : String) : Prop :=
  ∃ e, db.get name = some e ∧ ∃ f ∈ e.files, host.rootJoin f = path

/-- A path that extracting the entry can write, rename or delete: the file's own,
its temporary, and for a conffile those of the copy beside it. -/
def Touches (host : Host) (m : Manifest) (entry : TarEntry) (path : String) : Prop :=
  entry.type = .regular ∧ ∃ f, entry.onDevice = some f ∧
    let dest := host.rootJoin f
    path = dest ∨ path = tmpPath dest ∨
      (m.conffileAt f).isSome ∧ (path = newPath dest ∨ path = tmpPath (newPath dest))

/-! ### What an operation leaves alone -/

/-- The path has the same file, last written the same way, on both disks. -/
structure Disk.Same (disk after : Disk) (path : String) : Prop where
  files : after.files path = disk.files path
  written : after.written path = disk.written path

theorem Disk.Same.refl (disk : Disk) (path : String) : disk.Same disk path := ⟨rfl, rfl⟩

theorem Disk.Same.trans {disk middle after : Disk} {path : String} (first : disk.Same middle path)
    (second : middle.Same after path) : disk.Same after path :=
  ⟨second.files.trans first.files, second.written.trans first.written⟩

theorem replace_frame {disk : Disk} {dest path : String} {file : File} {record : Written}
    (notDest : path ≠ dest) (notTmp : path ≠ tmpPath dest) :
    disk.Same (disk.replace dest file record) path := by
  constructor <;> simp [notDest, notTmp]

theorem tmpLeft_frame {disk after : Disk} {dest writer path : String} {fault : Option WriteFault}
    (tmp : TmpLeft disk dest writer fault after) (notTmp : path ≠ tmpPath dest) :
    disk.Same after path := by
  cases tmp <;> constructor <;> simp [notTmp]

variable {m : Manifest}

theorem EntryStep.frame {prev : Option DBEntry} {faults : EntryFaults}
    {entry : TarEntry} {x after : Extraction} {failure : Option Failure} {path : String}
    (effect : EntryStep host m prev faults entry x after failure)
    (untouched : ¬ Touches host m entry path) : x.disk.Same after.disk path := by
  cases effect with
  | skipped | refused | kept => exact .refl _ _
  | plain regular named undeclared | conffile regular named declared free =>
    exact replace_frame (fun here => untouched ⟨regular, _, named, Or.inl here⟩)
      (fun here => untouched ⟨regular, _, named, Or.inr (Or.inl here)⟩)
  | @aside onDevice _ _ _ regular named declared present touched differs =>
    have isConffile : (m.conffileAt onDevice).isSome := by simp [declared]
    exact replace_frame
      (fun here => untouched ⟨regular, _, named, Or.inr (Or.inr ⟨isConffile, Or.inl here⟩)⟩)
      (fun here => untouched ⟨regular, _, named, Or.inr (Or.inr ⟨isConffile, Or.inr here⟩)⟩)
  | unwritten regular named target tmp =>
    apply tmpLeft_frame tmp
    intro here
    rcases target with rfl | ⟨isConffile, rfl⟩
    · exact untouched ⟨regular, _, named, Or.inr (Or.inl here)⟩
    · exact untouched ⟨regular, _, named, Or.inr (Or.inr ⟨isConffile, Or.inr here⟩)⟩

variable {device : Device}

/-- Extracting a payload leaves a path that none of its entries touches. -/
theorem extractPayload_frame {request : InstallRequest}
    {path : String} (untouched : ∀ entry ∈ request.archive.entries, ¬ Touches host m entry path) :
    device.disk.Same (extractPayload host request m device).1.disk path := by
  have along : AtEach host m (device.db.get m.name) request.faults.entry
      (fun _ entry _ => ¬ Touches host m entry path) 0 request.archive.entries
      { disk := device.disk } :=
    atEach_of_forall fun _ entry member _ => untouched entry member
  apply extractPayload_invariant (fun x => device.disk.Same x.disk path) fun _ => along
  · exact .refl _ _
  · intro _ entry x after _ condition inv effect
    exact inv.trans (effect.frame condition)

/-- What is extracted is in the archive. -/
theorem extractPayload_files {request : InstallRequest} {f : String}
    (member : f ∈ (extractPayload host request m device).1.files) :
    ∃ entry ∈ request.archive.entries, Touches host m entry (host.rootJoin f) := by
  have along : AtEach host m (device.db.get m.name) request.faults.entry
      (fun _ entry _ => entry ∈ request.archive.entries) 0 request.archive.entries
      { disk := device.disk } :=
    atEach_of_forall fun _ entry member _ => member
  revert member
  apply extractPayload_invariant (fun x => f ∈ x.files →
    ∃ entry ∈ request.archive.entries, Touches host m entry (host.rootJoin f)) fun _ => along
  · intro member
    cases member
  · intro _ entry x after _ inArchive inv effect member
    cases effect with
    | skipped | refused | unwritten => exact inv member
    | plain regular named | conffile regular named | aside regular named | kept regular named =>
      rcases List.mem_append.1 member with before | now
      · exact inv before
      · rw [List.mem_singleton.1 now]
        exact ⟨entry, inArchive, regular, _, named, Or.inl rfl⟩

/-- An installation leaves every file that its payload does not touch. -/
theorem install_frame {request : InstallRequest} {after : Device} {failure : Option Failure}
    (effect : InstallStep host request device after failure) {path : String}
    (untouched : ∀ m, Begins request device m →
      ∀ entry ∈ request.archive.entries, ¬ Touches host m entry path) :
    after.disk.files path = device.disk.files path := by
  cases effect with
  | refused => rfl
  | half begun | unsaved begun | uncatalogued begun | done begun =>
    exact (extractPayload_frame (untouched _ begun)).files

/-- A removal leaves every file that the entry does not list. -/
theorem remove_frame {request : RemoveRequest} {after : Device} {failure : Option Failure}
    (effect : RemoveStep host request device after failure) {path : String}
    (unlisted : ¬ Owns host device.db request.name path) :
    after.disk.files path = device.disk.files path := by
  have deletes : ∀ e, device.db.get request.name = some e →
      (removeFrom host e request.purge request.faults.file 0 e.files device.disk).1.files path =
        device.disk.files path := by
    intro e found
    rcases removeFrom_frame host e request.purge request.faults.file e.files 0 device.disk path with
      same | ⟨-, -, f, member, -, at_⟩
    · exact same.1
    · exact absurd ⟨e, found, f, member, at_⟩ unlisted
  cases effect with
  | refused => rfl
  | unsaved found | uncatalogued found | done found => exact deletes _ found

/-! ### Packages kept apart -/

/-- No path is listed in two entries. -/
def OwnedOnce (host : Host) (db : DB) : Prop :=
  ∀ first second path, Owns host db first path → Owns host db second path → first = second

/-- The operation is one on the package.  An administrator is free to do anything. -/
def Op.concerns (device : Device) (name : String) : Op → Prop
  | .install request => ∃ m, Begins request device m ∧ m.name = name
  | .remove request => request.name = name
  | .edit _ _ => True

/-- An installation touches no path that another package's entry lists. -/
def Apart (host : Host) (device : Device) : Op → Prop
  | .install request => ∀ m, Begins request device m → ∀ entry ∈ request.archive.entries,
      ∀ path, Touches host m entry path → ∀ other, Owns host device.db other path → other = m.name
  | .remove _ | .edit _ _ => True

/-- No path has two owners, and the operation leaves the file at every path of
the packages it does not concern, and leaves it theirs. -/
def Respects (host : Host) (device : Device) (op : Op) : Prop :=
  OwnedOnce host device.db ∧
    ∀ other path, Owns host device.db other path → ¬ op.concerns device other →
      (step host device op).disk.files path = device.disk.files path ∧
        Owns host (step host device op).db other path

variable {e : DBEntry}

theorem owns_put {db : DB} {name path : String} :
    Owns host (db.put e) name path ↔
      (name = e.name ∧ ∃ f ∈ e.files, host.rootJoin f = path) ∨
        (name ≠ e.name ∧ Owns host db name path) := by
  unfold Owns
  by_cases here : name = e.name
  · subst here
    simp
  · simp [DB.get_put_ne db e here, here]

theorem owns_removed {db : DB} {removedName name path : String} {purge : Bool}
    (keyed : e.name = removedName) :
    Owns host (removed db e removedName purge) name path ↔
      name ≠ removedName ∧ Owns host db name path := by
  subst keyed
  unfold removed
  split
  · by_cases here : name = e.name
    · subst here
      simp [Owns]
    · simp [Owns, DB.get_delete_ne db here, here]
  · rw [owns_put]
    simp

/-- A new entry owns what its archive ships, which nobody else owned. -/
theorem OwnedOnce.put {request : InstallRequest}
    (once : OwnedOnce host device.db) (apart : Apart host device (.install request))
    (begun : Begins request device m) (named : e.name = m.name)
    (files : e.files = (extractPayload host request m device).1.files) :
    OwnedOnce host (device.db.put e) := by
  have fresh : ∀ other path, (∃ f ∈ e.files, host.rootJoin f = path) →
      Owns host device.db other path → other = e.name := by
    rintro other path ⟨f, member, rfl⟩ owned
    rw [files] at member
    obtain ⟨entry, inArchive, touches⟩ := extractPayload_files member
    rw [named]
    exact apart m begun entry inArchive _ touches other owned
  intro first second path firstOwns secondOwns
  rw [owns_put] at firstOwns secondOwns
  rcases firstOwns with ⟨rfl, lists⟩ | ⟨ne, owned⟩ <;>
    rcases secondOwns with ⟨rfl, otherLists⟩ | ⟨otherNe, otherOwned⟩
  · rfl
  · exact (fresh second path lists otherOwned).symm
  · exact fresh first path otherLists owned
  · exact once first second path owned otherOwned

theorem OwnedOnce.removed {db : DB} {e : DBEntry} {name : String} {purge : Bool}
    (once : OwnedOnce host db) (keyed : e.name = name) :
    OwnedOnce host (removed db e name purge) := by
  intro first second path firstOwns secondOwns
  rw [owns_removed keyed] at firstOwns secondOwns
  exact once first second path firstOwns.2 secondOwns.2

theorem OwnedOnce.step {device : Device} {op : Op} (keyed : Keyed device.db)
    (once : OwnedOnce host device.db) (apart : Apart host device op) :
    OwnedOnce host (step host device op).db := by
  unfold HelixKit.Pkg.step
  cases op with
  | install request =>
    obtain ⟨after, failure, performed, effect⟩ := perform_install host request device
    rw [performed]
    cases effect with
    | refused | unsaved => exact once
    | half begun | uncatalogued begun | done begun => exact once.put apart begun rfl rfl
  | remove request =>
    obtain ⟨after, failure, performed, effect⟩ := perform_remove host request device
    rw [performed]
    cases effect with
    | refused | unsaved => exact once
    | uncatalogued found | done found => exact once.removed (keyed _ _ found)
  | edit path file => exact once

theorem Respects.of_apart {op : Op} (keyed : Keyed device.db)
    (once : OwnedOnce host device.db) (apart : Apart host device op) : Respects host device op := by
  refine ⟨once, ?_⟩
  intro other path owned unconcerned
  unfold HelixKit.Pkg.step
  cases op with
  | install request =>
    obtain ⟨after, failure, performed, effect⟩ := perform_install host request device
    rw [performed]
    have stays : ∀ m, Begins request device m → other ≠ m.name := by
      rintro m begun rfl
      exact unconcerned ⟨m, begun, rfl⟩
    constructor
    · apply install_frame effect
      intro m begun entry inArchive touches
      exact stays m begun (apart m begun entry inArchive path touches other owned)
    · cases effect with
      | refused | unsaved => exact owned
      | half begun | uncatalogued begun | done begun =>
        exact owns_put.2 (Or.inr ⟨stays _ begun, owned⟩)
  | remove request =>
    obtain ⟨after, failure, performed, effect⟩ := perform_remove host request device
    rw [performed]
    have ne : other ≠ request.name := fun same => unconcerned same.symm
    constructor
    · apply remove_frame effect
      exact fun listed => ne (once other request.name path owned listed)
    · cases effect with
      | refused | unsaved => exact owned
      | uncatalogued found | done found => exact (owns_removed (keyed _ _ found)).2 ⟨ne, owned⟩
  | edit there file => exact absurd trivial unconcerned

/-- A package of one file, at the place of `x`'s conffile. -/
def yArchive : Archive :=
  { sum := "60303ae22b998861bce3b28f33eec1be758a213c86c93c076dbe9f558c11c752"
    control := some { name := "y", version := "1.0.0", kind := .asset }
    entries := [{ name := "payload" ++ xPath, data := secondDefault }] }

end HelixKit.Pkg
