/-
Purpose: What each operation of the package manager can do to the device, said
  once: one entry of an archive, the extraction of a payload, an installation
  and a removal.
Trusted boundary: none
-/
import HelixKit.Pkg.Manager

namespace HelixKit.Pkg

variable {host : Host}

/-! ### One entry of an archive -/

/-- What a failing write can leave of its temporary file. -/
inductive TmpLeft (disk : Disk) (dest package : String) (fault : Option WriteFault) : Disk → Prop where
  | untouched : TmpLeft disk dest package fault disk
  | cleaned : TmpLeft disk dest package fault (disk.delete (tmpPath dest))
  | left (file : File) (leaves : fault.any WriteFault.leavesTmp = true) :
      TmpLeft disk dest package fault
        (disk.put (tmpPath dest) file ⟨package, file.content, false⟩)

theorem writeFileAtomicBytes_cases (disk : Disk) (dest : String) (mode : Nat) (record : Written)
    (fault : Option WriteFault) :
    writeFileAtomicBytes disk dest mode record fault =
        (disk.replace dest ⟨record.content, mode⟩ record, none) ∨
      ∃ after failure, writeFileAtomicBytes disk dest mode record fault = (after, some failure) ∧
        fault ≠ none ∧ TmpLeft disk dest record.package fault after := by
  cases fault with
  | none => exact Or.inl rfl
  | some fault =>
    right
    cases fault with
    | openTmp cause => exact ⟨_, _, rfl, by simp, .untouched⟩
    | writeTmp part cause => exact ⟨_, _, rfl, by simp, .left ⟨part, mode⟩ rfl⟩
    | chmod removed cause =>
      cases removed with
      | true => exact ⟨_, _, rfl, by simp, .cleaned⟩
      | false => exact ⟨_, _, rfl, by simp, .left ⟨record.content, mode⟩ rfl⟩
    | rename cause => exact ⟨_, _, rfl, by simp, .left ⟨record.content, mode⟩ rfl⟩

/-- What one pass of the loop of `extractPayload` can do. -/
inductive EntryStep (host : Host) (m : Manifest) (prev : Option DBEntry) (faults : EntryFaults)
    (entry : TarEntry) (x : Extraction) : Extraction → Option Failure → Prop where
  /-- A directory, or an entry outside the payload. -/
  | skipped (other : entry.onDevice = none ∨ entry.type = .dir) :
      EntryStep host m prev faults entry x x none
  /-- It fails before it writes. -/
  | refused {failure : Failure} : EntryStep host m prev faults entry x x (some failure)
  | plain {onDevice : String} {mode : Nat} (regular : entry.type = .regular)
      (named : entry.onDevice = some onDevice)
      (undeclared : m.conffileAt onDevice = none) :
      EntryStep host m prev faults entry x
        { x with
          disk := x.disk.replace (host.rootJoin onDevice) ⟨entry.data, mode⟩
            ⟨m.name, entry.data, false⟩
          files := x.files ++ [onDevice] } none
  /-- A conffile that is absent, or the package's own. -/
  | conffile {onDevice : String} {mode : Nat} {c : Conffile} (regular : entry.type = .regular)
      (named : entry.onDevice = some onDevice)
      (declared : m.conffileAt onDevice = some c)
      (free : ∀ current, x.disk.files (host.rootJoin onDevice) = some current →
        untouched host prev onDevice current = true) :
      EntryStep host m prev faults entry x
        { disk := x.disk.replace (host.rootJoin onDevice) ⟨entry.data, mode⟩
            ⟨m.name, entry.data, true⟩
          files := x.files ++ [onDevice]
          conf := x.conf ++ [⟨onDevice, host.sha256 entry.data, host.sha256 entry.data⟩] } none
  /-- A conffile that stays, with the shipped one dropped beside it. -/
  | aside {onDevice : String} {mode : Nat} {c : Conffile} {current : File}
      (regular : entry.type = .regular) (named : entry.onDevice = some onDevice)
      (declared : m.conffileAt onDevice = some c)
      (present : x.disk.files (host.rootJoin onDevice) = some current)
      (touched : untouched host prev onDevice current = false)
      (differs : host.sha256 current.content ≠ host.sha256 entry.data) :
      EntryStep host m prev faults entry x
        { disk := x.disk.replace (newPath (host.rootJoin onDevice)) ⟨entry.data, mode⟩
            ⟨m.name, entry.data, false⟩
          files := x.files ++ [onDevice]
          conf := x.conf ++
            [⟨onDevice, host.sha256 current.content, host.sha256 entry.data⟩] } none
  /-- A conffile that stays, since it is the shipped one. -/
  | kept {onDevice : String} {c : Conffile} {current : File}
      (regular : entry.type = .regular) (named : entry.onDevice = some onDevice)
      (declared : m.conffileAt onDevice = some c)
      (present : x.disk.files (host.rootJoin onDevice) = some current)
      (touched : untouched host prev onDevice current = false)
      (same : host.sha256 current.content = host.sha256 entry.data) :
      EntryStep host m prev faults entry x
        { disk := x.disk
          files := x.files ++ [onDevice]
          conf := x.conf ++
            [⟨onDevice, host.sha256 current.content, host.sha256 entry.data⟩] } none
  /-- The write of the file, or of the conffile beside it, fails. -/
  | unwritten {onDevice dest : String} {disk : Disk} {failure : Failure}
      (regular : entry.type = .regular) (named : entry.onDevice = some onDevice)
      (target : dest = host.rootJoin onDevice ∨
        (m.conffileAt onDevice).isSome ∧ dest = newPath (host.rootJoin onDevice))
      (tmp : TmpLeft x.disk dest m.name faults.write disk) :
      EntryStep host m prev faults entry x { x with disk } (some failure)

theorem applyConffile_step (m : Manifest) (prev : Option DBEntry) (faults : EntryFaults)
    (entry : TarEntry) (x : Extraction) {onDevice : String} {c : Conffile}
    (regular : entry.type = .regular) (named : entry.onDevice = some onDevice)
    (declared : m.conffileAt onDevice = some c) :
    let result := x.settle onDevice
      (applyConffile host x.disk m.name onDevice entry.data c prev faults)
    EntryStep host m prev faults entry x result.1 result.2 := by
  have writes := writeFileAtomicBytes_cases x.disk (host.rootJoin onDevice) (parseMode c.mode 0o640)
    ⟨m.name, entry.data, true⟩ faults.write
  have writesNew := writeFileAtomicBytes_cases x.disk (newPath (host.rootJoin onDevice))
    (parseMode c.mode 0o640) ⟨m.name, entry.data, false⟩ faults.write
  unfold applyConffile
  dsimp only
  cases faults.current with
  | some cause => exact .refused
  | none =>
    cases present : x.disk.files (host.rootJoin onDevice) with
    | none =>
      rcases writes with done | ⟨after, failure, failed, -, tmp⟩
      · simp only [done]
        exact .conffile regular named declared (by simp [present])
      · simp only [failed]
        exact .unwritten regular named (Or.inl rfl) tmp
    | some current =>
      cases touched : untouched host prev onDevice current with
      | true =>
        simp only [touched, ↓reduceIte]
        rcases writes with done | ⟨after, failure, failed, -, tmp⟩
        · simp only [done]
          exact .conffile regular named declared (by simp [present, touched])
        · simp only [failed]
          exact .unwritten regular named (Or.inl rfl) tmp
      | false =>
        by_cases same : host.sha256 current.content = host.sha256 entry.data
        · simp only [touched, same, ne_eq, not_true_eq_false, ↓reduceIte, Bool.false_eq_true]
          have step : EntryStep host m prev faults entry x _ none :=
            .kept regular named declared present touched same
          rwa [same] at step
        · simp only [touched, same, ne_eq, not_false_eq_true, ↓reduceIte, Bool.false_eq_true]
          rcases writesNew with done | ⟨after, failure, failed, -, tmp⟩
          · simp only [done]
            exact .aside regular named declared present touched same
          · simp only [failed]
            exact .unwritten regular named (Or.inr ⟨by simp [declared], rfl⟩) tmp

theorem extractEntry_step (host : Host) (m : Manifest) (prev : Option DBEntry) (faults : EntryFaults)
    (entry : TarEntry) (x : Extraction) :
    EntryStep host m prev faults entry x (extractEntry host m prev faults entry x).1
      (extractEntry host m prev faults entry x).2 := by
  unfold extractEntry
  dsimp only
  cases faults.next with
  | some cause => exact .refused
  | none =>
    cases named : entry.onDevice with
    | none => exact .skipped (Or.inl named)
    | some onDevice =>
      cases type : entry.type with
      | dir =>
        cases faults.mkdir with
        | none => exact .skipped (Or.inr type)
        | some cause => exact .refused
      | other flag => exact .refused
      | regular =>
        cases faults.read.or faults.mkdir with
        | some cause => exact .refused
        | none =>
          dsimp only
          cases declared : m.conffileAt onDevice with
          | some c => exact applyConffile_step m prev faults entry x type named declared
          | none =>
            rcases writeFileAtomicBytes_cases x.disk (host.rootJoin onDevice)
                (if entry.mode % 0o1000 = 0 then 0o644 else entry.mode % 0o1000)
                ⟨m.name, entry.data, false⟩ faults.write with
              done | ⟨after, failure, failed, -, tmp⟩
            · simp only [done]
              exact .plain type named declared
            · simp only [failed]
              exact .unwritten type named (Or.inl rfl) tmp

/-! ### The extraction of a payload -/

/-- `Condition` holds of every entry of the archive that the extraction reaches,
with what fails there, in the state in which it reaches the entry. -/
def AtEach (host : Host) (m : Manifest) (prev : Option DBEntry) (faults : Nat → EntryFaults)
    (Condition : EntryFaults → TarEntry → Extraction → Prop) :
    Nat → List TarEntry → Extraction → Prop
  | _, [], _ => True
  | i, entry :: rest, x =>
    Condition (faults i) entry x ∧
      match extractEntry host m prev (faults i) entry x with
      | (after, none) => AtEach host m prev faults Condition (i + 1) rest after
      | (_, some _) => True

variable {m : Manifest} {Condition : EntryFaults → TarEntry → Extraction → Prop}

/-- What every entry under the condition keeps, the extraction keeps. -/
theorem AtEach.invariant {prev : Option DBEntry} {faults : Nat → EntryFaults}
    (Inv : Extraction → Prop)
    (keeps : ∀ faults entry x after failure, Condition faults entry x → Inv x →
      EntryStep host m prev faults entry x after failure → Inv after)
    {entries : List TarEntry} {i : Nat} {x : Extraction} (start : Inv x)
    (along : AtEach host m prev faults Condition i entries x) :
    Inv (extractFrom host m prev faults i entries x).1 := by
  induction entries generalizing i x with
  | nil => exact start
  | cons entry rest ih =>
    obtain ⟨now, later⟩ := along
    have step := extractEntry_step host m prev (faults i) entry x
    have kept := keeps _ _ _ _ _ now start step
    unfold extractFrom
    rcases result : extractEntry host m prev (faults i) entry x with ⟨after, _ | failure⟩
    · rw [result] at kept later
      exact ih kept later
    · rw [result] at kept
      exact kept

theorem atEach_of_forall {prev : Option DBEntry} {faults : Nat → EntryFaults}
    {entries : List TarEntry}
    (holds : ∀ faults, ∀ entry ∈ entries, ∀ x, Condition faults entry x) {i : Nat}
    {x : Extraction} : AtEach host m prev faults Condition i entries x := by
  induction entries generalizing i x with
  | nil => trivial
  | cons entry rest ih =>
    refine ⟨holds _ _ List.mem_cons_self _, ?_⟩
    split
    · exact ih fun faults other member => holds faults other (List.mem_cons_of_mem _ member)
    · trivial

/-- The extraction of a request's payload keeps what each of its entries keeps. -/
theorem extractPayload_invariant {request : InstallRequest} {device : Device}
    (Inv : Extraction → Prop) (along : request.faults.payload = none →
      AtEach host m (device.db.get m.name) request.faults.entry Condition 0
        request.archive.entries { disk := device.disk })
    (start : Inv { disk := device.disk })
    (keeps : ∀ faults entry x after failure, Condition faults entry x → Inv x →
      EntryStep host m (device.db.get m.name) faults entry x after failure → Inv after) :
    Inv (extractPayload host request m device).1 := by
  unfold extractPayload
  cases opened : request.faults.payload with
  | some cause => exact start
  | none => exact (along opened).invariant Inv keeps start

/-! ### Install -/

/-- `Install` gets as far as the payload. -/
structure Begins (request : InstallRequest) (device : Device) (m : Manifest) : Prop where
  checked : checkPackage request device.db = .ok m
  prepared : (prepare request m device).2 = none

theorem Begins.unique {request : InstallRequest} {device : Device} {other : Manifest}
    (begun : Begins request device m) (too : Begins request device other) : other = m :=
  Except.ok.inj (too.checked.symm.trans begun.checked)

/-- What `Install` can do. -/
inductive InstallStep (host : Host) (request : InstallRequest) (device : Device) :
    Device → Option Failure → Prop where
  /-- It fails before it extracts the payload. -/
  | refused {failure : Failure} {ran : List ScriptRun} :
      InstallStep host request device { device with ran } (some failure)
  /-- It fails after it began to extract the payload, and says so in the database. -/
  | half {m : Manifest} {failure : Failure} {ran : List ScriptRun}
      (begun : Begins request device m)
      (failed : (unpack host request m device).2.2 = some failure)
      (saved : request.faults.saveDB = none) :
      InstallStep host request device
        { device with
          disk := (extractPayload host request m device).1.disk
          db := device.db.put
            (halfInstalled request m (extractPayload host request m device).1.files)
          ran } (some failure)
  /-- It extracts the payload, or a part of it, and cannot save the database. -/
  | unsaved {m : Manifest} {failure : Failure} {ran : List ScriptRun}
      (begun : Begins request device m)
      (unsaved : request.faults.saveDB ≠ none) :
      InstallStep host request device
        { device with disk := (extractPayload host request m device).1.disk, ran } (some failure)
  /-- It saves the database, and cannot save the catalog. -/
  | uncatalogued {m : Manifest} {failure : Failure} {ran : List ScriptRun}
      (begun : Begins request device m) (unpacked : (unpack host request m device).2.2 = none)
      (saved : request.faults.saveDB = none) (unsaved : request.faults.saveCatalog ≠ none) :
      InstallStep host request device
        { device with
          disk := (extractPayload host request m device).1.disk
          db := device.db.put (configured request m (extractPayload host request m device).1)
          ran } (some failure)
  | done {m : Manifest} {ran : List ScriptRun}
      (begun : Begins request device m) (unpacked : (unpack host request m device).2.2 = none)
      (saved : request.faults.saveDB = none) :
      InstallStep host request device
        { disk := (extractPayload host request m device).1.disk
          db := device.db.put (configured request m (extractPayload host request m device).1)
          catalog := catalogOf
            (device.db.put (configured request m (extractPayload host request m device).1))
          ran } none

theorem unpack_extraction (host : Host) (request : InstallRequest) (m : Manifest) (device : Device) :
    (unpack host request m device).1 = (extractPayload host request m device).1 := by
  unfold unpack
  rcases extractPayload host request m device with ⟨x, _ | failure⟩
  · dsimp only
    split <;> rfl
  · rfl

theorem unpack_ok {request : InstallRequest} {device : Device}
    (ok : (unpack host request m device).2.2 = none) :
    (extractPayload host request m device).2 = none := by
  unfold unpack at ok
  rcases extracted : extractPayload host request m device with ⟨x, _ | failure⟩
  · rfl
  · rw [extracted] at ok
    cases ok

theorem install_step (host : Host) (request : InstallRequest) (device : Device) :
    InstallStep host request device (install host request device).1
      (install host request device).2 := by
  unfold install
  cases checked : checkPackage request device.db with
  | error failure => exact .refused
  | ok m =>
    dsimp only [installChecked]
    rcases prepared : prepare request m device with ⟨ran, _ | failure⟩
    · have begun : Begins request device m := ⟨checked, by rw [prepared]⟩
      have extraction := unpack_extraction host request m device
      rcases unpacked : unpack host request m device with ⟨x, more, _ | failure⟩
      · have ok : (unpack host request m device).2.2 = none := by rw [unpacked]
        rw [unpacked] at extraction
        dsimp only at extraction ⊢
        rw [extraction]
        cases saved : request.faults.saveDB with
        | some cause => exact .unsaved begun (by simp [saved])
        | none =>
          cases catalogued : request.faults.saveCatalog with
          | some cause => exact .uncatalogued begun ok saved (by simp [catalogued])
          | none => exact .done begun ok saved
      · rw [unpacked] at extraction
        dsimp only at extraction ⊢
        rw [extraction]
        cases saved : request.faults.saveDB with
        | some cause => exact .unsaved begun (by simp [saved])
        | none => exact .half begun (by rw [unpacked]) saved
    · exact .refused

/-! ### Remove -/

/-- What a removal does to a path, also when it fails on the way. -/
theorem removeFrom_frame (host : Host) (e : DBEntry) (purge : Bool) (faults : Nat → Option String)
    (files : List String) (i : Nat) (disk : Disk) (path : String) :
    let after := (removeFrom host e purge faults i files disk).1
    (after.files path = disk.files path ∧ after.written path = disk.written path) ∨
      (after.files path = none ∧ after.written path = none ∧
        ∃ f ∈ files, e.keeps purge f = false ∧ host.rootJoin f = path) := by
  induction files generalizing i disk with
  | nil => exact Or.inl ⟨rfl, rfl⟩
  | cons f rest ih =>
    unfold removeFrom
    have later := ih (i + 1)
    split
    · rcases later disk with same | ⟨gone, unwritten, g, member, dropped, at_⟩
      · exact Or.inl same
      · exact Or.inr ⟨gone, unwritten, g, List.mem_cons_of_mem _ member, dropped, at_⟩
    next dropped =>
    split
    · exact Or.inl ⟨rfl, rfl⟩
    rcases later (disk.delete (host.rootJoin f)) with
      same | ⟨gone, unwritten, g, member, dropped, at_⟩
    · by_cases here : path = host.rootJoin f
      · right
        subst here
        simp only [Disk.files_delete, Disk.written_delete, ↓reduceIte] at same
        exact ⟨same.1, same.2, f, List.mem_cons_self, by simpa using dropped, rfl⟩
      · left
        simpa [here] using same
    · exact Or.inr ⟨gone, unwritten, g, List.mem_cons_of_mem _ member, dropped, at_⟩

/-- A removal that does not fail deletes every file it does not keep. -/
theorem removeFrom_done {e : DBEntry} {purge : Bool} {faults : Nat → Option String}
    {files : List String} {i : Nat} {disk : Disk}
    (done : (removeFrom host e purge faults i files disk).2 = none) {f : String}
    (member : f ∈ files) (dropped : e.keeps purge f = false) :
    (removeFrom host e purge faults i files disk).1.files (host.rootJoin f) = none := by
  induction files generalizing i disk with
  | nil => cases member
  | cons g rest ih =>
    unfold removeFrom at done ⊢
    rcases List.mem_cons.1 member with rfl | later
    · simp only [dropped, Bool.false_eq_true, ↓reduceIte] at done ⊢
      split at done
      · cases done
      · rcases removeFrom_frame host e purge faults rest (i + 1)
            (disk.delete (host.rootJoin f)) (host.rootJoin f) with same | ⟨gone, -⟩
        · rw [same.1]
          simp
        · exact gone
    · split at done
      · next kept =>
        rw [if_pos kept]
        exact ih done later
      next dropped =>
      rw [if_neg dropped]
      split at done
      · cases done
      · exact ih done later

/-- What `Remove` can do. -/
inductive RemoveStep (host : Host) (request : RemoveRequest) (device : Device) :
    Device → Option Failure → Prop where
  | refused {failure : Failure} : RemoveStep host request device device (some failure)
  /-- It fails at a file, or cannot save the database. -/
  | unsaved {e : DBEntry} {failure : Failure} (found : device.db.get request.name = some e) :
      RemoveStep host request device
        { device with
          disk := (removeFrom host e request.purge request.faults.file 0 e.files device.disk).1 }
        (some failure)
  | uncatalogued {e : DBEntry} {failure : Failure} (found : device.db.get request.name = some e)
      (deleted : (removeFrom host e request.purge request.faults.file 0 e.files device.disk).2 = none)
      (saved : request.faults.saveDB = none) (unsaved : request.faults.saveCatalog ≠ none) :
      RemoveStep host request device
        { device with
          disk := (removeFrom host e request.purge request.faults.file 0 e.files device.disk).1
          db := removed device.db e request.name request.purge } (some failure)
  | done {e : DBEntry} (found : device.db.get request.name = some e)
      (deleted : (removeFrom host e request.purge request.faults.file 0 e.files device.disk).2 = none) :
      RemoveStep host request device
        { device with
          disk := (removeFrom host e request.purge request.faults.file 0 e.files device.disk).1
          db := removed device.db e request.name request.purge
          catalog := catalogOf (removed device.db e request.name request.purge) } none

theorem remove_step (host : Host) (request : RemoveRequest) (device : Device) :
    RemoveStep host request device (remove host request device).1 (remove host request device).2 := by
  unfold remove
  cases request.faults.loadDB with
  | some cause => exact .refused
  | none =>
    cases found : device.db.get request.name with
    | none => exact .refused
    | some e =>
      dsimp only
      rcases result : removeFrom host e request.purge request.faults.file 0 e.files device.disk
        with ⟨disk, _ | failure⟩
      · have deleted : (removeFrom host e request.purge request.faults.file 0 e.files
            device.disk).2 = none := by rw [result]
        have at_ : disk = (removeFrom host e request.purge request.faults.file 0 e.files
            device.disk).1 := by rw [result]
        rw [at_]
        dsimp only
        cases saved : request.faults.saveDB with
        | some cause => exact .unsaved found
        | none =>
          cases catalogued : request.faults.saveCatalog with
          | some cause => exact .uncatalogued found deleted saved (by simp [catalogued])
          | none => exact .done found deleted
      · have at_ : disk = (removeFrom host e request.purge request.faults.file 0 e.files
            device.disk).1 := by rw [result]
        rw [at_]
        exact .unsaved found

theorem perform_install (host : Host) (request : InstallRequest) (device : Device) :
    ∃ after failure, perform host device (.install request) = (after, failure) ∧
      InstallStep host request device after failure :=
  ⟨_, _, rfl, install_step host request device⟩

theorem perform_remove (host : Host) (request : RemoveRequest) (device : Device) :
    ∃ after failure, perform host device (.remove request) = (after, failure) ∧
      RemoveStep host request device after failure :=
  ⟨_, _, rfl, remove_step host request device⟩

/-- What a removal leaves of the other entries. -/
theorem removed_get_ne {db : DB} {e : DBEntry} {name other : String} {purge : Bool}
    (keyed : e.name = name) (ne : other ≠ name) : (removed db e name purge).get other = db.get other := by
  unfold removed
  split
  · exact DB.get_delete_ne db ne
  · exact DB.get_put_ne db _ (by simpa [keyed] using ne)

end HelixKit.Pkg
