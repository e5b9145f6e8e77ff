/-
Purpose: The conffiles an administrator has changed: as long as the hashes in the database tell them
  from those left alone, an installation keeps them.
Trusted boundary: none
Main exports: conffiles_preserved
-/
import HelixKit.Pkg.Ownership

namespace HelixKit.Pkg

open HelixKit.Runs

variable {host : Host}

/-- The path holds a conffile whose content is not what its package last wrote. -/
def Disk.modified (disk : Disk) (path : String) : Bool :=
  match disk.written path, disk.files path with
  | some w, some file => w.conffile && file.content ≠ w.content
  | _, _ => false

theorem Disk.modified_iff {disk : Disk} {path : String} :
    disk.modified path = true ↔ ∃ w file, disk.written path = some w ∧
      disk.files path = some file ∧ w.conffile = true ∧ file.content ≠ w.content := by
  unfold Disk.modified
  cases disk.written path <;> cases disk.files path <;> simp

theorem Disk.Same.modified {disk after : Disk} {path : String} (same : disk.Same after path) :
    after.modified path = disk.modified path := by
  unfold Disk.modified
  rw [same.files, same.written]

/-- The hashes in the database tell whether a conffile with this content, last
written as `w`, was changed: no package takes a changed one for its own, and the
package that wrote it takes an unchanged one for its own. -/
structure Discerns (host : Host) (db : DB) (path : String) (w : Written) (content : Bytes) :
    Prop where
  changed : content ≠ w.content → ∀ name e f st, db.get name = some e → e.conffileAt f = some st →
    host.rootJoin f = path → host.sha256 content ≠ st.defaultSHA
  unchanged : content = w.content → ∀ e f st, db.get w.package = some e → e.conffileAt f = some st →
    host.rootJoin f = path → host.sha256 content = st.defaultSHA

/-- The hashes in the database tell of every conffile whether it was changed. -/
def Discerning (host : Host) (disk : Disk) (db : DB) : Prop :=
  ∀ path w file, disk.written path = some w → w.conffile = true → disk.files path = some file →
    Discerns host db path w file.content

/-! ### The operations that keep the hashes telling -/

/-- A path that extracting the entry can write over without asking what is there. -/
def Overwrites (host : Host) (m : Manifest) (entry : TarEntry) (path : String) : Prop :=
  entry.type = .regular ∧ ∃ f, entry.onDevice = some f ∧
    let dest := host.rootJoin f
    path = tmpPath dest ∨
      match m.conffileAt f with
      | none => path = dest
      | some _ => path = newPath dest ∨ path = tmpPath (newPath dest)

/-- The entry ships a conffile at this place. -/
def ShipsConffile (m : Manifest) (entry : TarEntry) (f : String) : Prop :=
  entry.type = .regular ∧ entry.onDevice = some f ∧ (m.conffileAt f).isSome

/-- The second entry touches neither the first's conffile nor the copy beside it. -/
def Separate (host : Host) (m : Manifest) (first second : TarEntry) : Prop :=
  ∀ f, ShipsConffile m first f → ¬ Touches host m second (host.rootJoin f) ∧
    ¬ Touches host m second (newPath (host.rootJoin f))

/-- The hash of a conffile that is written is the recorded one already. -/
def RecordsAlready (host : Host) (m : Manifest) (prev : Option DBEntry) (entry : TarEntry)
    (x : Extraction) : Prop :=
  ∀ f, ShipsConffile m entry f →
    (∀ current, x.disk.files (host.rootJoin f) = some current →
      untouched host prev f current = true) →
    ∀ e g st, prev = some e → e.conffileAt g = some st → host.rootJoin g = host.rootJoin f →
      host.sha256 entry.data = st.defaultSHA

/-- What is asked of a conffile that is shipped, in the state before the
installation: a changed one is not the one shipped, and an unchanged one of this
package is recorded or is the one shipped. -/
def Foreseen (host : Host) (m : Manifest) (disk : Disk) (prev : Option DBEntry) (entry : TarEntry)
    (f : String) : Prop :=
  ∀ w current, disk.written (host.rootJoin f) = some w → w.conffile = true →
    disk.files (host.rootJoin f) = some current →
      (current.content ≠ w.content → host.sha256 current.content ≠ host.sha256 entry.data) ∧
      (current.content = w.content → w.package = m.name →
        (prev.bind fun e => e.conffileAt f).isSome ∨ current.content = entry.data)

/-- An installation that leaves changed conffiles alone, and leaves hashes in the
database by which they can be told from the others. -/
structure CarefulInstall (host : Host) (m : Manifest) (request : InstallRequest) (device : Device) :
    Prop where
  /-- It writes over no changed conffile. -/
  spares : request.faults.payload = none →
    AtEach host m (device.db.get m.name) request.faults.entry
      (fun _ entry x => ∀ path, Overwrites host m entry path → x.disk.modified path = false) 0
      request.archive.entries { disk := device.disk }
  /-- When the database cannot be saved, it is right about the conffiles already. -/
  unsaved : request.faults.payload = none →
    AtEach host m (device.db.get m.name) request.faults.entry
      (fun _ entry x => request.faults.saveDB ≠ none →
        RecordsAlready host m (device.db.get m.name) entry x) 0
      request.archive.entries { disk := device.disk }
  /-- The archive has one file at a place. -/
  separate : (unpack host request m device).2.2 = none → request.faults.saveDB = none →
    request.archive.entries.Pairwise fun a b => Separate host m a b ∧ Separate host m b a
  /-- It finds each conffile as its record foresees. -/
  discerned : (unpack host request m device).2.2 = none → request.faults.saveDB = none →
    ∀ entry ∈ request.archive.entries, ∀ f, ShipsConffile m entry f →
      Foreseen host m device.disk (device.db.get m.name) entry f

/-- An operation that leaves changed conffiles alone. -/
def Careful (host : Host) (device : Device) : Op → Prop
  | .install request => ∀ m, Begins request device m → CarefulInstall host m request device
  | .remove request => request.purge = false → ∀ e, device.db.get request.name = some e →
      ∀ f ∈ e.files, e.keeps false f = false → device.disk.modified (host.rootJoin f) = false
  | .edit path file => ∀ new w, file = some new → device.disk.written path = some w →
      w.conffile = true → Discerns host device.db path w new.content

/-- What an installation that succeeds makes of a conffile: one left alone gets
the new content, and a changed one gets it beside it. -/
def Settled (host : Host) (m : Manifest) (before after : Disk) (entry : TarEntry) (f : String) :
    Prop :=
  ∀ w current, before.written (host.rootJoin f) = some w → w.conffile = true →
    before.files (host.rootJoin f) = some current →
      (w.package = m.name → current.content = w.content →
        (after.files (host.rootJoin f)).map (·.content) = some entry.data) ∧
      (current.content ≠ w.content →
        (after.files (newPath (host.rootJoin f))).map (·.content) = some entry.data)

/-- What is asked of an operation on conffiles: only a purge takes a changed one
away, and an installation that succeeds settles every conffile that it ships. -/
def Preserves (host : Host) (device : Device) : Op → Prop
  | .install request =>
    (∀ path, device.disk.modified path = true →
      (install host request device).1.disk.files path = device.disk.files path) ∧
    ((install host request device).2 = none → ∀ m, Begins request device m →
      ∀ entry ∈ request.archive.entries, ∀ f, ShipsConffile m entry f →
        Settled host m device.disk (install host request device).1.disk entry f)
  | .remove request => request.purge = false →
      ∀ path, device.disk.modified path = true →
        (remove host request device).1.disk.files path = device.disk.files path
  | .edit _ _ => True

/-! ### A changed conffile is spared -/

variable {prev : Option DBEntry} {f : String}

theorem untouched_iff {current : File} :
    untouched host prev f current = true ↔ ∃ e st, prev = some e ∧ e.conffileAt f = some st ∧
      host.sha256 current.content = st.defaultSHA := by
  unfold untouched defaultSHA
  cases prev with
  | none => simp
  | some e =>
    cases recorded : e.conffileAt f with
    | none => simp [recorded]
    | some st =>
      simp only [Option.bind_some, recorded, Bool.and_eq_true, decide_eq_true_eq, ne_eq]
      constructor
      · rintro ⟨-, same⟩
        exact ⟨e, st, rfl, recorded, same⟩
      · rintro ⟨_, _, ⟨⟩, found, same⟩
        rw [recorded] at found
        cases found
        exact ⟨fun empty => host.sha256_ne _ (same.trans empty), same⟩

theorem EntryStep.spares {m : Manifest} {prev : Option DBEntry} {faults : EntryFaults}
    {entry : TarEntry} {x after : Extraction} {failure : Option Failure} {path : String}
    (effect : EntryStep host m prev faults entry x after failure)
    (spares : ∀ path, Overwrites host m entry path → x.disk.modified path = false)
    (changed : x.disk.modified path = true)
    (told : ∀ f, host.rootJoin f = path → ∀ current, x.disk.files path = some current →
      untouched host prev f current = false) : x.disk.Same after.disk path := by
  have apart : ∀ q, Overwrites host m entry q → path ≠ q := by
    rintro q overwritten rfl
    rw [spares _ overwritten] at changed
    cases changed
  cases effect with
  | skipped | refused | kept => exact .refl _ _
  | plain regular named undeclared =>
    apply replace_frame
    · exact apart _ ⟨regular, _, named, Or.inr (by simp [undeclared])⟩
    · exact apart _ ⟨regular, _, named, Or.inl rfl⟩
  | conffile regular named declared free =>
    apply replace_frame
    · rintro rfl
      obtain ⟨w, current, -, present, -⟩ := Disk.modified_iff.1 changed
      have touched := told _ rfl current present
      rw [free current present] at touched
      cases touched
    · exact apart _ ⟨regular, _, named, Or.inl rfl⟩
  | aside regular named declared present touched differs =>
    apply replace_frame
    · exact apart _ ⟨regular, _, named, Or.inr (by simp [declared])⟩
    · exact apart _ ⟨regular, _, named, Or.inr (by simp [declared])⟩
  | unwritten regular named target tmp =>
    apply tmpLeft_frame tmp
    rcases target with rfl | ⟨isConffile, rfl⟩
    · exact apart _ ⟨regular, _, named, Or.inl rfl⟩
    · obtain ⟨c, declared⟩ := Option.isSome_iff_exists.1 isConffile
      exact apart _ ⟨regular, _, named, Or.inr (by simp [declared])⟩

variable {device : Device}

/-- Extracting the payload leaves a changed conffile. -/
theorem CarefulInstall.spared {m : Manifest} {request : InstallRequest}
    {path : String} (careful : CarefulInstall host m request device)
    (discerning : Discerning host device.disk device.db)
    (changed : device.disk.modified path = true) :
    device.disk.Same (extractPayload host request m device).1.disk path := by
  apply extractPayload_invariant (fun x => device.disk.Same x.disk path) careful.spares
  · exact .refl _ _
  · intro _ entry x after _ spares same effect
    refine same.trans (effect.spares spares (by rw [same.modified, changed]) ?_)
    intro f at_ current present
    by_contra own
    obtain ⟨e, st, found, recorded, hash⟩ := untouched_iff.1 (by simpa using own)
    obtain ⟨w, file, written, there, conffile, differs⟩ := Disk.modified_iff.1 changed
    rw [same.files, there] at present
    cases present
    exact (discerning path w current written conffile there).changed differs m.name e f st found
      recorded at_ hash

/-! ### What the extraction of a payload makes of a path -/

/-- What has become of a path: it is as before, or its conffile has been written
now, or no conffile was written there last. -/
inductive Fate (host : Host) (m : Manifest) (prev : Option DBEntry) (unsaved : Prop)
    (before after : Disk) (path : String) : Prop where
  | same (same : before.Same after path)
  | fresh {w : Written} {file : File} (written : after.written path = some w)
      (there : after.files path = some file) (own : w.package = m.name)
      (content : file.content = w.content)
      (recorded : unsaved → ∀ e g st, prev = some e → e.conffileAt g = some st →
        host.rootJoin g = path → host.sha256 file.content = st.defaultSHA)
  | plain (plain : ∀ w, after.written path = some w → w.conffile = false)

theorem Fate.later {m : Manifest} {unsaved : Prop} {before middle after : Disk} {path : String}
    (fate : Fate host m prev unsaved before middle path) (same : middle.Same after path) :
    Fate host m prev unsaved before after path := by
  cases fate with
  | same earlier => exact .same (earlier.trans same)
  | fresh written there own content recorded =>
    exact .fresh (same.written.trans written) (same.files.trans there) own content recorded
  | plain plain => exact .plain fun w written => plain w (same.written.symm.trans written)

theorem Fate.replace {m : Manifest} {prev : Option DBEntry} {unsaved : Prop}
    {before middle : Disk} {path dest : String} {file : File} {record : Written}
    (fate : Fate host m prev unsaved before middle path)
    (there : path = dest → Fate host m prev unsaved before (middle.replace dest file record) path) :
    Fate host m prev unsaved before (middle.replace dest file record) path := by
  by_cases here : path = dest
  · exact there here
  by_cases tmp : path = tmpPath dest
  · apply Fate.plain
    intro w written
    simp [tmp] at written
  · exact fate.later (replace_frame here tmp)

/-- A file written as no conffile. -/
theorem Fate.replace_plain {m : Manifest} {unsaved : Prop}
    {before middle : Disk} {path dest : String} {file : File} {package : String} {content : Bytes}
    (fate : Fate host m prev unsaved before middle path) :
    Fate host m prev unsaved before (middle.replace dest file ⟨package, content, false⟩) path := by
  apply fate.replace
  rintro rfl
  apply Fate.plain
  intro w written
  simp only [Disk.written_replace, ↓reduceIte, Option.some.injEq] at written
  rw [← written]

theorem Fate.entry {m : Manifest} {prev : Option DBEntry} {unsaved : Prop} {before : Disk}
    {faults : EntryFaults} {entry : TarEntry} {x after : Extraction} {failure : Option Failure}
    {path : String} (records : unsaved → RecordsAlready host m prev entry x)
    (fate : Fate host m prev unsaved before x.disk path)
    (effect : EntryStep host m prev faults entry x after failure) :
    Fate host m prev unsaved before after.disk path := by
  cases effect with
  | skipped | refused | kept => exact fate
  | plain | aside => exact fate.replace_plain
  | @conffile f _ _ regular named declared free =>
    apply fate.replace
    rintro rfl
    refine .fresh (by rw [Disk.written_replace, if_pos rfl])
      (by rw [Disk.files_replace, if_pos rfl]) rfl rfl ?_
    intro notSaved e g st found recorded at_
    exact records notSaved f ⟨regular, named, by simp [declared]⟩ free e g st found recorded at_
  | @unwritten _ dest _ _ _ _ _ tmp =>
    by_cases here : path = tmpPath dest
    · cases tmp with
      | untouched => exact fate
      | cleaned =>
        apply Fate.plain
        intro w written
        simp [here] at written
      | left file leaves =>
        apply Fate.plain
        intro w written
        simp only [here, Disk.written_put, ↓reduceIte, Option.some.injEq] at written
        rw [← written]
    · exact fate.later (tmpLeft_frame tmp here)

theorem CarefulInstall.fate {m : Manifest} {request : InstallRequest} {device : Device}
    (careful : CarefulInstall host m request device) (path : String) :
    Fate host m (device.db.get m.name) (request.faults.saveDB ≠ none) device.disk
      (extractPayload host request m device).1.disk path := by
  apply extractPayload_invariant (fun x => Fate host m (device.db.get m.name)
    (request.faults.saveDB ≠ none) device.disk x.disk path) careful.unsaved
  · exact .same (.refl _ _)
  · intro _ entry x after _ records fate effect
    exact fate.entry records effect

/-! ### The hashes after an installation -/

theorem conffileAt_mem {e : DBEntry} {st : ConffileState}
    (found : e.conffileAt f = some st) : st ∈ e.conffiles ∧ st.path = f := by
  constructor
  · exact List.mem_reverse.1 (List.mem_of_find?_eq_some found)
  · simpa using List.find?_some found

/-- The record tells whether the conffile at its path was changed. -/
def Told (host : Host) (m : Manifest) (disk : Disk) (st : ConffileState) : Prop :=
  ∀ w file, disk.written (host.rootJoin st.path) = some w → w.conffile = true →
    disk.files (host.rootJoin st.path) = some file →
      (file.content ≠ w.content → host.sha256 file.content ≠ st.defaultSHA) ∧
      (file.content = w.content → w.package = m.name → host.sha256 file.content = st.defaultSHA)

theorem Disk.Same.told {m : Manifest} {disk after : Disk} {st : ConffileState}
    (same : disk.Same after (host.rootJoin st.path)) (told : Told host m disk st) :
    Told host m after st := by
  intro w file written conffile present
  exact told w file (same.written.symm.trans written) conffile (same.files.symm.trans present)

/-- The database tells the conffiles apart once it has an entry whose records do,
and no other entry has changed. -/
theorem Discerning.put {m : Manifest} {unsaved : Prop} {before after : Disk}
    {db : DB} (discerning : Discerning host before db)
    (fate : ∀ path, Fate host m prev unsaved before after path) {e : DBEntry}
    (named : e.name = m.name) (told : ∀ st ∈ e.conffiles, Told host m after st) :
    Discerning host after (db.put e) := by
  intro path w file written conffile present
  have own : ∀ f st, e.conffileAt f = some st → host.rootJoin f = path →
      (file.content ≠ w.content → host.sha256 file.content ≠ st.defaultSHA) ∧
      (file.content = w.content → w.package = m.name →
        host.sha256 file.content = st.defaultSHA) := by
    rintro f st recorded rfl
    obtain ⟨member, rfl⟩ := conffileAt_mem recorded
    exact told st member w file written conffile present
  constructor
  · intro differs name found f st entry recorded at_
    by_cases here : name = e.name
    · subst here
      rw [DB.get_put_self] at entry
      cases entry
      exact (own f st recorded at_).1 differs
    · rw [DB.get_put_ne db e here] at entry
      cases fate path with
      | same same =>
        exact (discerning path w file (same.written.symm.trans written) conffile
          (same.files.symm.trans present)).changed differs name found f st entry recorded at_
      | fresh writtenNow there _ content =>
        rw [written] at writtenNow
        rw [present] at there
        cases writtenNow
        cases there
        exact absurd content differs
      | plain plain =>
        rw [plain w written] at conffile
        cases conffile
  · intro content found f st entry recorded at_
    by_cases here : w.package = e.name
    · rw [here, DB.get_put_self] at entry
      cases entry
      exact (own f st recorded at_).2 content (here.trans named)
    · rw [DB.get_put_ne db e here] at entry
      cases fate path with
      | same same =>
        exact (discerning path w file (same.written.symm.trans written) conffile
          (same.files.symm.trans present)).unchanged content found f st entry recorded at_
      | fresh writtenNow _ wrote =>
        rw [written] at writtenNow
        cases writtenNow
        exact absurd (wrote.trans named.symm) here
      | plain plain =>
        rw [plain w written] at conffile
        cases conffile

/-- A database that is not saved tells the conffiles apart already. -/
theorem Discerning.unsaved {m : Manifest} {before after : Disk} {db : DB}
    (discerning : Discerning host before db)
    (fate : ∀ path, Fate host m (db.get m.name) True before after path) :
    Discerning host after db := by
  intro path w file written conffile present
  cases fate path with
  | same same =>
    exact discerning path w file (same.written.symm.trans written) conffile
      (same.files.symm.trans present)
  | fresh writtenNow there own content recorded =>
    rw [written] at writtenNow
    rw [present] at there
    cases writtenNow
    cases there
    constructor
    · exact fun differs => absurd content differs
    · intro _ e f st entry record at_
      rw [own] at entry
      exact recorded trivial e f st entry record at_
  | plain plain =>
    rw [plain w written] at conffile
    cases conffile

/-! ### An extraction that succeeds -/

/-- What is still to be extracted: nothing of it touches the place of another of
its conffiles, and the conffiles are as they were before the installation. -/
structure Ready (host : Host) (m : Manifest) (before : Disk) (prev : Option DBEntry)
    (entries : List TarEntry) (x : Extraction) : Prop where
  separate : entries.Pairwise fun a b => Separate host m a b ∧ Separate host m b a
  agrees : ∀ entry ∈ entries, ∀ f, ShipsConffile m entry f →
    before.Same x.disk (host.rootJoin f)
  foreseen : ∀ entry ∈ entries, ∀ f, ShipsConffile m entry f → Foreseen host m before prev entry f

section

variable {m : Manifest} {before : Disk} {db : DB} {faults : Nat → EntryFaults}
  {entry : TarEntry} {rest : List TarEntry} {x after : Extraction}

theorem Ready.next {fault : EntryFaults} {failure : Option Failure}
    (ready : Ready host m before (db.get m.name) (entry :: rest) x)
    (effect : EntryStep host m (db.get m.name) fault entry x after failure) :
    Ready host m before (db.get m.name) rest after := by
  obtain ⟨apart, separate⟩ := List.pairwise_cons.1 ready.separate
  refine ⟨separate, ?_, fun other member => ready.foreseen other (List.mem_cons_of_mem _ member)⟩
  intro other member f ships
  have untouched := ((apart other member).2 f ships).1
  exact (ready.agrees other (List.mem_cons_of_mem _ member) f ships).trans (effect.frame untouched)

/-- The rest of an extraction leaves a path that none of its entries touches. -/
theorem extractFrom_frame {entries : List TarEntry} {i : Nat} {path : String}
    (untouched : ∀ entry ∈ entries, ¬ Touches host m entry path) :
    x.disk.Same (extractFrom host m prev faults i entries x).1.disk path := by
  have along : AtEach host m prev faults (fun _ entry _ => ¬ Touches host m entry path) i entries x :=
    atEach_of_forall fun _ entry member _ => untouched entry member
  apply along.invariant fun y => x.disk.Same y.disk path
  · intro _ entry y z _ condition inv effect
    exact inv.trans (effect.frame condition)
  · exact .refl _ _

/-- An unchanged conffile of the package that is recorded is taken for its own. -/
theorem untouched_of_unchanged (discerning : Discerning host before db) {w : Written}
    {current : File} (written : before.written (host.rootJoin f) = some w)
    (conffile : w.conffile = true) (present : before.files (host.rootJoin f) = some current)
    (own : w.package = m.name) (same : current.content = w.content)
    (recorded : ((db.get m.name).bind fun e => e.conffileAt f).isSome) :
    untouched host (db.get m.name) f current = true := by
  obtain ⟨st, found⟩ := Option.isSome_iff_exists.1 recorded
  obtain ⟨e, entry, record⟩ := Option.bind_eq_some_iff.1 found
  apply untouched_iff.2
  refine ⟨e, st, entry, record, ?_⟩
  exact (discerning _ w current written conffile present).unchanged same e f st
    (by rw [own, entry]) record rfl

/-- A changed conffile is taken for nobody's. -/
theorem touched_of_changed (discerning : Discerning host before db) {w : Written}
    {current : File} (written : before.written (host.rootJoin f) = some w)
    (conffile : w.conffile = true) (present : before.files (host.rootJoin f) = some current)
    (differs : current.content ≠ w.content) :
    untouched host (db.get m.name) f current = false := by
  by_contra own
  obtain ⟨e, st, entry, record, hash⟩ := untouched_iff.1 (by simpa using own)
  exact (discerning _ w current written conffile present).changed differs m.name e f st entry record
    rfl hash

/-- A conffile that stays is recorded so that its record tells. -/
theorem told_of_kept (discerning : Discerning host before db) {current : File}
    (agrees : before.Same x.disk (host.rootJoin f))
    (foreseen : Foreseen host m before (db.get m.name) entry f)
    (present : x.disk.files (host.rootJoin f) = some current)
    (touched : untouched host (db.get m.name) f current = false) :
    Told host m x.disk ⟨f, host.sha256 current.content, host.sha256 entry.data⟩ := by
  intro w file written conffile there
  rw [present] at there
  cases there
  rw [agrees.written] at written
  rw [agrees.files] at present
  obtain ⟨changed, unchanged⟩ := foreseen w current written conffile present
  refine ⟨changed, ?_⟩
  intro same own
  rcases unchanged same own with recorded | shipped
  · rw [untouched_of_unchanged discerning written conffile present own same recorded] at touched
    cases touched
  · rw [shipped]

/-- Each record that an entry adds tells, of its own conffile. -/
theorem EntryStep.told {fault : EntryFaults} (discerning : Discerning host before db)
    (ready : Ready host m before (db.get m.name) (entry :: rest) x)
    (effect : EntryStep host m (db.get m.name) fault entry x after none) {st : ConffileState}
    (member : st ∈ after.conf) :
    st ∈ x.conf ∨ ShipsConffile m entry st.path ∧ Told host m after.disk st := by
  have added : ∀ f c, entry.type = .regular → entry.onDevice = some f →
      m.conffileAt f = some c → ShipsConffile m entry f :=
    fun f c regular named declared => ⟨regular, named, by simp [declared]⟩
  cases effect with
  | skipped | plain => exact Or.inl member
  | conffile regular named declared free =>
    rcases List.mem_append.1 member with earlier | now
    · exact Or.inl earlier
    · right
      rw [List.mem_singleton.1 now]
      refine ⟨added _ _ regular named declared, ?_⟩
      intro w file written _ there
      simp only [Disk.written_replace, Disk.files_replace, ↓reduceIte, Option.some.injEq]
        at written there
      subst written there
      exact ⟨fun differs => absurd rfl differs, fun _ _ => rfl⟩
  | aside regular named declared present touched differs =>
    rcases List.mem_append.1 member with earlier | now
    · exact Or.inl earlier
    · right
      rw [List.mem_singleton.1 now]
      have ships := added _ _ regular named declared
      have told := told_of_kept discerning
        (ready.agrees entry List.mem_cons_self _ ships)
        (ready.foreseen entry List.mem_cons_self _ ships) present touched
      refine ⟨ships, Disk.Same.told ?_ told⟩
      apply replace_frame
      · exact (newPath_ne _).symm
      · exact (tmpPath_newPath_ne _).symm
  | kept regular named declared present touched =>
    rcases List.mem_append.1 member with earlier | now
    · exact Or.inl earlier
    · right
      rw [List.mem_singleton.1 now]
      have ships := added _ _ regular named declared
      exact ⟨ships, told_of_kept discerning (ready.agrees entry List.mem_cons_self _ ships)
        (ready.foreseen entry List.mem_cons_self _ ships) present touched⟩

/-- Each record of an extraction that succeeds tells of its conffile. -/
theorem extractFrom_told (discerning : Discerning host before db) {entries : List TarEntry} {i : Nat}
    (ready : Ready host m before (db.get m.name) entries x)
    (done : (extractFrom host m (db.get m.name) faults i entries x).2 = none) {st : ConffileState}
    (member : st ∈ (extractFrom host m (db.get m.name) faults i entries x).1.conf) :
    st ∈ x.conf ∨
      Told host m (extractFrom host m (db.get m.name) faults i entries x).1.disk st := by
  induction entries generalizing i x with
  | nil => exact Or.inl member
  | cons entry rest ih =>
    have effect := extractEntry_step host m (db.get m.name) (faults i) entry x
    unfold extractFrom at done member ⊢
    generalize extractEntry host m (db.get m.name) (faults i) entry x = result
      at effect done member ⊢
    rcases result with ⟨after, _ | failure⟩
    · rcases ih (ready.next effect) done member with earlier | told
      · rcases effect.told discerning ready earlier with old | ⟨ships, told⟩
        · exact Or.inl old
        · right
          apply Disk.Same.told _ told
          apply extractFrom_frame
          intro other inRest
          exact (((List.pairwise_cons.1 ready.separate).1 other inRest).1 _ ships).1
      · exact Or.inr told
    · cases done

theorem Settled.later {disk final : Disk}
    (settled : Settled host m before disk entry f) (same : disk.Same final (host.rootJoin f))
    (sameNew : disk.Same final (newPath (host.rootJoin f))) :
    Settled host m before final entry f := by
  intro w current written conffile present
  rw [same.files, sameNew.files]
  exact settled w current written conffile present

/-- The entry of a conffile settles it. -/
theorem EntryStep.settles {fault : EntryFaults} (discerning : Discerning host before db)
    (ready : Ready host m before (db.get m.name) (entry :: rest) x)
    (effect : EntryStep host m (db.get m.name) fault entry x after none)
    (ships : ShipsConffile m entry f) : Settled host m before after.disk entry f := by
  intro w current written conffile present
  have agrees := ready.agrees entry List.mem_cons_self f ships
  have foreseen := ready.foreseen entry List.mem_cons_self f ships w current written conffile present
  obtain ⟨regular, named, declared⟩ := ships
  cases effect with
  | skipped other =>
    rcases other with unnamed | dir
    · rw [named] at unnamed
      cases unnamed
    · rw [regular] at dir
      cases dir
  | plain _ named' undeclared =>
    rw [named] at named'
    cases named'
    simp [undeclared] at declared
  | conffile _ named' _ free =>
    rw [named] at named'
    cases named'
    constructor
    · intro _ _
      simp
    · intro differs
      have own := free current (agrees.files.trans present)
      rw [touched_of_changed discerning written conffile present differs] at own
      cases own
  | aside _ named' _ there touched differs =>
    rw [named] at named'
    cases named'
    rw [agrees.files, present] at there
    cases there
    constructor
    · intro own same
      rcases foreseen.2 same own with recorded | shipped
      · rw [untouched_of_unchanged discerning written conffile present own same recorded] at touched
        cases touched
      · exact absurd (by rw [shipped]) differs
    · intro _
      simp
  | kept _ named' _ there touched hash =>
    rw [named] at named'
    cases named'
    rw [agrees.files, present] at there
    cases there
    constructor
    · intro own same
      rcases foreseen.2 same own with recorded | shipped
      · rw [untouched_of_unchanged discerning written conffile present own same recorded] at touched
        cases touched
      · rw [agrees.files, present, Option.map_some, shipped]
    · exact fun differs => absurd hash (foreseen.1 differs)

/-- An extraction that succeeds settles every conffile of the archive. -/
theorem extractFrom_settles (discerning : Discerning host before db) {entries : List TarEntry}
    {i : Nat} (ready : Ready host m before (db.get m.name) entries x)
    (done : (extractFrom host m (db.get m.name) faults i entries x).2 = none) {shipped : TarEntry}
    (member : shipped ∈ entries) (ships : ShipsConffile m shipped f) :
    Settled host m before (extractFrom host m (db.get m.name) faults i entries x).1.disk shipped f := by
  induction entries generalizing i x with
  | nil => cases member
  | cons entry rest ih =>
    have effect := extractEntry_step host m (db.get m.name) (faults i) entry x
    unfold extractFrom at done ⊢
    generalize extractEntry host m (db.get m.name) (faults i) entry x = result at effect done ⊢
    rcases result with ⟨after, _ | failure⟩
    · rcases List.mem_cons.1 member with rfl | inRest
      · have apart := fun other inRest =>
          ((List.pairwise_cons.1 ready.separate).1 other inRest).1 f ships
        exact (effect.settles discerning ready ships).later
          (extractFrom_frame fun other inRest => (apart other inRest).1)
          (extractFrom_frame fun other inRest => (apart other inRest).2)
      · exact ih (ready.next effect) done inRest
    · cases done

end

/-! ### Runs -/

theorem CarefulInstall.ready {m : Manifest} {request : InstallRequest}
    (careful : CarefulInstall host m request device)
    (unpacked : (unpack host request m device).2.2 = none) (saved : request.faults.saveDB = none) :
    Ready host m device.disk (device.db.get m.name) request.archive.entries
      { disk := device.disk } where
  separate := careful.separate unpacked saved
  agrees := fun _ _ _ _ => .refl _ _
  foreseen := careful.discerned unpacked saved

theorem extractPayload_opened {request : InstallRequest} {m : Manifest}
    (done : (extractPayload host request m device).2 = none) :
    extractPayload host request m device = extractFrom host m (device.db.get m.name)
      request.faults.entry 0 request.archive.entries { disk := device.disk } := by
  unfold extractPayload at done ⊢
  cases opened : request.faults.payload with
  | some cause =>
    rw [opened] at done
    cases done
  | none => rfl

/-- An installation that is recorded records the conffiles so that they can be told. -/
theorem CarefulInstall.told {m : Manifest} {request : InstallRequest} {device : Device}
    (careful : CarefulInstall host m request device)
    (discerning : Discerning host device.disk device.db)
    (unpacked : (unpack host request m device).2.2 = none)
    (saved : request.faults.saveDB = none) :
    ∀ st ∈ (configured request m (extractPayload host request m device).1).conffiles,
      Told host m (extractPayload host request m device).1.disk st := by
  have done := unpack_ok unpacked
  have opened := extractPayload_opened done
  rw [opened] at done ⊢
  intro st member
  rcases extractFrom_told discerning (careful.ready unpacked saved) done member with before | told
  · cases before
  · exact told

theorem Discerning.install {request : InstallRequest} {after : Device}
    {failure : Option Failure} (discerning : Discerning host device.disk device.db)
    (careful : Careful host device (.install request))
    (effect : InstallStep host request device after failure) :
    Discerning host after.disk after.db := by
  cases effect with
  | refused => exact discerning
  | @half m _ _ begun failed saved =>
    -- A half-installed package has no records that could be wrong.
    apply discerning.put (careful m begun).fate rfl
    intro st member
    cases member
  | @unsaved m _ _ begun unsaved =>
    apply discerning.unsaved
    intro path
    have fate := (careful m begun).fate path
    rwa [eq_true unsaved] at fate
  | @uncatalogued m _ _ begun unpacked saved _ | @done m _ begun unpacked saved =>
    exact discerning.put (careful m begun).fate rfl ((careful m begun).told discerning unpacked saved)

/-- Deleting files, or entries, leaves less to be told. -/
theorem Discerning.fewer {disk after : Disk} {db later : DB} (discerning : Discerning host disk db)
    (fewer : ∀ path, disk.Same after path ∨ after.files path = none)
    (records : ∀ name e f st, later.get name = some e → e.conffileAt f = some st →
      ∃ old, db.get name = some old ∧ old.conffileAt f = some st) :
    Discerning host after later := by
  intro path w file written conffile present
  rcases fewer path with same | gone
  · have tells := discerning path w file (same.written.symm.trans written) conffile
      (same.files.symm.trans present)
    constructor
    · intro differs name e f st entry recorded at_
      obtain ⟨old, found, record⟩ := records name e f st entry recorded
      exact tells.changed differs name old f st found record at_
    · intro content e f st entry recorded at_
      obtain ⟨old, found, record⟩ := records w.package e f st entry recorded
      exact tells.unchanged content old f st found record at_
  · rw [gone] at present
    cases present

theorem Discerning.remove {request : RemoveRequest} {after : Device}
    {failure : Option Failure} (keyed : Keyed device.db)
    (discerning : Discerning host device.disk device.db)
    (effect : RemoveStep host request device after failure) :
    Discerning host after.disk after.db := by
  have fewer : ∀ e : DBEntry, ∀ path, device.disk.Same
      (removeFrom host e request.purge request.faults.file 0 e.files device.disk).1 path ∨
        (removeFrom host e request.purge request.faults.file 0 e.files device.disk).1.files path =
          none := by
    intro e path
    rcases removeFrom_frame host e request.purge request.faults.file e.files 0 device.disk path with
      same | ⟨gone, -⟩
    · exact Or.inl ⟨same.1, same.2⟩
    · exact Or.inr gone
  have records : ∀ e, device.db.get request.name = some e → ∀ name entry f st,
      (removed device.db e request.name request.purge).get name = some entry →
        entry.conffileAt f = some st →
          ∃ old, device.db.get name = some old ∧ old.conffileAt f = some st := by
    intro e found name entry f st present recorded
    have named := keyed _ _ found
    by_cases here : name = request.name
    · subst here
      unfold removed at present
      split at present
      · simp at present
      · rw [← named] at present
        rw [DB.get_put_self (e := { e with status := .configFiles, files := [] })] at present
        cases present
        exact ⟨e, found, recorded⟩
    · rw [removed_get_ne named here] at present
      exact ⟨entry, present, recorded⟩
  cases effect with
  | refused => exact discerning
  | @unsaved e _ found => exact discerning.fewer (fewer e) fun _ e f st entry record => ⟨e, entry, record⟩
  | @uncatalogued e _ found | @done e found => exact discerning.fewer (fewer e) (records e found)

theorem Discerning.step {device : Device} {op : Op} (keyed : Keyed device.db)
    (discerning : Discerning host device.disk device.db) (careful : Careful host device op) :
    Discerning host (step host device op).disk (step host device op).db := by
  unfold HelixKit.Pkg.step
  cases op with
  | install request =>
    obtain ⟨after, failure, performed, effect⟩ := perform_install host request device
    rw [performed]
    exact discerning.install careful effect
  | remove request =>
    obtain ⟨after, failure, performed, effect⟩ := perform_remove host request device
    rw [performed]
    exact discerning.remove keyed effect
  | edit there new =>
    intro path w file written conffile present
    by_cases here : path = there
    · subst here
      simp only [perform, Disk.files_edit, ↓reduceIte] at present
      exact careful file w present written conffile
    · simp only [perform, Disk.files_edit, here, ↓reduceIte] at present
      exact discerning path w file written conffile present

theorem preserves_install {request : InstallRequest}
    (discerning : Discerning host device.disk device.db)
    (careful : Careful host device (.install request)) :
    Preserves host device (.install request) := by
  obtain ⟨after, failure, performed, effect⟩ := perform_install host request device
  dsimp only [Preserves]
  rw [show install host request device = (after, failure) from performed]
  constructor
  · intro path changed
    cases effect with
    | refused => rfl
    | half begun | unsaved begun | uncatalogued begun | done begun =>
      exact ((careful _ begun).spared discerning changed).files
  · rintro rfl other begunOther entry member f ships
    cases effect with
    | @done m _ begun unpacked saved =>
      obtain rfl := begun.unique begunOther
      have done := unpack_ok unpacked
      have opened := extractPayload_opened done
      have settled : Settled host other device.disk (extractPayload host request other device).1.disk
          entry f := by
        rw [opened] at done ⊢
        exact extractFrom_settles discerning ((careful other begun).ready unpacked saved) done
          member ships
      exact settled

theorem preserves_remove {request : RemoveRequest}
    (careful : Careful host device (.remove request)) :
    Preserves host device (.remove request) := by
  obtain ⟨after, failure, performed, effect⟩ := perform_remove host request device
  dsimp only [Preserves]
  rw [show remove host request device = (after, failure) from performed]
  intro kept path changed
  have stays : ∀ e, device.db.get request.name = some e →
      (removeFrom host e request.purge request.faults.file 0 e.files device.disk).1.files path =
        device.disk.files path := by
    intro e found
    rcases removeFrom_frame host e request.purge request.faults.file e.files 0 device.disk path with
      same | ⟨-, -, f, member, dropped, rfl⟩
    · exact same.1
    · rw [kept] at dropped
      rw [careful kept e found f member dropped] at changed
      cases changed
  cases effect with
  | refused => rfl
  | unsaved found | uncatalogued found | done found => exact stays _ found

/-- Changed conffiles are left alone, and the others replaced, in every run of
operations after which the recorded hashes still tell them apart. -/
theorem conffiles_preserved (host : Host) (files : String → Option File) (ops : List Op)
    (careful : Along (step host) (Careful host) (Device.start files) ops) :
    Along (step host) (Preserves host) (Device.start files) ops := by
  apply careful.always fun device => Keyed device.db ∧ Discerning host device.disk device.db
  · intro device op inv condition
    exact ⟨inv.1.step op, inv.2.step inv.1 condition⟩
  · intro device op inv condition
    cases op with
    | install request => exact preserves_install inv.2 condition
    | remove request => exact preserves_remove condition
    | edit path file => trivial
  · constructor
    · intro name e found
      cases found
    · intro path w file written
      cases written

/-! ### A failed upgrade -/

def firstInstall : Op := .install { archive := xArchive "1.0.0" firstDefault }

/-- The administrator's change of `x`'s conffile. -/
def localChange : Op := .edit xPath (some ⟨localEdit, 0o640⟩)

/-- After an upgrade that failed at a truncated archive, a removal without purging
succeeds and deletes the changed conffile. -/
theorem failed_upgrade_loses_change :
    let truncated : InstallFaults :=
      { entry := fun i => if i = 1 then { next := some "unexpected EOF" } else {} }
    let device := run (step testHost) blank
      [firstInstall, localChange,
        .install { archive := xArchive "2.0.0" secondDefault, faults := truncated }]
    device.disk.modified xPath = true ∧
      (remove testHost { name := "x", purge := false } device).2 = none ∧
      (remove testHost { name := "x", purge := false } device).1.disk.files xPath = none := by
  decide

/-- The change is neither what the package wrote nor what is recorded. -/
theorem localChange_careful :
    Careful testHost (step testHost blank firstInstall) localChange := by
  intro new w edited written conffile
  have wrote : (step testHost blank firstInstall).disk.written xPath =
      some ⟨"x", firstDefault, true⟩ := by decide
  have recorded : ((step testHost blank firstInstall).db.list.all fun e =>
      e.conffiles.all fun st => testHost.sha256 localEdit ≠ st.defaultSHA) = true := by
    decide
  cases edited
  rw [wrote] at written
  cases written
  constructor
  · intro _ name e f st found record _
    have inEntry := List.all_eq_true.1 recorded e (DB.mem_list.2 ⟨name, found⟩)
    simpa using List.all_eq_true.1 inEntry st (conffileAt_mem record).1
  · intro same
    exact absurd same (by decide)

theorem conffiles_preserved_x :
    Along (step testHost) (Preserves testHost) blank
      [firstInstall, localChange,
        .install { archive := xArchive "2.0.0" secondDefault }] := by
  apply conffiles_preserved
  refine ⟨?_, localChange_careful, ?_, trivial⟩
  · intro m begun
    constructor
    · intro _
      refine ⟨fun path _ => rfl, by split <;> trivial⟩
    · intro _
      refine ⟨fun unsaved => absurd rfl unsaved, by split <;> trivial⟩
    · intro _ _
      exact List.pairwise_singleton _ _
    · intro _ _ entry _ f _ w current written
      cases written
  · intro m begun
    have manifest : m = xManifest "2.0.0" :=
      Except.ok.inj (begun.checked.symm.trans (by decide))
    subst manifest
    constructor
    · intro _
      refine ⟨?_, by split <;> trivial⟩
      rintro path ⟨-, f, named, overwritten⟩
      have place : f = xPath := Option.some.inj (named.symm.trans (by decide))
      subst place
      rcases overwritten with rfl | overwritten
      · decide
      · rcases overwritten with rfl | rfl <;> decide
    · intro _
      exact ⟨fun unsaved => absurd rfl unsaved, by split <;> trivial⟩
    · intro _ _
      exact List.pairwise_singleton _ _
    · rintro _ _ entry member f ⟨-, named, -⟩ w current written _ present
      cases List.mem_singleton.1 member
      have place : f = xPath := Option.some.inj (named.symm.trans (by decide))
      subst place
      have wrote : w = ⟨"x", firstDefault, true⟩ :=
        Option.some.inj (written.symm.trans (by decide))
      have holds : current = ⟨localEdit, 0o640⟩ :=
        Option.some.inj (present.symm.trans (by decide))
      subst wrote holds
      constructor
      · intro _
        decide
      · intro same
        exact absurd same (by decide)

end HelixKit.Pkg
