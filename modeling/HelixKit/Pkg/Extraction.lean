/-
Purpose: What the extraction of a payload writes, lists and leaves behind, entry by entry: the file
  of each entry, its temporary file, and what the list of the extracted files misses.
Trusted boundary: none
-/
import HelixKit.Pkg.Leftovers

namespace HelixKit.Pkg

variable {host : Host}

/-! ## The write of an entry -/

/-- Where the extraction of an entry writes a file, and whether beside a conffile, if it gets so
far. -/
def entryWrite (host : Host) (m : Manifest) (prev : Option DBEntry) (faults : EntryFaults)
    (entry : TarEntry) (x : Extraction) : Option (String × Bool) :=
  match faults.next, entry.onDevice, entry.type, faults.read.or faults.mkdir with
  | none, some f, .regular, none =>
    if (m.conffileAt f).isNone then some (host.rootJoin f, false)
    else if faults.current.isSome then none
    else
      match x.disk.files (host.rootJoin f) with
      | none => some (host.rootJoin f, false)
      | some current =>
        if untouched host prev f current then some (host.rootJoin f, false)
        else if host.sha256 current.content ≠ host.sha256 entry.data then
          some (newPath (host.rootJoin f), true)
        else none
  | _, _, _, _ => none

/-- A file that the extraction of an entry leaves and does not list: a conffile dropped aside, or
the temporary file of a write that failed. -/
def entryLeaves (host : Host) (m : Manifest) (prev : Option DBEntry) (faults : EntryFaults)
    (entry : TarEntry) (x : Extraction) : Option String :=
  match entryWrite host m prev faults entry x, faults.write with
  | some (dest, true), none => some dest
  | some (dest, _), some fault => if fault.leavesTmp then some (tmpPath dest) else none
  | _, _ => none

/-- The temporary file that the extraction of an entry makes. -/
def entryTmp (host : Host) (m : Manifest) (prev : Option DBEntry) (faults : EntryFaults)
    (entry : TarEntry) (x : Extraction) : Option String :=
  match entryWrite host m prev faults entry x, faults.write with
  | none, _ | some _, some (.openTmp _) => none
  | some (dest, _), _ => some (tmpPath dest)

/-- The file of an entry of the payload. -/
def TarEntry.file (entry : TarEntry) : Option String :=
  if entry.type = .regular then entry.onDevice else none

/-- The files of the payload that the extraction gets through, from the entry number `i` on. -/
def extractedFrom (host : Host) (m : Manifest) (prev : Option DBEntry)
    (faults : Nat → EntryFaults) : Nat → List TarEntry → Extraction → List String
  | _, [], _ => []
  | i, entry :: rest, x =>
    match extractEntry host m prev (faults i) entry x with
    | (_, some _) => []
    | (after, none) => entry.file.toList ++ extractedFrom host m prev faults (i + 1) rest after

/-! ## What a write does -/

section Write

variable {disk : Disk} {dest path : String} {mode : Nat} {record : Written}
  {fault : Option WriteFault}

theorem write_failure :
    (writeFileAtomicBytes disk dest mode record fault).2 = none ↔ fault = none := by
  cases fault with
  | none => simp [writeFileAtomicBytes]
  | some fault =>
    cases fault with
    | openTmp cause | writeTmp part cause | rename cause => simp [writeFileAtomicBytes]
    | chmod removed cause => cases removed <;> simp [writeFileAtomicBytes]

theorem holds_of_write
    (held : (writeFileAtomicBytes disk dest mode record fault).1.holds record.package path) :
    (fault = none ∧ path = dest) ∨ (fault.any WriteFault.leavesTmp = true ∧ path = tmpPath dest) ∨
      disk.holds record.package path := by
  rcases writeFileAtomicBytes_cases disk dest mode record fault with
    done | ⟨after, failure, failed, faulty, tmp⟩
  · have fine : fault = none := write_failure.mp (by rw [done])
    rw [done] at held
    rcases holds_of_replace held with ⟨here, -⟩ | still
    · exact .inl ⟨fine, here⟩
    · exact .inr (.inr still)
  · rw [failed] at held
    cases tmp with
    | untouched => exact .inr (.inr held)
    | cleaned =>
      by_cases here : path = tmpPath dest
      · simp [Disk.holds, here] at held
      · exact .inr (.inr (by simpa [Disk.holds, here] using held))
    | left file leaves =>
      by_cases here : path = tmpPath dest
      · exact .inr (.inl ⟨leaves, here⟩)
      · exact .inr (.inr (by simpa [Disk.holds, here] using held))

theorem write_done (fine : fault = none) :
    (writeFileAtomicBytes disk dest mode record fault).1.holds record.package dest := by
  subst fine
  simp [writeFileAtomicBytes, Disk.holds]

theorem write_leaves (leaves : fault.any WriteFault.leavesTmp = true) :
    (writeFileAtomicBytes disk dest mode record fault).1.holds record.package (tmpPath dest) := by
  cases fault with
  | none => cases leaves
  | some fault =>
    cases fault with
    | openTmp cause => cases leaves
    | writeTmp part cause | rename cause => simp [writeFileAtomicBytes, Disk.holds]
    | chmod removed cause =>
      cases removed with
      | true => cases leaves
      | false => simp [writeFileAtomicBytes, Disk.holds]

/-- A write changes nothing but its file and its temporary file. -/
theorem write_frame (apart : path ≠ tmpPath dest) (other : path ≠ dest) :
    (writeFileAtomicBytes disk dest mode record fault).1.files path = disk.files path ∧
      (writeFileAtomicBytes disk dest mode record fault).1.written path = disk.written path := by
  cases fault with
  | none => simp [writeFileAtomicBytes, apart, other]
  | some fault =>
    cases fault with
    | openTmp cause => simp [writeFileAtomicBytes]
    | writeTmp part cause => simp [writeFileAtomicBytes, apart]
    | chmod removed cause => cases removed <;> simp [writeFileAtomicBytes, apart]
    | rename cause => simp [writeFileAtomicBytes, apart]

/-- A write that fails does not touch its file. -/
theorem write_dest (faulty : fault ≠ none) :
    (writeFileAtomicBytes disk dest mode record fault).1.files dest = disk.files dest ∧
      (writeFileAtomicBytes disk dest mode record fault).1.written dest = disk.written dest := by
  have apart : dest ≠ tmpPath dest := (tmpPath_ne dest).symm
  cases fault with
  | none => exact absurd rfl faulty
  | some fault =>
    cases fault with
    | openTmp cause => simp [writeFileAtomicBytes]
    | writeTmp part cause => simp [writeFileAtomicBytes, apart]
    | chmod removed cause => cases removed <;> simp [writeFileAtomicBytes, apart]
    | rename cause => simp [writeFileAtomicBytes, apart]

theorem write_keeps (apart : path ≠ tmpPath dest) (held : disk.holds record.package path) :
    (writeFileAtomicBytes disk dest mode record fault).1.holds record.package path := by
  by_cases here : path = dest
  · by_cases fine : fault = none
    · rw [here]
      exact write_done fine
    · rw [here] at held ⊢
      rwa [Disk.holds, (write_dest fine).1, (write_dest fine).2]
  · rwa [Disk.holds, (write_frame apart here).1, (write_frame apart here).2]

/-- A file that is there stays, unless it is where the temporary file was. -/
theorem write_present (there : (disk.files path).isSome = true)
    (apart : path ≠ tmpPath dest ∨ ∃ cause, fault = some (.openTmp cause)) :
    ((writeFileAtomicBytes disk dest mode record fault).1.files path).isSome = true := by
  rcases apart with apart | ⟨cause, rfl⟩
  · by_cases here : path = dest
    · by_cases fine : fault = none
      · rw [here]
        exact (write_done fine).1
      · rw [here] at there ⊢
        rwa [(write_dest fine).1]
    · rwa [(write_frame apart here).1]
  · exact there

/-- A file that is there after a write was there before, or the write made it. -/
theorem present_of_write
    (there : ((writeFileAtomicBytes disk dest mode record fault).1.files path).isSome = true) :
    (disk.files path).isSome = true ∨
      (writeFileAtomicBytes disk dest mode record fault).1.holds record.package path := by
  by_cases here : path = dest
  · by_cases fine : fault = none
    · rw [here]
      exact .inr (write_done fine)
    · rw [here] at there ⊢
      rw [(write_dest fine).1] at there
      exact .inl there
  · by_cases apart : path = tmpPath dest
    · rcases writeFileAtomicBytes_cases disk dest mode record fault with
        done | ⟨after, failure, failed, faulty, tmp⟩
      · rw [done, apart] at there
        simp at there
      · rw [failed] at there ⊢
        cases tmp with
        | untouched => exact .inl there
        | cleaned => simp [apart] at there
        | left file leaves =>
          right
          simp [Disk.holds, apart]
    · rw [(write_frame apart here).1] at there
      exact .inl there

/-- What is at the place of the temporary file after a write was written by it. -/
theorem tmp_of_write (opened : ∀ cause, fault ≠ some (.openTmp cause))
    (there : ((writeFileAtomicBytes disk dest mode record fault).1.files (tmpPath dest)).isSome =
      true) :
    (writeFileAtomicBytes disk dest mode record fault).1.holds record.package (tmpPath dest) := by
  cases fault with
  | none => simp [writeFileAtomicBytes] at there
  | some fault =>
    cases fault with
    | openTmp cause => exact absurd rfl (opened cause)
    | writeTmp part cause => exact write_leaves rfl
    | chmod removed cause =>
      cases removed with
      | true => simp [writeFileAtomicBytes] at there
      | false => exact write_leaves rfl
    | rename cause => exact write_leaves rfl

end Write

/-! ## What the extraction of an entry does -/

/-- The extraction of an entry makes its write, if it has one, and succeeds with it. -/
structure Writes (host : Host) (m : Manifest) (faults : EntryFaults) (entry : TarEntry)
    (x : Extraction) (dest : String) (aside : Bool) (result : Extraction × Option Failure) :
    Prop where
  disk : ∃ mode conffile, result.1.disk =
    (writeFileAtomicBytes x.disk dest mode ⟨m.name, entry.data, conffile⟩ faults.write).1
  done : result.2 = none ↔ faults.write = none
  own : aside = false → ∃ f, entry.file = some f ∧ dest = host.rootJoin f
  beside : aside = true → ∃ d, dest = newPath d

/-- A conffile that is written, and then recorded. -/
theorem Writes.settled {m : Manifest} {faults : EntryFaults} {entry : TarEntry} {x : Extraction}
    {dest f : String} {aside : Bool} {mode : Nat} {conffile : Bool} {st : ConffileState}
    (own : aside = false → ∃ f, entry.file = some f ∧ dest = host.rootJoin f)
    (beside : aside = true → ∃ d, dest = newPath d) :
    Writes host m faults entry x dest aside
      (x.settle f
        (match writeFileAtomicBytes x.disk dest mode ⟨m.name, entry.data, conffile⟩
            faults.write with
          | (disk, some failure) => (disk, .error failure)
          | (disk, none) => (disk, .ok st))) := by
  have failure : (writeFileAtomicBytes x.disk dest mode ⟨m.name, entry.data, conffile⟩
      faults.write).2 = none ↔ faults.write = none := write_failure
  refine ⟨⟨mode, conffile, ?_⟩, ?_, own, beside⟩
  · rcases writeFileAtomicBytes x.disk dest mode ⟨m.name, entry.data, conffile⟩ faults.write with
      ⟨disk, _ | failure⟩
    · rfl
    · rfl
  · rw [← failure]
    rcases writeFileAtomicBytes x.disk dest mode ⟨m.name, entry.data, conffile⟩ faults.write with
      ⟨disk, _ | failure⟩
    · exact Iff.rfl
    · simp [Extraction.settle]

theorem extractEntry_writes (host : Host) (m : Manifest) (prev : Option DBEntry)
    (faults : EntryFaults) (entry : TarEntry) (x : Extraction) :
    match entryWrite host m prev faults entry x with
    | none => (extractEntry host m prev faults entry x).1.disk = x.disk
    | some (dest, aside) =>
      Writes host m faults entry x dest aside (extractEntry host m prev faults entry x) := by
  unfold entryWrite extractEntry
  cases faults.next with
  | some cause => rfl
  | none =>
    cases named : entry.onDevice with
    | none => rfl
    | some f =>
      cases type : entry.type with
      | dir => rfl
      | other flag => rfl
      | regular =>
        have file : entry.file = some f := by
          simp [TarEntry.file, type, named]
        have own : false = false →
            ∃ g, entry.file = some g ∧ host.rootJoin f = host.rootJoin g :=
          fun _ => ⟨f, file, rfl⟩
        have notBeside : false = true → ∃ d, host.rootJoin f = newPath d :=
          fun no => by cases no
        cases faults.read.or faults.mkdir with
        | some cause => rfl
        | none =>
          dsimp only
          cases declared : m.conffileAt f with
          | none =>
            have failure : ∀ mode, (writeFileAtomicBytes x.disk (host.rootJoin f) mode
                ⟨m.name, entry.data, false⟩ faults.write).2 = none ↔
                  faults.write = none := fun mode => write_failure
            simp only [Option.isNone_none, if_true]
            generalize (if entry.mode % 0o1000 = 0 then 0o644
              else entry.mode % 0o1000) = mode
            refine ⟨⟨mode, false, ?_⟩, ?_, own, notBeside⟩
            · rcases writeFileAtomicBytes x.disk (host.rootJoin f) mode
                ⟨m.name, entry.data, false⟩ faults.write with ⟨disk, _ | failure⟩
              · rfl
              · rfl
            · rw [← failure mode]
              rcases writeFileAtomicBytes x.disk (host.rootJoin f) mode
                ⟨m.name, entry.data, false⟩ faults.write with ⟨disk, _ | failure⟩
              · exact Iff.rfl
              · simp
          | some c =>
            simp only [Option.isNone_some, Bool.false_eq_true, if_false]
            unfold applyConffile
            dsimp only
            cases faults.current with
            | some cause => rfl
            | none =>
              simp only [Option.isSome_none, Bool.false_eq_true, if_false]
              cases x.disk.files (host.rootJoin f) with
              | none => exact Writes.settled own notBeside
              | some current =>
                dsimp only
                cases untouched host prev f current with
                | true => exact Writes.settled own notBeside
                | false =>
                  by_cases same :
                      host.sha256 current.content = host.sha256 entry.data
                  · simp only [same, ne_eq, not_true_eq_false, if_false,
                      Bool.false_eq_true]
                    rfl
                  · simp only [same, ne_eq, not_false_eq_true, if_true, if_false,
                      Bool.false_eq_true]
                    exact Writes.settled (fun no => by cases no) fun _ => ⟨_, rfl⟩

theorem tmpPath_ne_newPath (path dest : String) : tmpPath path ≠ newPath dest := by
  intro same
  have last := congrArg (fun text => text.toList.getLast?) same
  have tmp : ".tmp".toList = ['.', 't', 'm', 'p'] := rfl
  have new : ".helix-new".toList = ['.', 'h', 'e', 'l', 'i', 'x', '-', 'n', 'e', 'w'] := rfl
  simp [tmpPath, newPath, tmp, new] at last

section Entry

variable {m : Manifest} {prev : Option DBEntry} {faults : EntryFaults} {entry : TarEntry}
  {x : Extraction} {path : String}

theorem held_of_entry
    (held : (extractEntry host m prev faults entry x).1.disk.holds m.name path) :
    x.disk.holds m.name path ∨
      ((extractEntry host m prev faults entry x).2 = none ∧
        ∃ f, entry.file = some f ∧ host.rootJoin f = path) ∨
      entryLeaves host m prev faults entry x = some path := by
  have spec := extractEntry_writes host m prev faults entry x
  unfold entryLeaves
  cases wrote : entryWrite host m prev faults entry x with
  | none =>
    rw [wrote] at spec
    rw [spec] at held
    exact .inl held
  | some write =>
    obtain ⟨dest, aside⟩ := write
    rw [wrote] at spec
    obtain ⟨mode, conffile, disk⟩ := spec.disk
    rw [disk] at held
    rcases holds_of_write held with ⟨fine, here⟩ | ⟨leaves, here⟩ | still
    · cases aside with
      | false =>
        obtain ⟨f, file, at_⟩ := spec.own rfl
        exact .inr (.inl ⟨spec.done.mpr fine, f, file, by rw [here, at_]⟩)
      | true =>
        right; right
        rw [fine, here]
    · right; right
      obtain ⟨fault, faulty⟩ : ∃ fault, faults.write = some fault := by
        cases faulty : faults.write with
        | none =>
          rw [faulty] at leaves
          cases leaves
        | some fault => exact ⟨fault, rfl⟩
      rw [faulty] at leaves ⊢
      have leavesTmp : fault.leavesTmp = true := leaves
      cases aside <;> simp [leavesTmp, here]
    · exact .inl still

theorem leaves_held (leaves : entryLeaves host m prev faults entry x = some path) :
    (extractEntry host m prev faults entry x).1.disk.holds m.name path := by
  have spec := extractEntry_writes host m prev faults entry x
  unfold entryLeaves at leaves
  cases wrote : entryWrite host m prev faults entry x with
  | none =>
    rw [wrote] at leaves
    cases leaves
  | some write =>
    obtain ⟨dest, aside⟩ := write
    rw [wrote] at spec leaves
    obtain ⟨mode, conffile, disk⟩ := spec.disk
    rw [disk]
    cases faulty : faults.write with
    | none =>
      cases aside with
      | false => simp [faulty] at leaves
      | true =>
        have here : dest = path := by simpa [faulty] using leaves
        rw [← here]
        exact write_done rfl
    | some fault =>
      have left : fault.leavesTmp = true ∧ tmpPath dest = path := by
        cases aside <;> simpa [faulty] using leaves
      rw [← left.2]
      exact write_leaves left.1

/-- What an entry that succeeds leaves unlisted is a conffile dropped aside. -/
theorem leaves_beside (leaves : entryLeaves host m prev faults entry x = some path)
    (done : (extractEntry host m prev faults entry x).2 = none) : ∃ d, path = newPath d := by
  have spec := extractEntry_writes host m prev faults entry x
  unfold entryLeaves at leaves
  cases wrote : entryWrite host m prev faults entry x with
  | none =>
    rw [wrote] at leaves
    cases leaves
  | some write =>
    obtain ⟨dest, aside⟩ := write
    rw [wrote] at spec leaves
    rw [spec.done.mp done] at leaves
    cases aside with
    | false => cases leaves
    | true =>
      obtain ⟨d, beside⟩ := spec.beside rfl
      exact ⟨d, (Option.some.inj leaves).symm.trans beside⟩

theorem entry_keeps_beside {d : String} (held : x.disk.holds m.name (newPath d)) :
    (extractEntry host m prev faults entry x).1.disk.holds m.name (newPath d) := by
  have spec := extractEntry_writes host m prev faults entry x
  cases wrote : entryWrite host m prev faults entry x with
  | none =>
    rw [wrote] at spec
    rwa [spec]
  | some write =>
    rw [wrote] at spec
    obtain ⟨mode, conffile, disk⟩ := spec.disk
    rw [disk]
    exact write_keeps (tmpPath_ne_newPath _ _).symm held

theorem entryTmp_of_write {dest : String} {aside : Bool}
    (wrote : entryWrite host m prev faults entry x = some (dest, aside)) :
    (entryTmp host m prev faults entry x = none ∧ ∃ cause, faults.write = some (.openTmp cause)) ∨
      (entryTmp host m prev faults entry x = some (tmpPath dest) ∧
        ∀ cause, faults.write ≠ some (.openTmp cause)) := by
  unfold entryTmp
  rw [wrote]
  cases faults.write with
  | none => exact .inr ⟨rfl, fun cause no => by cases no⟩
  | some fault =>
    cases fault with
    | openTmp cause => exact .inl ⟨rfl, cause, rfl⟩
    | writeTmp part cause | chmod removed cause | rename cause =>
      exact .inr ⟨rfl, fun cause no => by cases no⟩

theorem entryTmp_of_no_write (wrote : entryWrite host m prev faults entry x = none) :
    entryTmp host m prev faults entry x = none := by
  unfold entryTmp
  rw [wrote]

theorem entry_present (there : (x.disk.files path).isSome = true)
    (apart : entryTmp host m prev faults entry x ≠ some path) :
    ((extractEntry host m prev faults entry x).1.disk.files path).isSome = true := by
  have spec := extractEntry_writes host m prev faults entry x
  cases wrote : entryWrite host m prev faults entry x with
  | none =>
    rw [wrote] at spec
    rwa [spec]
  | some write =>
    obtain ⟨dest, aside⟩ := write
    rw [wrote] at spec
    obtain ⟨mode, conffile, disk⟩ := spec.disk
    rw [disk]
    refine write_present there ?_
    rcases entryTmp_of_write wrote with ⟨-, opened⟩ | ⟨tmp, -⟩
    · exact .inr opened
    · exact .inl fun here => apart (by rw [tmp, here])

theorem present_of_entry
    (there : ((extractEntry host m prev faults entry x).1.disk.files path).isSome = true) :
    (x.disk.files path).isSome = true ∨
      (extractEntry host m prev faults entry x).1.disk.holds m.name path := by
  have spec := extractEntry_writes host m prev faults entry x
  cases wrote : entryWrite host m prev faults entry x with
  | none =>
    rw [wrote] at spec
    rw [spec] at there
    exact .inl there
  | some write =>
    rw [wrote] at spec
    obtain ⟨mode, conffile, disk⟩ := spec.disk
    rw [disk] at there ⊢
    exact present_of_write there

theorem tmp_of_entry (tmp : entryTmp host m prev faults entry x = some path)
    (there : ((extractEntry host m prev faults entry x).1.disk.files path).isSome = true) :
    (extractEntry host m prev faults entry x).1.disk.holds m.name path := by
  have spec := extractEntry_writes host m prev faults entry x
  cases wrote : entryWrite host m prev faults entry x with
  | none =>
    rw [entryTmp_of_no_write wrote] at tmp
    cases tmp
  | some write =>
    obtain ⟨dest, aside⟩ := write
    rw [wrote] at spec
    obtain ⟨mode, conffile, disk⟩ := spec.disk
    rw [disk] at there ⊢
    rcases entryTmp_of_write wrote with ⟨absent, -⟩ | ⟨present, opened⟩
    · rw [absent] at tmp
      cases tmp
    · obtain rfl := Option.some.inj (present.symm.trans tmp)
      exact tmp_of_write opened there

/-- Where only files of this installation are, that stays so. -/
theorem entry_owns (owned : (x.disk.files path).isSome = true → x.disk.holds m.name path)
    (there : ((extractEntry host m prev faults entry x).1.disk.files path).isSome = true) :
    (extractEntry host m prev faults entry x).1.disk.holds m.name path := by
  rcases present_of_entry there with before | held
  · by_cases tmp : entryTmp host m prev faults entry x = some path
    · exact tmp_of_entry tmp there
    · have held := owned before
      have spec := extractEntry_writes host m prev faults entry x
      cases wrote : entryWrite host m prev faults entry x with
      | none =>
        rw [wrote] at spec
        rwa [spec]
      | some write =>
        obtain ⟨dest, aside⟩ := write
        rw [wrote] at spec
        obtain ⟨mode, conffile, disk⟩ := spec.disk
        rw [disk]
        rcases entryTmp_of_write wrote with ⟨-, cause, faulty⟩ | ⟨present, -⟩
        · rwa [faulty]
        · exact write_keeps (fun here => tmp (by rw [present, here])) held
  · exact held

end Entry

/-! ## What the extraction of a payload does -/

/-- An entry that succeeds is listed. -/
theorem extractEntry_listed (host : Host) (m : Manifest) (prev : Option DBEntry)
    (faults : EntryFaults) (entry : TarEntry) (x : Extraction) :
    (extractEntry host m prev faults entry x).1.files =
      x.files ++
        if (extractEntry host m prev faults entry x).2 = none then entry.file.toList else [] := by
  have effect := extractEntry_step host m prev faults entry x
  generalize extractEntry host m prev faults entry x = result at effect ⊢
  obtain ⟨after, failure⟩ := result
  cases effect with
  | skipped other =>
    have none_ : entry.file = none := by
      rcases other with unnamed | dir
      · simp [TarEntry.file, unnamed]
      · simp [TarEntry.file, dir]
    simp [none_]
  | refused | unwritten => simp
  | plain regular named | conffile regular named | aside regular named | kept regular named =>
    simp [TarEntry.file, regular, named]

section Run

variable {m : Manifest} {prev : Option DBEntry} {faults : Nat → EntryFaults} {path : String}

/-- The extraction lists the files that it gets through. -/
theorem extractFrom_listed (entries : List TarEntry) (i : Nat) (x : Extraction) :
    (extractFrom host m prev faults i entries x).1.files =
      x.files ++ extractedFrom host m prev faults i entries x := by
  induction entries generalizing i x with
  | nil => simp [extractFrom, extractedFrom]
  | cons entry rest ih =>
    have listed := extractEntry_listed host m prev (faults i) entry x
    unfold extractFrom extractedFrom
    rcases result : extractEntry host m prev (faults i) entry x with ⟨after, _ | failure⟩
    · rw [result] at listed
      simp only [if_true] at listed
      dsimp only
      rw [ih, listed, List.append_assoc]
    · rw [result] at listed
      simpa using listed

/-- What every entry keeps, whatever it is, the extraction keeps. -/
theorem extractFrom_keeps (Inv : Extraction → Prop)
    (keeps : ∀ faults entry x, Inv x → Inv (extractEntry host m prev faults entry x).1)
    (entries : List TarEntry) (i : Nat) {x : Extraction} (start : Inv x) :
    Inv (extractFrom host m prev faults i entries x).1 := by
  induction entries generalizing i x with
  | nil => exact start
  | cons entry rest ih =>
    have kept := keeps (faults i) entry x start
    unfold extractFrom
    rcases result : extractEntry host m prev (faults i) entry x with ⟨after, _ | failure⟩
    · rw [result] at kept
      exact ih (i + 1) kept
    · rwa [result] at kept

/-- Every file of the package is one that was there, one that is listed, or one that an entry
left. -/
theorem extractFrom_held {L : String → Prop} (entries : List TarEntry) (i : Nat) (x : Extraction)
    (left : AtEach host m prev faults
      (fun faults entry x => ∀ path, entryLeaves host m prev faults entry x = some path → L path)
      i entries x)
    (listed : ∀ f ∈ extractedFrom host m prev faults i entries x, L (host.rootJoin f))
    (start : ∀ path, x.disk.holds m.name path → L path) (path : String)
    (held : (extractFrom host m prev faults i entries x).1.disk.holds m.name path) : L path := by
  induction entries generalizing i x with
  | nil => exact start path held
  | cons entry rest ih =>
    obtain ⟨here, later⟩ := left
    have next : ∀ path, (extractEntry host m prev (faults i) entry x).1.disk.holds m.name path →
        L path := by
      intro path held
      rcases held_of_entry held with before | ⟨done, f, file, at_⟩ | leaves
      · exact start path before
      · rw [← at_]
        apply listed
        unfold extractedFrom
        rcases result : extractEntry host m prev (faults i) entry x with ⟨after, _ | failure⟩
        · simp [file]
        · rw [result] at done
          cases done
      · exact here path leaves
    unfold extractFrom at held
    unfold extractedFrom at listed
    rcases result : extractEntry host m prev (faults i) entry x with ⟨after, _ | failure⟩
    · rw [result] at held later listed next
      exact ih (i + 1) after later
        (fun f member => listed f (List.mem_append_right _ member)) next held
    · rw [result] at held next
      exact next path held

/-- What an entry leaves is still there at the end. -/
theorem extractFrom_leaves {L : String → Prop} (entries : List TarEntry) (i : Nat) (x : Extraction)
    (all : ∀ path, (extractFrom host m prev faults i entries x).1.disk.holds m.name path → L path) :
    AtEach host m prev faults
      (fun faults entry x => ∀ path, entryLeaves host m prev faults entry x = some path → L path)
      i entries x := by
  induction entries generalizing i x with
  | nil => trivial
  | cons entry rest ih =>
    unfold extractFrom at all
    refine ⟨fun path leaves => ?_, ?_⟩
    · have held := leaves_held leaves
      rcases result : extractEntry host m prev (faults i) entry x with ⟨after, _ | failure⟩
      · -- the entry succeeded, so it left a conffile dropped aside, which no other entry deletes
        obtain ⟨d, rfl⟩ := leaves_beside leaves (by rw [result])
        rw [result] at held all
        exact all _ (extractFrom_keeps (fun x => x.disk.holds m.name (newPath d))
          (fun _ _ _ held => entry_keeps_beside held) rest (i + 1) held)
      · rw [result] at held all
        exact all path held
    · rcases result : extractEntry host m prev (faults i) entry x with ⟨after, _ | failure⟩
      · rw [result] at all
        exact ih (i + 1) after all
      · trivial

/-- A file stays, unless an entry puts its temporary file there. -/
theorem extractFrom_present (entries : List TarEntry) (i : Nat) (x : Extraction)
    (apart : AtEach host m prev faults
      (fun faults entry x => entryTmp host m prev faults entry x ≠ some path) i entries x)
    (there : (x.disk.files path).isSome = true) :
    ((extractFrom host m prev faults i entries x).1.disk.files path).isSome = true := by
  induction entries generalizing i x with
  | nil => exact there
  | cons entry rest ih =>
    obtain ⟨here, later⟩ := apart
    have kept := entry_present there here
    unfold extractFrom
    rcases result : extractEntry host m prev (faults i) entry x with ⟨after, _ | failure⟩
    · rw [result] at kept later
      exact ih (i + 1) after later kept
    · rwa [result] at kept

/-- A file that is there at the end is of this installation, or it was there before and no entry
put its temporary file there. -/
theorem present_of_extractFrom (entries : List TarEntry) (i : Nat) (x : Extraction)
    (there : ((extractFrom host m prev faults i entries x).1.disk.files path).isSome = true) :
    (extractFrom host m prev faults i entries x).1.disk.holds m.name path ∨
      (x.disk.files path).isSome = true ∧
        AtEach host m prev faults
          (fun faults entry x => entryTmp host m prev faults entry x ≠ some path) i entries x := by
  by_cases owned : (x.disk.files path).isSome = true → x.disk.holds m.name path
  · exact .inl (extractFrom_keeps
      (fun x => (x.disk.files path).isSome = true → x.disk.holds m.name path)
      (fun _ _ _ owned there => entry_owns owned there) entries i owned there)
  · obtain ⟨before, -⟩ := Classical.not_imp.mp owned
    clear owned
    induction entries generalizing i x with
    | nil => exact .inr ⟨before, trivial⟩
    | cons entry rest ih =>
      by_cases tmp : entryTmp host m prev (faults i) entry x = some path
      · left
        have owned : ((extractEntry host m prev (faults i) entry x).1.disk.files path).isSome =
            true → (extractEntry host m prev (faults i) entry x).1.disk.holds m.name path :=
          fun there => tmp_of_entry tmp there
        unfold extractFrom at there ⊢
        rcases result : extractEntry host m prev (faults i) entry x with ⟨after, _ | failure⟩
        · rw [result] at there owned
          exact extractFrom_keeps
            (fun x => (x.disk.files path).isSome = true → x.disk.holds m.name path)
            (fun _ _ _ owned there => entry_owns owned there) rest (i + 1) owned there
        · rw [result] at there owned
          exact owned there
      · have kept := entry_present before tmp
        rcases result : extractEntry host m prev (faults i) entry x with ⟨after, _ | failure⟩
        · have later : extractFrom host m prev faults i (entry :: rest) x =
              extractFrom host m prev faults (i + 1) rest after := by
            rw [extractFrom, result]
          rw [later] at there ⊢
          rw [result] at kept
          rcases ih (i + 1) after there kept with held | ⟨-, apart⟩
          · exact .inl held
          · refine .inr ⟨before, tmp, ?_⟩
            rwa [result]
        · refine .inr ⟨before, tmp, ?_⟩
          rw [result]
          trivial

end Run

end HelixKit.Pkg
