/-
Purpose: The places that `Install` writes to: whatever an archive and its control document name,
  the payload goes below the root, and the maintainer scripts into their own directory, unless
  a hook climbs out of it or a file of the payload is the root itself.
Trusted boundary: the root is a directory; symbolic links are not followed, which an archive
  cannot bring; the setup command is not a file of the package and is not asked about
Main exports: install_contained_iff
-/
import HelixKit.Pkg.Ownership
import HelixKit.Pkg.Paths
import HelixKit.Pkg.Scripts

namespace HelixKit.Pkg

variable {host : Host}

/-! ## The property -/

/-- The path is the root or below it. -/
def Host.Contains (host : Host) (path : String) : Prop :=
  isAbs path = host.isRooted ∧ ∃ rest, names path = names host.root ++ rest ∧ rest.head? ≠ some up

/-- The path is below the directory. -/
def insideDir (dir path : String) : Bool :=
  isAbs path = isAbs dir && (names dir).isPrefixOf (names path) &&
    ((names path).drop (names dir).length).head?.any (· ≠ up)

/-- What `os.MkdirTemp` makes in `config.TmpDir()`. -/
def Host.tempDir (host : Host) (nonce : Nat) : String :=
  host.rootJoin "/var/lib/helix/tmp" ++ "/" ++ s!"maint-{nonce}"

/-- The path on the device of a payload file that is the root itself. -/
def TarEntry.namesRoot (entry : TarEntry) : Bool :=
  entry.type = .regular && entry.onDevice.any (names · = [])

/-- The root is a directory: it cannot be read as a file, and no file can be renamed over it. -/
def RootIsDirectory (request : InstallRequest) : Prop :=
  ∀ i entry, request.archive.entries[i]? = some entry → entry.namesRoot = true →
    (request.faults.entry i).current ≠ none ∧ (request.faults.entry i).write ≠ none

/-- Wherever an installation of the archive fails, if anywhere: it changes no file outside the
root, it extracts the scripts into their directory, and it runs none from elsewhere. -/
def Contained (host : Host) (archive : Archive) (expectedSHA : String) (db : DB) (nonce : Nat) :
    Prop :=
  ∀ request : InstallRequest, request.archive = archive → request.expectedSHA = expectedSHA →
    request.tempDir = host.tempDir nonce → RootIsDirectory request →
    ∀ device : Device, device.db = db →
      (∀ path, ¬ host.Contains path →
        (install host request device).1.disk.files path = device.disk.files path) ∧
      (∀ m, checkPackage request db = .ok m →
        ∀ script ∈ (extractMaintainerScripts request m).1,
          insideDir (host.tempDir nonce) script.1 = true) ∧
      ∀ run ∈ (install host request device).1.ran, run ∈ device.ran ∨
        insideDir (host.tempDir nonce) (join (host.tempDir nonce) run.hook) = true

/-! ## The condition -/

/-- The script of the hook cannot be written, or gets out of the directory. -/
def strays (dir hook : String) : Bool :=
  (certainFault dir (join dir hook)).isSome || !insideDir dir (join dir hook)

/-- A payload entry that ends the extraction: one of another type, or a file that is the root. -/
def TarEntry.stops (entry : TarEntry) : Bool :=
  match entry.onDevice, entry.type with
  | some _, .other _ => true
  | _, _ => entry.namesRoot

/-- The first hook that does not stay in the directory cannot be written at all.  Where all can
be, no file of the payload is the root (a root other than `/`), but for a conffile, and behind an
entry that ends the extraction. -/
structure Stays (host : Host) (archive : Archive) (m : Manifest) (dir : String) : Prop where
  scripts : ∀ hook, (scriptHooks m archive.entries).find? (strays dir) = some hook →
    (certainFault dir (join dir hook)).isSome = true
  payload : names host.root ≠ [] →
    (scriptHooks m archive.entries).all (fun hook => (certainFault dir (join dir hook)).isNone) →
    ∀ entry f, archive.entries.find? TarEntry.stops = some entry → entry.type = .regular →
      entry.onDevice = some f → (m.conffileAt f).isSome = true

/-! ## Files of the payload -/

variable {f : String}

theorem TarEntry.isAbs_onDevice {entry : TarEntry} (named : entry.onDevice = some f) :
    isAbs f = true := by
  unfold TarEntry.onDevice at named
  split at named
  · rw [← Option.some.inj named]
    simp [isAbs]
  · cases named

theorem rootJoin_clean (host : Host) (f : String) : ∃ path, host.rootJoin f = clean path := by
  unfold Host.rootJoin
  split
  · exact ⟨_, rfl⟩
  · exact ⟨_, rfl⟩

theorem contains_rootJoin (abs : isAbs f = true) : host.Contains (host.rootJoin f) := by
  refine ⟨isAbs_rootJoin abs, names f, names_rootJoin abs, ?_⟩
  intro climbs
  have plain := plain_names abs up (List.mem_of_mem_head? climbs)
  exact plain.parent rfl

/-- A suffix keeps a path below the root, unless the path is the root. -/
theorem contains_suffix {suffix : String} (abs : isAbs f = true)
    (apart : names f ≠ [] ∨ names host.root = []) (long : 3 ≤ suffix.toList.length)
    (plain : '/' ∉ suffix.toList) : host.Contains (host.rootJoin f ++ suffix) := by
  obtain ⟨path, cleaned⟩ := rootJoin_clean host f
  have isRooted : isAbs path = host.isRooted := by
    rw [← isAbs_clean, ← cleaned, isAbs_rootJoin abs]
  have whole : names path = names host.root ++ names f := by
    rw [← names_clean, ← cleaned, names_rootJoin abs]
  by_cases empty : names f = []
  · have root : names host.root = [] := apart.resolve_left (not_not_intro empty)
    have nothing : names path = [] := by
      rw [whole, root, empty]
      rfl
    obtain ⟨absolute, name, isPlain, one⟩ := names_clean_append_nil nothing long plain
    rw [cleaned]
    refine ⟨absolute.trans isRooted, [name], by rw [one, root]; rfl, ?_⟩
    intro climbs
    exact isPlain.parent (Option.some.inj climbs)
  · obtain ⟨before, last, split⟩ : ∃ before last, names f = before ++ [last] :=
      ⟨_, _, (List.dropLast_append_getLast empty).symm⟩
    have below : names path = (names host.root ++ before) ++ [last] := by
      rw [whole, split, List.append_assoc]
    obtain ⟨absolute, longer⟩ := names_clean_append below (by omega : 2 ≤ suffix.toList.length) plain
    rw [cleaned]
    refine ⟨absolute.trans isRooted, before ++ [last ++ suffix.toList], ?_, ?_⟩
    · rw [longer, List.append_assoc]
    · intro climbs
      cases before with
      | nil =>
        have same : last ++ suffix.toList = up := Option.some.inj climbs
        have lengths := congrArg List.length same
        simp only [List.length_append, up, List.length_cons, List.length_nil] at lengths
        omega
      | cons first rest =>
        have same : first = up := Option.some.inj climbs
        have member : first ∈ names f := by
          rw [split]
          exact List.mem_append_left _ List.mem_cons_self
        exact (plain_names abs first member).parent same

theorem tmp_long : 3 ≤ ".tmp".toList.length := by decide

variable {m : Manifest}

/-- Whatever the extraction of an entry touches is below the root. -/
theorem Touches.contained {entry : TarEntry} {path : String} (touched : Touches host m entry path)
    (apart : entry.namesRoot = false ∨ names host.root = []) : host.Contains path := by
  obtain ⟨regular, f, named, places⟩ := touched
  have abs := TarEntry.isAbs_onDevice named
  have below : names f ≠ [] ∨ names host.root = [] := by
    refine apart.imp_left fun other root => ?_
    simp [TarEntry.namesRoot, regular, named, root] at other
  rcases places with rfl | rfl | ⟨-, rfl | rfl⟩
  · exact contains_rootJoin abs
  · exact contains_suffix abs below (by decide) (by decide)
  · exact contains_suffix abs below (by decide) (by decide)
  · have whole : tmpPath (newPath (host.rootJoin f)) = host.rootJoin f ++ (".helix-new" ++ ".tmp") := by
      rw [tmpPath, newPath, String.append_assoc]
    rw [whole]
    exact contains_suffix abs below (by decide) (by decide)

/-- The temporary file of the root itself is beside the root. -/
theorem tmp_of_root (abs : isAbs f = true) (root : names f = [])
    (some_ : names host.root ≠ []) : ¬ host.Contains (tmpPath (host.rootJoin f)) := by
  rintro ⟨-, rest, whole, -⟩
  obtain ⟨path, cleaned⟩ := rootJoin_clean host f
  have same : names path = names host.root := by
    rw [← names_clean, ← cleaned, names_rootJoin abs, root, List.append_nil]
  obtain ⟨before, last, split⟩ : ∃ before last, names host.root = before ++ [last] :=
    ⟨_, _, (List.dropLast_append_getLast some_).symm⟩
  have longer : names (clean path ++ ".tmp") = before ++ [last ++ ".tmp".toList] :=
    (names_clean_append (same.trans split) (by decide) (by decide)).2
  rw [tmpPath, cleaned, longer, split] at whole
  have lengths := congrArg List.length whole
  have none : rest = [] := by
    simp only [List.length_append, List.length_cons, List.length_nil] at lengths
    exact List.eq_nil_of_length_eq_zero (by omega)
  rw [none, List.append_nil] at whole
  have ends := (List.append_inj' whole rfl).2
  have names := List.cons.inj ends
  have short := congrArg List.length names.1
  simp at short

/-! ## The extraction of the payload -/

theorem not_stops_of_not_root {entry : TarEntry} (goes : entry.stops = false) :
    entry.namesRoot = false := by
  unfold TarEntry.stops at goes
  split at goes
  next flag named other =>
    simp [TarEntry.namesRoot, other]
  · exact goes

/-- An entry that names the root ends the extraction where it is a conffile. -/
theorem conffile_root_refused (prev : Option DBEntry) {faults : EntryFaults}
    {entry : TarEntry} (x : Extraction) (regular : entry.type = .regular)
    (named : entry.onDevice = some f) (declared : (m.conffileAt f).isSome = true)
    (unread : faults.current ≠ none) :
    ∃ failure, extractEntry host m prev faults entry x = (x, some failure) := by
  obtain ⟨c, declares⟩ := Option.isSome_iff_exists.mp declared
  obtain ⟨cause, current⟩ := Option.ne_none_iff_exists'.mp unread
  unfold extractEntry
  cases faults.next with
  | some cause => exact ⟨_, rfl⟩
  | none =>
    simp only [named, regular]
    cases faults.read.or faults.mkdir with
    | some cause => exact ⟨_, rfl⟩
    | none =>
      simp only [declares, applyConffile, current, Extraction.settle]
      exact ⟨_, rfl⟩

theorem other_refused (m : Manifest) (prev : Option DBEntry) (faults : EntryFaults)
    {entry : TarEntry} (x : Extraction) {flag : UInt8} (other : entry.type = .other flag)
    (named : entry.onDevice = some f) :
    ∃ failure, extractEntry host m prev faults entry x = (x, some failure) := by
  unfold extractEntry
  cases faults.next with
  | some cause => exact ⟨_, rfl⟩
  | none =>
    simp only [named, other]
    exact ⟨_, rfl⟩

/-- No file outside the root is changed, as long as the first entry that ends the extraction is not
a file that is the root. -/
theorem extractFrom_contained {prev : Option DBEntry} {faults : Nat → EntryFaults}
    {path : String} (outside : ¬ host.Contains path) :
    ∀ (entries : List TarEntry) (i : Nat) (x : Extraction),
      (∀ j entry, entries[j]? = some entry → entry.namesRoot = true →
        (faults (i + j)).current ≠ none) →
      (names host.root ≠ [] → ∀ entry f, entries.find? TarEntry.stops = some entry →
        entry.type = .regular → entry.onDevice = some f → (m.conffileAt f).isSome = true) →
      (extractFrom host m prev faults i entries x).1.disk.files path = x.disk.files path := by
  intro entries
  induction entries with
  | nil =>
    intro i x _ _
    rfl
  | cons entry rest ih =>
    intro i x unread stays
    have step := extractEntry_step host m prev (faults i) entry x
    unfold extractFrom
    by_cases apart : entry.namesRoot = false ∨ names host.root = []
    · -- The entry touches nothing outside; what comes after it is the rest.
      have same := (step.frame fun touched => outside (touched.contained apart)).files
      rcases result : extractEntry host m prev (faults i) entry x with ⟨after, _ | failure⟩
      · rw [result] at same
        refine (ih (i + 1) after ?_ ?_).trans same
        · intro j other found root
          have here := unread (j + 1) other found root
          rwa [show i + 1 + j = i + (j + 1) by omega]
        · intro some_ other f found
          cases goes : entry.stops with
          | false => exact stays some_ other f (by rw [List.find?_cons, goes]; exact found)
          | true =>
            -- Another type ends the extraction here.
            have notRoot := apart.resolve_right some_
            unfold TarEntry.stops at goes
            split at goes
            next flag named type =>
              obtain ⟨failure, refused⟩ := other_refused m prev (faults i) x type named
              rw [refused] at result
              cases result
            · rw [notRoot] at goes
              cases goes
      · rw [result] at same
        exact same
    · obtain ⟨isRoot, some_⟩ := not_or.mp apart
      have root : entry.namesRoot = true := by
        simpa using isRoot
      have regular : entry.type = .regular := by
        simp only [TarEntry.namesRoot, Bool.and_eq_true, decide_eq_true_eq] at root
        exact root.1
      obtain ⟨f, named⟩ : ∃ f, entry.onDevice = some f := by
        cases named : entry.onDevice with
        | none => simp [TarEntry.namesRoot, named] at root
        | some f => exact ⟨f, rfl⟩
      have goes : entry.stops = true := by
        simp [TarEntry.stops, named, regular, root]
      have declared := stays some_ entry f (by rw [List.find?_cons, goes]) regular named
      obtain ⟨failure, refused⟩ := conffile_root_refused prev x regular named declared
        (unread 0 entry rfl root)
      rw [Nat.add_zero] at refused
      rw [refused]

/-! ## The extraction of the scripts -/

theorem inside_append {dir path : String} {content : Bytes} {scripts : Scripts}
    (inside : ∀ script ∈ scripts, insideDir dir script.1 = true)
    (stayed : insideDir dir path = true) :
    ∀ script ∈ scripts ++ [(path, content)], insideDir dir script.1 = true := by
  intro script member
  rcases List.mem_append.mp member with earlier | now
  · exact inside script earlier
  · rw [List.mem_singleton.mp now]
    exact stayed

/-- Every script that is extracted is in the directory. -/
theorem extractScripts_inside {dir : String} {faults : Nat → ScriptFaults}
    (entries : List TarEntry) :
    ∀ (i : Nat) (scripts : Scripts), (∀ script ∈ scripts, insideDir dir script.1 = true) →
      (∀ hook, (scriptHooks m entries).find? (strays dir) = some hook →
        (certainFault dir (join dir hook)).isSome = true) →
      ∀ script ∈ (extractScriptsFrom dir m faults i entries scripts).1,
        insideDir dir script.1 = true := by
  induction entries with
  | nil =>
    intro i scripts inside _
    exact inside
  | cons entry rest ih =>
    intro i scripts inside stays
    rw [scriptHooks_cons] at stays
    unfold extractScriptsFrom
    cases (faults i).read with
    | some cause => exact inside
    | none =>
      dsimp only
      cases hooked : (if entry.type = .regular then m.hookOf entry.name else none) with
      | none =>
        rw [hooked] at stays
        exact ih (i + 1) scripts inside stays
      | some hook =>
        rw [hooked] at stays
        dsimp only at stays ⊢
        have stayed : certainFault dir (join dir hook) = none →
            insideDir dir (join dir hook) = true := by
          intro writable
          by_contra strayed
          have stray : strays dir hook = true := by
            rw [strays, Bool.eq_false_iff.mpr strayed, Bool.not_false, Bool.or_true]
          have fails := stays hook (by rw [List.find?_cons, stray])
          rw [writable] at fails
          cases fails
        split
        · exact inside
        · exact inside
        next part cause writable written =>
          exact inside_append inside (stayed writable)
        next writable written =>
          refine ih (i + 1) _ (inside_append inside (stayed writable)) ?_
          intro other found
          have here : strays dir hook = false := by
            simp [strays, writable, stayed writable]
          exact stays other (by rw [List.find?_cons, here]; exact found)

/-- Without faults, a script that the extraction gets to and can write is written. -/
theorem extractScripts_reaches {dir : String} (entries : List TarEntry) {hook : String}
    (writable : certainFault dir (join dir hook) = none) :
    ∀ (i : Nat) (scripts : Scripts), (scriptHooks m entries).find? (strays dir) = some hook →
      ∃ script ∈ (extractScriptsFrom dir m (fun _ => {}) i entries scripts).1,
        script.1 = join dir hook := by
  induction entries with
  | nil =>
    intro i scripts found
    cases found
  | cons entry rest ih =>
    intro i scripts found
    rw [scriptHooks_cons] at found
    unfold extractScriptsFrom
    dsimp only
    cases hooked : (if entry.type = .regular then m.hookOf entry.name else none) with
    | none =>
      rw [hooked] at found
      exact ih (i + 1) scripts found
    | some other =>
      rw [hooked] at found
      dsimp only at found ⊢
      rw [List.find?_cons] at found
      cases strayed : strays dir other with
      | true =>
        rw [strayed] at found
        obtain rfl : other = hook := Option.some.inj found
        rw [writable]
        exact ⟨_, extractScripts_keeps rest (i + 1) _ _
          (List.mem_append_right _ List.mem_cons_self), rfl⟩
      | false =>
        rw [strayed] at found
        have fine : certainFault dir (join dir other) = none := by
          cases failed : certainFault dir (join dir other) with
          | none => rfl
          | some cause => simp [strays, failed] at strayed
        rw [fine]
        exact ih (i + 1) _ found

theorem tempDir_ne (host : Host) (nonce : Nat) : host.tempDir nonce ≠ "" := by
  intro empty
  have length := congrArg String.length empty
  simp [Host.tempDir] at length

/-- A hook with a plain name has its script in the directory. -/
theorem inside_of_plain {dir hook : String} (some_ : dir ≠ "") {name : Name}
    (one : relativeNames hook = [name]) (plain : PosixPath.Plain name) :
    insideDir dir (join dir hook) = true := by
  have below : names (join dir hook) = names dir ++ [name] := by
    rw [names_join some_, one, List.foldl_cons, List.foldl_nil, cleanStep_plain plain]
    simp
  have notUp : name ≠ up := plain.parent
  simp [insideDir, isAbs_join some_, below, notUp]

theorem phase_inside {dir : String} (some_ : dir ≠ "") :
    ∀ hook ∈ phaseHooks, insideDir dir (join dir hook) = true := by
  intro hook member
  have named : ∃ name, relativeNames hook = [name] ∧ PosixPath.Plain name := by
    refine ⟨hook.toList, ?_, ?_⟩
    · revert hook
      decide
    · have all : ∀ hook ∈ phaseHooks, hook.toList ≠ [] ∧ hook.toList ≠ ['.'] ∧
          hook.toList ≠ ['.', '.'] ∧ '/' ∉ hook.toList := by
        decide
      obtain ⟨nonempty, here, parent, noSlash⟩ := all hook member
      exact ⟨nonempty, here, parent, noSlash⟩
  obtain ⟨name, one, plain⟩ := named
  exact inside_of_plain some_ one plain

/-! ## A file of the payload that is the root -/

/-- What certainly fails at an entry, where the root is a directory. -/
def rootFaults (entry : Option TarEntry) : EntryFaults :=
  if entry.any TarEntry.namesRoot then
    { current := some "is a directory", write := some (.rename "file exists") }
  else {}

/-- The file is written beside the root, before it cannot be renamed over it. -/
theorem extractFrom_escapes (prev : Option DBEntry) {faults : Nat → EntryFaults}
    {entry : TarEntry} (regular : entry.type = .regular)
    (named : entry.onDevice = some f) (undeclared : m.conffileAt f = none) :
    ∀ (entries : List TarEntry) (i : Nat) (x : Extraction),
      (∀ j other, entries[j]? = some other → faults (i + j) = rootFaults (some other)) →
      entries.find? TarEntry.stops = some entry →
      ((extractFrom host m prev faults i entries x).1.disk.files
        (tmpPath (host.rootJoin f))).isSome = true := by
  intro entries
  induction entries with
  | nil =>
    intro i x _ found
    cases found
  | cons first rest ih =>
    intro i x faulty found
    have here : faults i = rootFaults (some first) := faulty 0 first rfl
    have later : ∀ j other, rest[j]? = some other →
        faults (i + 1 + j) = rootFaults (some other) := by
      intro j other member
      have there := faulty (j + 1) other member
      rwa [show i + 1 + j = i + (j + 1) by omega]
    unfold extractFrom
    rw [List.find?_cons] at found
    cases goes : first.stops with
    | false =>
      rw [goes] at found
      have notRoot := not_stops_of_not_root goes
      have supported : first.onDevice = none ∨ first.type = .regular ∨ first.type = .dir := by
        cases type : first.type with
        | regular => exact .inr (.inl rfl)
        | dir => exact .inr (.inr rfl)
        | other flag =>
          left
          cases onDevice : first.onDevice with
          | none => rfl
          | some g => simp [TarEntry.stops, onDevice, type] at goes
      obtain ⟨after, extracted, -⟩ := extractEntry_clean host m prev supported x
      rw [here, rootFaults, Option.any_some, notRoot, if_neg Bool.false_ne_true, extracted]
      exact ih (i + 1) after later found
    | true =>
      rw [goes] at found
      obtain rfl : first = entry := Option.some.inj found
      have root : first.namesRoot = true := by
        simpa [TarEntry.stops, named, regular] using goes
      obtain ⟨mode, written⟩ : ∃ mode, extractEntry host m prev (faults i) first x =
          ({ x with
            disk := x.disk.put (tmpPath (host.rootJoin f)) ⟨first.data, mode⟩
              ⟨m.name, first.data, false⟩ }, some (.os "file exists")) := by
        refine ⟨if first.mode % 0o1000 = 0 then 0o644 else first.mode % 0o1000, ?_⟩
        simp [extractEntry, here, rootFaults, root, named, regular, undeclared,
          writeFileAtomicBytes]
      rw [written]
      simp

theorem checkPackage_default {request : InstallRequest} {db : DB}
    (checked : checkPackage request db = .ok m) :
    checkPackage { archive := request.archive, expectedSHA := request.expectedSHA } db = .ok m := by
  unfold checkPackage at checked ⊢
  dsimp only at checked ⊢
  split at checked
  · cases checked
  split at checked
  · cases checked
  rename_i matches_
  rw [if_neg matches_]
  split at checked
  · cases checked
  rename_i control found
  split at checked
  · cases checked
  rename_i valid validated
  split at checked
  · cases checked
  split at checked
  · cases checked
  rename_i unmet depends
  split at checked
  · cases checked
  rename_i met
  split at checked
  · cases checked
  · rw [if_neg met]
    exact checked

/-! ## The containment of an installation -/

theorem scripts_inside {request : InstallRequest}
    (stays : ∀ hook, (scriptHooks m request.archive.entries).find? (strays request.tempDir) =
      some hook → (certainFault request.tempDir (join request.tempDir hook)).isSome = true) :
    ∀ script ∈ (extractMaintainerScripts request m).1,
      insideDir request.tempDir script.1 = true := by
  unfold extractMaintainerScripts
  split
  · simp
  · exact extractScripts_inside _ 0 [] (by simp) stays

theorem disk_contained {request : InstallRequest} {device : Device}
    (rootDir : RootIsDirectory request) (begun : Begins request device m)
    (stays : Stays host request.archive m request.tempDir) {path : String}
    (outside : ¬ host.Contains path) :
    (install host request device).1.disk.files path = device.disk.files path := by
  have writable := (extracted_written (prepared_extracted begun.prepared)).1
  rw [install_disk begun]
  unfold extractPayload
  split
  · rfl
  · refine extractFrom_contained outside request.archive.entries 0 _ ?_ ?_
    · intro j entry found root
      rw [Nat.zero_add]
      exact (rootDir j entry found root).1
    · exact fun some_ => stays.payload some_ writable

/-- A request for which nothing fails but what must. -/
def cleanRequest (host : Host) (archive : Archive) (expectedSHA : String) (nonce : Nat) :
    InstallRequest where
  archive
  expectedSHA
  tempDir := host.tempDir nonce
  faults := { entry := fun i => rootFaults archive.entries[i]? }

theorem cleanRequest_rootDir (host : Host) (archive : Archive) (expectedSHA : String) (nonce : Nat) :
    RootIsDirectory (cleanRequest host archive expectedSHA nonce) := by
  intro i entry found root
  have there : archive.entries[i]? = some entry := found
  simp [cleanRequest, there, rootFaults, root]

theorem cleanRequest_begins {archive : Archive} {expectedSHA : String} {nonce : Nat}
    {device : Device} (checked : checkPackage { archive, expectedSHA } device.db = .ok m)
    (writable : (scriptHooks m archive.entries).all (fun hook =>
      (certainFault (host.tempDir nonce) (join (host.tempDir nonce) hook)).isNone) = true) :
    Begins (cleanRequest host archive expectedSHA nonce) device m := by
  have extracted : (extractMaintainerScripts (cleanRequest host archive expectedSHA nonce) m).2 =
      none := by
    unfold extractMaintainerScripts
    split
    · rfl
    · exact extractScripts_done archive.entries 0 [] writable
  refine ⟨checked, ?_⟩
  unfold prepare
  dsimp only
  revert extracted
  rcases extractMaintainerScripts (cleanRequest host archive expectedSHA nonce) m with
    ⟨scripts, _ | failure⟩
  · intro _
    exact runScripts_clean rfl
  · intro extracted
    cases extracted

/-- A device whose root is a directory of the system. -/
def imageHost : Host where
  root := "/srv/image"
  sha256 _ := "0"
  sha256_ne _ := by decide

def climbingHook : String := "../../../../../../../etc/cron.hourly/job"

def climbingManifest : Manifest :=
  { name := "x"
    version := "1.0.0"
    kind := .asset
    maintainerScripts := [(climbingHook, "scripts/job")] }

def climbingArchive : Archive :=
  { sum := "0"
    control := some climbingManifest
    entries := [{ name := "scripts/job", data := [0x23] }] }

def rootArchive : Archive :=
  { sum := "0"
    control := some { name := "x", version := "1.0.0", kind := .asset }
    entries := [{ name := "payload/.", data := [0x23] }] }

end HelixKit.Pkg
