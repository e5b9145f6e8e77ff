/-
Purpose: The service catalog against the database.  The catalog is what the
  runtime manager runs, the database what is installed; an operation writes them
  one after the other.
Trusted boundary: none
Main exports: catalog_published
-/
import HelixKit.Pkg.Leftovers

namespace HelixKit.Pkg

open HelixKit.Runs

variable {host : Host}

/-! ### The catalog of a database -/

variable {services : List ServiceDescriptor} {d : ServiceDescriptor}

theorem mem_upsert {x : ServiceDescriptor}
    (member : d ∈ upsert services x) : d = x ∨ d ∈ services := by
  induction services with
  | nil => exact Or.inl (List.mem_singleton.1 member)
  | cons s rest ih =>
    unfold upsert at member
    split at member
    · exact (List.mem_cons.1 member).imp_right (List.mem_cons_of_mem s)
    · rcases List.mem_cons.1 member with rfl | later
      · exact Or.inr List.mem_cons_self
      · exact (ih later).imp_right (List.mem_cons_of_mem s)

theorem mem_upsert_self (services : List ServiceDescriptor) (x : ServiceDescriptor) :
    x ∈ upsert services x := by
  induction services with
  | nil => exact List.mem_singleton_self x
  | cons s rest ih =>
    unfold upsert
    split
    · exact List.mem_cons_self
    · exact List.mem_cons_of_mem s ih

/-- Another service is replaced only by one of its name. -/
theorem mem_upsert_of_mem {x : ServiceDescriptor}
    (member : d ∈ services) (named : d.name = x.name → d = x) : d ∈ upsert services x := by
  induction services with
  | nil => cases member
  | cons s rest ih =>
    unfold upsert
    split
    · next same =>
      rcases List.mem_cons.1 member with rfl | later
      · rw [named same]
        exact List.mem_cons_self
      · exact List.mem_cons_of_mem x later
    · rcases List.mem_cons.1 member with rfl | later
      · exact List.mem_cons_self
      · exact List.mem_cons_of_mem s (ih later)

/-- The services that share a name are one service. -/
def OneOfEachName (services : List ServiceDescriptor) : Prop :=
  ∀ s ∈ services, ∀ d ∈ services, s.name = d.name → s = d

theorem mem_foldl_upsert {start : List ServiceDescriptor}
    (distinct : OneOfEachName (start ++ services)) :
    d ∈ services.foldl upsert start ↔ d ∈ start ∨ d ∈ services := by
  induction services generalizing start with
  | nil => simp
  | cons x rest ih =>
    have inUpsert : ∀ s, s ∈ upsert start x ↔ s = x ∨ s ∈ start := by
      intro s
      constructor
      · exact mem_upsert
      · rintro (rfl | member)
        · exact mem_upsert_self start s
        · exact mem_upsert_of_mem member (distinct s (by simp [member]) x (by simp))
    rw [List.foldl_cons, ih, inUpsert]
    · rw [List.mem_cons, or_assoc, or_left_comm]
    · intro s inS t inT
      have here : ∀ s, s ∈ upsert start x ++ rest → s ∈ start ++ x :: rest := by
        intro s member
        rcases List.mem_append.1 member with old | new
        · rcases (inUpsert s).1 old with rfl | old <;> simp [*]
        · simp [new]
      exact distinct s (here s inS) t (here t inT)

/-- The services of the installed packages. -/
def Publishes (db : DB) (d : ServiceDescriptor) : Prop :=
  ∃ name e, db.get name = some e ∧ e.published = some d

/-- Two installed packages whose services share a name have the same service. -/
def OneService (db : DB) : Prop :=
  ∀ s d, Publishes db s → Publishes db d → s.name = d.name → s = d

variable {db : DB}

theorem mem_filterMap_list :
    d ∈ db.list.filterMap DBEntry.published ↔ Publishes db d := by
  rw [List.mem_filterMap]
  constructor
  · rintro ⟨e, member, published⟩
    obtain ⟨name, found⟩ := DB.mem_list.1 member
    exact ⟨name, e, found, published⟩
  · rintro ⟨name, e, found, published⟩
    exact ⟨e, DB.mem_list.2 ⟨name, found⟩, published⟩

/-- What `syncCatalog` writes. -/
theorem mem_catalogOf (oneService : OneService db) :
    d ∈ catalogOf db ↔ Publishes db d := by
  unfold catalogOf
  rw [List.mem_insertionSort, mem_foldl_upsert, mem_filterMap_list]
  · simp
  · intro s inS t inT
    exact oneService s t (mem_filterMap_list.1 inS) (mem_filterMap_list.1 inT)

/-! ### The operations that keep the catalog -/

/-- The catalog lists the services of the installed packages, and no others. -/
def Published (device : Device) : Prop :=
  ∀ d, d ∈ device.catalog ↔ Publishes device.db d

/-- The entry, if any, publishes nothing. -/
def Silent (db : DB) (name : String) : Prop :=
  ∀ e, db.get name = some e → e.published = none

/-- An operation that leaves the catalog as the database has it. -/
structure SyncedInstall (host : Host) (m : Manifest) (request : InstallRequest) (device : Device) :
    Prop where
  /-- It does not leave a package half-installed whose service is in the catalog. -/
  half : (unpack host request m device).2.2 ≠ none → request.faults.saveDB = none →
    Silent device.db m.name
  /-- The name of its service is not that of another package's. -/
  distinct : (unpack host request m device).2.2 = none → request.faults.saveDB = none →
    ∀ s, m.service = some s → ∀ other e d, other ≠ m.name → device.db.get other = some e →
      e.published = some d → d.name = s.name → d = s
  /-- When the catalog cannot be saved the service is what it was. -/
  saved : (unpack host request m device).2.2 = none → request.faults.saveDB = none →
    request.faults.saveCatalog ≠ none →
      ((device.db.get m.name).bind DBEntry.published) = m.service

/-- An operation that leaves the catalog as the database has it. -/
def Synced (host : Host) (device : Device) : Op → Prop
  | .install request => ∀ m, Begins request device m → SyncedInstall host m request device
  | .remove request => ∀ e, device.db.get request.name = some e →
      (removeFrom host e request.purge request.faults.file 0 e.files device.disk).2 = none →
        request.faults.saveDB = none → request.faults.saveCatalog ≠ none → e.published = none
  | .edit _ _ => True

variable {e : DBEntry}

theorem publishes_put :
    Publishes (db.put e) d ↔ e.published = some d ∨
      ∃ other found, other ≠ e.name ∧ db.get other = some found ∧ found.published = some d := by
  unfold Publishes
  constructor
  · rintro ⟨name, found, present, published⟩
    by_cases here : name = e.name
    · subst here
      rw [DB.get_put_self] at present
      cases present
      exact Or.inl published
    · rw [DB.get_put_ne db e here] at present
      exact Or.inr ⟨name, found, here, present, published⟩
  · rintro (published | ⟨other, found, ne, present, published⟩)
    · exact ⟨e.name, e, DB.get_put_self db e, published⟩
    · exact ⟨other, found, by rw [DB.get_put_ne db e ne, present], published⟩

theorem publishes_removed {name : String} {purge : Bool} (keyed : e.name = name) :
    Publishes (removed db e name purge) d ↔
      ∃ other found, other ≠ name ∧ db.get other = some found ∧ found.published = some d := by
  subst keyed
  unfold removed
  split
  · unfold Publishes
    constructor
    · rintro ⟨other, found, present, published⟩
      by_cases here : other = e.name
      · subst here
        simp at present
      · rw [DB.get_delete_ne db here] at present
        exact ⟨other, found, here, present, published⟩
    · rintro ⟨other, found, ne, present, published⟩
      exact ⟨other, found, by rw [DB.get_delete_ne db ne, present], published⟩
  · rw [publishes_put]
    simp [DBEntry.published]

/-- What the database publishes is what the package publishes and what the
others do. -/
theorem publishes_split (name : String) :
    Publishes db d ↔ (db.get name).bind DBEntry.published = some d ∨
      ∃ other found, other ≠ name ∧ db.get other = some found ∧ found.published = some d := by
  constructor
  · rintro ⟨other, found, present, published⟩
    by_cases here : other = name
    · subst here
      exact Or.inl (by rw [present]; exact published)
    · exact Or.inr ⟨other, found, here, present, published⟩
  · rintro (published | ⟨other, found, -, present, published⟩)
    · obtain ⟨e, present, published⟩ := Option.bind_eq_some_iff.1 published
      exact ⟨name, e, present, published⟩
    · exact ⟨other, found, present, published⟩

/-- A new entry that publishes what the one before did changes nothing. -/
theorem publishes_same (same : (db.get e.name).bind DBEntry.published = e.published) :
    Publishes (db.put e) d ↔ Publishes db d := by
  rw [publishes_put, publishes_split e.name, same]

/-- The catalog is right, and the installed services can all be told apart. -/
structure Consistent (device : Device) : Prop where
  keyed : Keyed device.db
  published : Published device
  oneService : OneService device.db

/-- The service of a package that is installed is told apart from the others. -/
theorem OneService.put (oneService : OneService db)
    (distinct : ∀ s, e.published = some s → ∀ other found d, other ≠ e.name →
      db.get other = some found → found.published = some d → d.name = s.name → d = s) :
    OneService (db.put e) := by
  intro s d publishesS publishesD names
  rw [publishes_put] at publishesS publishesD
  rcases publishesS with ownS | ⟨otherS, foundS, neS, presentS, publishedS⟩ <;>
    rcases publishesD with ownD | ⟨otherD, foundD, neD, presentD, publishedD⟩
  · exact Option.some.inj (ownS.symm.trans ownD)
  · exact (distinct s ownS otherD foundD d neD presentD publishedD names.symm).symm
  · exact distinct d ownD otherS foundS s neS presentS publishedS names
  · exact oneService s d ⟨_, _, presentS, publishedS⟩ ⟨_, _, presentD, publishedD⟩ names

theorem Consistent.install {request : InstallRequest} {device after : Device}
    {failure : Option Failure} (consistent : Consistent device)
    (synced : Synced host device (.install request))
    (effect : InstallStep host request device after failure) (keyed : Keyed after.db) :
    Consistent after := by
  cases effect with
  | refused | unsaved => exact ⟨keyed, consistent.published, consistent.oneService⟩
  | @half m _ _ begun failed saved =>
    -- The entry published nothing before, and publishes nothing now.
    have silent : (device.db.get m.name).bind DBEntry.published = none := by
      have silent := (synced m begun).half (by simp [failed]) saved
      rw [Option.bind_eq_none_iff]
      exact silent
    constructor
    · exact keyed
    · intro d
      exact (consistent.published d).trans (publishes_same silent).symm
    · intro s d publishesS publishesD
      exact consistent.oneService s d ((publishes_same silent).1 publishesS)
        ((publishes_same silent).1 publishesD)
  | uncatalogued begun unpacked saved unsaved =>
    have same := (synced _ begun).saved unpacked saved unsaved
    constructor
    · exact keyed
    · intro d
      exact (consistent.published d).trans (publishes_same same).symm
    · intro s d publishesS publishesD
      exact consistent.oneService s d ((publishes_same same).1 publishesS)
        ((publishes_same same).1 publishesD)
  | @done m _ begun unpacked saved =>
    have oneService := consistent.oneService.put
      (e := configured request m (extractPayload host request m device).1)
      ((synced m begun).distinct unpacked saved)
    exact ⟨keyed, fun d => mem_catalogOf oneService, oneService⟩

theorem Consistent.remove {request : RemoveRequest} {device after : Device}
    {failure : Option Failure} (consistent : Consistent device)
    (synced : Synced host device (.remove request))
    (effect : RemoveStep host request device after failure) (keyed : Keyed after.db) :
    Consistent after := by
  have others : ∀ e, device.db.get request.name = some e → ∀ d,
      Publishes (removed device.db e request.name request.purge) d → Publishes device.db d := by
    intro e found d publishes
    obtain ⟨other, entry, -, present, published⟩ :=
      (publishes_removed (consistent.keyed _ _ found)).1 publishes
    exact ⟨other, entry, present, published⟩
  have oneService : ∀ e, device.db.get request.name = some e →
      OneService (removed device.db e request.name request.purge) := by
    intro e found s d publishesS publishesD
    exact consistent.oneService s d (others e found s publishesS) (others e found d publishesD)
  cases effect with
  | refused | unsaved => exact ⟨keyed, consistent.published, consistent.oneService⟩
  | @uncatalogued e _ found deleted saved unsaved =>
    have silent := synced e found deleted saved unsaved
    constructor
    · exact keyed
    · intro d
      apply (consistent.published d).trans
      rw [publishes_removed (consistent.keyed _ _ found), publishes_split request.name, found]
      simp [silent]
    · exact oneService e found
  | @done e found deleted =>
    exact ⟨keyed, fun d => mem_catalogOf (oneService e found), oneService e found⟩

theorem Consistent.step {device : Device} {op : Op} (consistent : Consistent device)
    (synced : Synced host device op) : Consistent (step host device op) := by
  have keyed : Keyed (HelixKit.Pkg.step host device op).db := consistent.keyed.step op
  unfold HelixKit.Pkg.step at keyed ⊢
  cases op with
  | install request =>
    obtain ⟨after, failure, performed, effect⟩ := perform_install host request device
    rw [performed] at keyed ⊢
    exact consistent.install synced effect keyed
  | remove request =>
    obtain ⟨after, failure, performed, effect⟩ := perform_remove host request device
    rw [performed] at keyed ⊢
    exact consistent.remove synced effect keyed
  | edit path file => exact ⟨keyed, consistent.published, consistent.oneService⟩

/-- The catalog lists the services of the installed packages, and no others,
after every run of operations that keep it. -/
theorem catalog_published (host : Host) (files : String → Option File) (ops : List Op)
    (synced : Along (step host) (Synced host) (Device.start files) ops) :
    Published (run (step host) (Device.start files) ops) := by
  have start : Consistent (Device.start files) := by
    constructor
    · intro name e found
      simp [Device.start, DB.get] at found
    · intro d
      simp [Device.start, Publishes, DB.get]
    · rintro s d ⟨name, e, found, -⟩
      simp [Device.start, DB.get] at found
  exact (synced.invariant Consistent (fun _ _ inv condition => inv.step condition) start).published

/-! ### An upgrade that fails -/

/-- The package of `TestInstallRemoveRoundTrip`, with a setup command. -/
def helixdManifest (version : String) : Manifest :=
  { name := "helixd", version, kind := .goBinary, setupCommand := ["bin/setup"]
    service := some
      { name := "helixd", enabled := true, core := true, execStart := ["/usr/lib/helix/bin/helixd"] } }

def helixdArchive (version : String) : Archive :=
  { sum := "9f86d081884c7d659a2feaa0c55ad015a3bf4f1b2b0b822cd15d6c15b0f00a08"
    control := some (helixdManifest version)
    entries := [{ name := "payload/usr/lib/helix/bin/helixd", data := ascii "#!binary\n" }] }

/-- When the setup command of an upgrade fails, the service stays in the catalog
and the package is half-installed. -/
theorem failed_upgrade_published :
    ¬ Published (run (step testHost) blank
      [.install { archive := helixdArchive "0.1.0" },
        .install { archive := helixdArchive "0.2.0", faults := { setup := some "exit status 1" } }]) := by
  intro published
  generalize upgraded : run (step testHost) blank _ = device at published
  have catalogued : device.catalog.all (fun d => d.name = "helixd") = true ∧ device.catalog ≠ [] := by
    subst upgraded
    decide
  have silent : device.db.list.all (fun e => e.published.isNone) = true := by
    subst upgraded
    decide
  obtain ⟨d, member⟩ := List.exists_mem_of_ne_nil _ catalogued.2
  obtain ⟨name, e, found, publishes⟩ := (published d).1 member
  have silentEntry := List.all_eq_true.1 silent e (DB.mem_list.2 ⟨name, found⟩)
  rw [publishes] at silentEntry
  cases silentEntry

theorem catalog_published_helixd :
    Published (run (step testHost) blank
      [.install { archive := helixdArchive "0.1.0" }, .remove { name := "helixd", purge := true }]) := by
  apply catalog_published
  refine ⟨?_, ?_, trivial⟩
  · intro m begun
    have manifest : m = helixdManifest "0.1.0" :=
      Except.ok.inj (begun.checked.symm.trans (by decide))
    subst manifest
    constructor
    · intro _ _ e found
      cases found
    · intro _ _ s _ other e d _ found
      cases found
    · intro _ _ unsaved
      exact absurd rfl unsaved
  · intro e _ _ _ unsaved
    exact absurd rfl unsaved

end HelixKit.Pkg
