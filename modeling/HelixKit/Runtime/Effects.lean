/-
Purpose: What reconciling and an operation on a package can do: which units are moved, and what
  becomes of the services.
Trusted boundary: none
-/
import HelixKit.Runtime.Control
import HelixKit.Pkg.Ownership
import HelixKit.Pkg.Catalog

namespace HelixKit.Runtime

open HelixKit.FileTree HelixKit.PosixPath
open HelixKit.Pkg (ServiceDescriptor Device DB DBEntry Manifest Host Failure InstallStep RemoveStep Touches
  Owns catalogOf upsert)

/-! ## The services of the device -/

variable {desired services : List ServiceDescriptor} {d s : ServiceDescriptor}

theorem mem_of_effective {name : String} (found : effective desired name = some d) : d ∈ desired :=
  List.mem_of_find?_eq_some found

theorem name_of_effective {name : String} (found : effective desired name = some d) :
    d.name = name := by
  simpa using List.find?_some found

variable {seen : List String} {seeds : List ServiceDescriptor}

theorem name_of_freshSeeds (member : s ∈ freshSeeds seen seeds) : s.name ≠ "" ∧ s.name ∉ seen := by
  induction seeds generalizing seen with
  | nil => cases member
  | cons first rest ih =>
    unfold freshSeeds at member
    split at member
    next fresh =>
      rcases List.mem_cons.mp member with rfl | later
      · exact fresh
      · obtain ⟨named, unseen⟩ := ih later
        exact ⟨named, fun inSeen => unseen (List.mem_cons_of_mem _ inSeen)⟩
    · exact ih member

/-- A seed is the first of its name. -/
theorem effective_freshSeeds (name : String) : effective (freshSeeds seen seeds) name =
      if name = "" ∨ name ∈ seen then none else effective seeds name := by
  induction seeds generalizing seen with
  | nil => simp [freshSeeds, effective]
  | cons first rest ih =>
    unfold freshSeeds
    by_cases here : first.name = name
    · subst here
      split
      next fresh =>
        simp [effective, fresh.1, fresh.2]
      next stale =>
        rw [ih]
        have out : first.name = "" ∨ first.name ∈ seen := by
          by_contra fresh
          push Not at fresh
          exact stale fresh
        rw [if_pos out, if_pos out]
    · split
      · have skip : effective (first :: freshSeeds (first.name :: seen) rest) name =
            effective (freshSeeds (first.name :: seen) rest) name := by
          simp [effective, here]
        rw [skip, ih]
        have mem : name ∈ first.name :: seen ↔ name ∈ seen := by
          simp [show name ≠ first.name from fun same => here same.symm]
        simp [effective, here, mem]
      · rw [ih]
        simp [effective, here]

theorem effective_of_mem_freshSeeds (member : s ∈ freshSeeds seen seeds) :
    effective (freshSeeds seen seeds) s.name = some s := by
  induction seeds generalizing seen with
  | nil => cases member
  | cons first rest ih =>
    unfold freshSeeds at member ⊢
    split at member
    next fresh =>
      rw [if_pos fresh]
      rcases List.mem_cons.mp member with rfl | later
      · simp [effective]
      · have apart := (name_of_freshSeeds later).2
        have skip : first.name ≠ s.name := by
          intro same
          apply apart
          simp [same]
        have found := ih later
        unfold effective at found ⊢
        rwa [List.find?_cons_of_neg (by simpa using skip)]
    next stale =>
      rw [if_neg stale]
      exact ih member

theorem effective_loadDesired {installed : List ServiceDescriptor} (name : String) :
    effective (loadDesired installed seeds) name =
      (effective installed name).or
        (if name = "" ∨ name ∈ installed.map ServiceDescriptor.name then none
          else effective seeds name) := by
  rw [loadDesired, ← effective_freshSeeds]
  exact List.find?_append

/-! ## Reconciliation -/

/-- The unit of the service is started, stopped or restarted. -/
def Moves (d : ServiceDescriptor) (event : Event) : Prop :=
  event = .start (unitName d) ∨ event = .stop (unitName d) ∨ event = .restart (unitName d)

variable {dir : Place} {tree : Tree} {sd : Systemd}

theorem not_moves_of_ne {event : Event}
    (other : ∀ unit, event ≠ .start unit ∧ event ≠ .stop unit ∧ event ≠ .restart unit) :
    ¬ Moves d event := by
  rintro (rfl | rfl | rfl)
  · exact (other _).1 rfl
  · exact (other _).2.1 rfl
  · exact (other _).2.2 rfl

theorem unitName_ne (apart : s.name ≠ d.name) : unitName s ≠ unitName d :=
  fun same => apart (unitName_inj same)

/-- Stale units are stopped, and no other unit is. -/
theorem removeStale_moves {stale : List String} {event : Event}
    (member : event ∈ (removeStale dir tree stale).events) (moves : Moves d event) :
    unitName d ∈ stale := by
  induction stale generalizing tree with
  | nil => cases member
  | cons first rest ih =>
    have own : ∀ event ∈ Event.stop first :: .disable first ::
        (removeUnit dir tree (unitToService first)).events,
        Moves d event → unitName d ∈ first :: rest := by
      intro event inOwn moves
      rcases List.mem_cons.mp inOwn with rfl | inOwn
      · rcases moves with moved | moved | moved <;> cases moved
        exact List.mem_cons_self
      · rcases List.mem_cons.mp inOwn with rfl | removed
        · rcases moves with moved | moved | moved <;> cases moved
        · unfold removeUnit at removed
          dsimp only at removed
          split at removed
          · cases removed
          · rw [List.mem_singleton.mp removed] at moves
            rcases moves with moved | moved | moved <;> cases moved
    unfold removeStale at member
    dsimp only at member
    split at member
    · exact own event member moves
    · rcases List.mem_append.mp member with here | later
      · exact own event here moves
      · exact List.mem_cons_of_mem first (ih later)

theorem writeUnit_writes {event : Event} (member : event ∈ (writeUnit dir tree s).events) :
    ∃ place, event = .wrote place ∨ event = .renamed place := by
  unfold writeUnit at member
  dsimp only at member
  split at member
  · cases member
  split at member
  · cases member
  split at member
  · cases member
  split at member
  · exact ⟨_, .inl (List.mem_singleton.mp member)⟩
  rcases List.mem_cons.mp member with same | last
  · exact ⟨_, .inl same⟩
  · exact ⟨_, .inr (List.mem_singleton.mp last)⟩

theorem writeUnits_writes {event : Event}
    (member : event ∈ (writeUnits dir tree services).events) :
    ∃ place, event = .wrote place ∨ event = .renamed place := by
  induction services generalizing tree with
  | nil => cases member
  | cons first rest ih =>
    unfold writeUnits at member
    dsimp only at member
    split at member
    · exact writeUnit_writes member
    · rcases List.mem_append.mp member with here | later
      · exact writeUnit_writes here
      · exact ih later

theorem writeUnits_moves {event : Event}
    (member : event ∈ (writeUnits dir tree services).events) : ¬ Moves d event := by
  obtain ⟨place, rfl | rfl⟩ := writeUnits_writes member
  · exact not_moves_of_ne (by simp)
  · exact not_moves_of_ne (by simp)

/-- An active unit that is enabled is left alone. -/
theorem settle_moves {event : Event} (member : event ∈ settle sd s)
    (settled : s.name = d.name → s.enabled = true ∧ sd.active (unitName s) = true) :
    ¬ Moves d event := by
  intro moves
  by_cases same : s.name = d.name
  · obtain ⟨enabled, active⟩ := settled same
    simp only [settle, enabled, active, if_true, List.mem_singleton] at member
    subst member
    exact not_moves_of_ne (by simp) moves
  have apart := unitName_ne same
  unfold settle at member
  split at member
  · split at member <;> simp only [List.mem_cons, List.not_mem_nil, or_false] at member
    · subst member
      exact not_moves_of_ne (by simp) moves
    rcases member with rfl | rfl
    · exact not_moves_of_ne (by simp) moves
    · rcases moves with moved | moved | moved
      · exact apart (Event.start.inj moved)
      · cases moved
      · cases moved
  · simp only [List.mem_cons, List.not_mem_nil, or_false] at member
    rcases member with rfl | rfl
    · exact not_moves_of_ne (by simp) moves
    · rcases moves with moved | moved | moved
      · cases moved
      · exact apart (Event.stop.inj moved)
      · cases moved

theorem reconcile_moves (desired : d ∈ services)
    (settled : ∀ s ∈ services, s.name = d.name →
      s.enabled = true ∧ sd.active (unitName s) = true) {event : Event}
    (member : event ∈ (reconcile dir sd services tree).events) : ¬ Moves d event := by
  intro moves
  have fromRemoval : ∀ event ∈ (removeStale dir tree (staleManagedUnits dir tree
      ((sorted services).map unitName))).events, ¬ Moves d event := by
    intro event inRemoval moves
    have stale := removeStale_moves inRemoval moves
    have fresh : unitName d ∉ (sorted services).map unitName := by
      simpa using (List.mem_filter.mp stale).2
    exact fresh (List.mem_map.mpr ⟨d, by rwa [sorted, List.mem_insertionSort], rfl⟩)
  have fromSettle : ∀ event ∈ (sorted services).flatMap (settle sd), ¬ Moves d event := by
    intro event inSettle
    obtain ⟨s, inSorted, inSettle⟩ := List.mem_flatMap.mp inSettle
    rw [sorted, List.mem_insertionSort] at inSorted
    exact settle_moves inSettle (settled s inSorted)
  have fromReload : ∀ changed, ∀ event ∈ (reload sd changed).1, ¬ Moves d event := by
    intro changed event inReload
    unfold reload at inReload
    split at inReload
    · rw [List.mem_singleton.mp inReload]
      exact not_moves_of_ne (by simp)
    · cases inReload
  unfold reconcile at member
  dsimp only at member
  split at member
  · exact fromRemoval event member moves
  split at member
  · rcases List.mem_append.mp member with removed | written
    · exact fromRemoval event removed moves
    · exact writeUnits_moves written moves
  split at member
  · simp only [List.mem_append] at member
    rcases member with ((removed | written) | reloaded) | settledEvent
    · exact fromRemoval event removed moves
    · exact writeUnits_moves written moves
    · exact fromReload _ event reloaded moves
    · exact fromSettle event settledEvent moves
  simp only [List.mem_append] at member
  rcases member with (removed | written) | reloaded
  · exact fromRemoval event removed moves
  · exact writeUnits_moves written moves
  · exact fromReload _ event reloaded moves

/-! ## The catalog after an operation on a package -/

theorem exists_upsert {x : ServiceDescriptor} {name : String} :
    (∃ s ∈ upsert services x, s.name = name) ↔ x.name = name ∨ ∃ s ∈ services, s.name = name := by
  induction services with
  | nil => simp [upsert]
  | cons first rest ih =>
    unfold upsert
    split
    next same =>
      simp [same]
    · simp only [List.mem_cons, exists_eq_or_imp, ih]
      tauto

theorem exists_foldl_upsert {start : List ServiceDescriptor} {name : String} :
    (∃ s ∈ services.foldl upsert start, s.name = name) ↔
      (∃ s ∈ start, s.name = name) ∨ ∃ s ∈ services, s.name = name := by
  induction services generalizing start with
  | nil => simp
  | cons first rest ih =>
    rw [List.foldl_cons, ih, exists_upsert]
    simp only [List.mem_cons, exists_eq_or_imp]
    rw [or_assoc, or_left_comm]

theorem mem_of_mem_foldl_upsert {start : List ServiceDescriptor}
    (member : s ∈ services.foldl upsert start) : s ∈ start ∨ s ∈ services := by
  induction services generalizing start with
  | nil => exact .inl member
  | cons first rest ih =>
    rcases ih member with inUpsert | later
    · rcases Pkg.mem_upsert inUpsert with rfl | old
      · exact .inr List.mem_cons_self
      · exact .inl old
    · exact .inr (List.mem_cons_of_mem first later)

variable {db : DB}

theorem publishes_of_mem_catalogOf (member : s ∈ catalogOf db) : Pkg.Publishes db s := by
  unfold catalogOf at member
  rw [List.mem_insertionSort] at member
  rcases mem_of_mem_foldl_upsert member with old | published
  · cases old
  · exact Pkg.mem_filterMap_list.mp published

theorem exists_catalogOf {name : String} :
    (∃ s ∈ catalogOf db, s.name = name) ↔ ∃ s, Pkg.Publishes db s ∧ s.name = name := by
  unfold catalogOf
  simp only [List.mem_insertionSort]
  rw [exists_foldl_upsert]
  simp only [Pkg.mem_filterMap_list, List.not_mem_nil, false_and, exists_false, false_or]

/-- What an operation on a package can change, which may bring a service and touches these paths. -/
structure Changes (device after : Device) (package : String) (service : Option ServiceDescriptor)
    (touches : String → Prop) : Prop where
  others : ∀ other, other ≠ package → after.db.get other = device.db.get other
  files : ∀ path, ¬ touches path → after.disk.files path = device.disk.files path
  catalog : after.catalog = device.catalog ∨ after.catalog = catalogOf after.db ∧
    ∀ e s, after.db.get package = some e → e.published = some s → service = some s

variable {machine : Machine} {env : Environment} {device after : Device} {package : String}
  {service : Option ServiceDescriptor} {touches : String → Prop}

/-- What the database says of the service without one package is what the catalog says of it. -/
structure Anchored (device : Device) (package : String) (d : ServiceDescriptor) : Prop where
  same : ∀ other e s, other ≠ package → device.db.get other = some e → e.published = some s →
    s.name = d.name → s = d
  listed : (∃ s ∈ device.catalog, s.name = d.name) ↔
    ∃ other e, other ≠ package ∧ device.db.get other = some e ∧ e.published = some d

/-- The services that the new catalog has under the name are the service itself. -/
theorem catalog_of_anchored (changes : Changes device after package service touches)
    (brings : ∀ s, service = some s → s.name ≠ d.name) (anchored : Anchored device package d)
    (resynced : after.catalog = catalogOf after.db)
    (own : ∀ e s, after.db.get package = some e → e.published = some s → service = some s) :
    (∀ s ∈ after.catalog, s.name = d.name → s = d) ∧
      ((∃ s ∈ after.catalog, s.name = d.name) ↔ ∃ s ∈ device.catalog, s.name = d.name) := by
  have published : ∀ s, Pkg.Publishes after.db s → s.name = d.name →
      s = d ∧ ∃ other e, other ≠ package ∧ device.db.get other = some e ∧
        e.published = some s := by
    rintro s ⟨other, e, found, publishes⟩ named
    by_cases here : other = package
    · subst here
      exact absurd named (brings s (own e s found publishes))
    · rw [changes.others other here] at found
      exact ⟨anchored.same other e s here found publishes named, other, e, here, found, publishes⟩
  rw [resynced]
  refine ⟨fun s member named => (published s (publishes_of_mem_catalogOf member) named).1, ?_⟩
  rw [exists_catalogOf, anchored.listed]
  constructor
  · rintro ⟨s, publishes, named⟩
    obtain ⟨rfl, other, e, ne, found, publishes⟩ := published s publishes named
    exact ⟨other, e, ne, found, publishes⟩
  · rintro ⟨other, e, ne, found, publishes⟩
    exact ⟨d, ⟨other, e, by rw [changes.others other ne, found], publishes⟩, rfl⟩

theorem effective_isSome {name : String} :
    (effective desired name).isSome ↔ ∃ s ∈ desired, s.name = name := by
  simp [effective, List.find?_isSome]

theorem effective_of_unique {name : String} (listed : ∃ s ∈ desired, s.name = name)
    (unique : ∀ s ∈ desired, s.name = name → s = d) : effective desired name = some d := by
  obtain ⟨first, found⟩ := Option.isSome_iff_exists.mp (effective_isSome.mpr listed)
  rw [found, unique first (mem_of_effective found) (name_of_effective found)]

theorem effective_eq_none {name : String} (missing : ¬ ∃ s ∈ desired, s.name = name) :
    effective desired name = none := by
  rw [← effective_isSome] at missing
  exact Option.not_isSome_iff_eq_none.mp missing

/-- A service that is anchored is the service of its name, and the only one of it that is new. -/
theorem effective_of_changes (found : effective (loadDesired device.catalog seeds) d.name = some d)
    (changes : Changes device after package service touches)
    (brings : ∀ s, service = some s → s.name ≠ d.name) (anchored : Anchored device package d) :
    effective (loadDesired after.catalog seeds) d.name = some d ∧
      ∀ s ∈ loadDesired after.catalog seeds, s.name = d.name →
        s ∈ loadDesired device.catalog seeds := by
  rcases changes.catalog with same | ⟨resynced, own⟩
  · rw [same]
    exact ⟨found, fun s member _ => member⟩
  · obtain ⟨unique, listed⟩ := catalog_of_anchored changes brings anchored resynced own
    have there : effective (loadDesired after.catalog seeds) d.name = some d := by
      rw [effective_loadDesired] at found ⊢
      by_cases inCatalog : ∃ s ∈ device.catalog, s.name = d.name
      · rw [effective_of_unique (listed.mpr inCatalog) unique]
        rfl
      · have notListed : ∀ catalog : List ServiceDescriptor,
            (¬ ∃ s ∈ catalog, s.name = d.name) → d.name ∉ catalog.map ServiceDescriptor.name := by
          intro catalog missing inNames
          obtain ⟨s, member, named⟩ := List.mem_map.mp inNames
          exact missing ⟨s, member, named⟩
        have missing := listed.not.mpr inCatalog
        rw [effective_eq_none inCatalog] at found
        rw [effective_eq_none missing]
        simpa [notListed _ inCatalog, notListed _ missing] using found
    refine ⟨there, fun s member named => ?_⟩
    have isD : s = d := by
      rcases List.mem_append.mp member with inCatalog | fresh
      · exact unique s inCatalog named
      · have first := effective_of_mem_freshSeeds fresh
        have outside := (name_of_freshSeeds fresh).2
        have missing : ¬ ∃ t ∈ after.catalog, t.name = s.name := by
          rintro ⟨t, inCatalog, same⟩
          exact outside (List.mem_map.mpr ⟨t, inCatalog, same⟩)
        rw [← named, loadDesired] at there
        unfold effective at there first
        rw [List.find?_append, show List.find? _ after.catalog = none from effective_eq_none missing,
          Option.none_or, first] at there
        exact Option.some.inj there
    rw [isD]
    exact mem_of_effective found

theorem seeds_of_changes (changes : Changes device after package service touches)
    (seeds : ∀ path, machine.isSeed path → ¬ touches path) :
    machine.seeds after.disk.files = machine.seeds device.disk.files :=
  machine.seeds_eq _ _ fun path isSeed => changes.files path (seeds path isSeed)

/-! ## What the installer changes -/

variable {host : Host}

theorem Changes.refl : Changes device device package service touches :=
  ⟨fun _ _ => rfl, fun _ _ => rfl, .inl rfl⟩

theorem changes_of_install {request : Pkg.InstallRequest} {failure : Option Failure} {m : Manifest}
    (effect : InstallStep host request device after failure)
    (begins : ∀ begun, Pkg.Begins request device begun → begun = m) :
    Changes device after m.name m.service fun path =>
      ∃ entry ∈ request.archive.entries, Touches host m entry path := by
  have files : ∀ path, (¬ ∃ entry ∈ request.archive.entries, Touches host m entry path) →
      after.disk.files path = device.disk.files path := by
    intro path apart
    apply Pkg.install_frame effect
    intro begun begins_ entry member touches
    obtain rfl := begins begun begins_
    exact apart ⟨entry, member, touches⟩
  cases effect with
  | refused | unsaved begun => exact ⟨fun _ _ => rfl, files, .inl rfl⟩
  | half begun | uncatalogued begun =>
    obtain rfl := begins _ begun
    exact ⟨fun other ne => Pkg.DB.get_put_ne _ _ ne, files, .inl rfl⟩
  | done begun =>
    obtain rfl := begins _ begun
    refine ⟨fun other ne => Pkg.DB.get_put_ne _ _ ne, files, .inr ⟨rfl, ?_⟩⟩
    intro e s found published
    rw [← Option.some.inj ((Pkg.DB.get_put_self device.db _).symm.trans found)] at published
    exact published

theorem changes_of_remove {request : Pkg.RemoveRequest} {failure : Option Failure}
    (effect : RemoveStep host request device after failure)
    (keyed : ∀ e, device.db.get request.name = some e → e.name = request.name) :
    Changes device after request.name none (Owns host device.db request.name) := by
  have files : ∀ path, ¬ Owns host device.db request.name path →
      after.disk.files path = device.disk.files path :=
    fun path unlisted => Pkg.remove_frame effect unlisted
  cases effect with
  | refused | unsaved found => exact ⟨fun _ _ => rfl, files, .inl rfl⟩
  | uncatalogued found =>
    exact ⟨fun other ne => Pkg.removed_get_ne (keyed _ found) ne, files, .inl rfl⟩
  | @done e found =>
    refine ⟨fun other ne => Pkg.removed_get_ne (keyed _ found) ne, files, .inr ⟨rfl, ?_⟩⟩
    intro left s inDB published
    have publishes : (device.db.get request.name).isSome := by rw [found]; rfl
    dsimp only at inDB
    unfold Pkg.removed at inDB
    split at inDB
    · rw [Pkg.DB.get_delete_self] at inDB
      cases inDB
    · have name : request.name = e.name := (keyed e found).symm
      have put := Pkg.DB.get_put_self device.db
        { e with status := .configFiles, files := [] }
      dsimp only at put
      rw [name, put] at inDB
      rw [← Option.some.inj inDB] at published
      cases published

end HelixKit.Runtime
