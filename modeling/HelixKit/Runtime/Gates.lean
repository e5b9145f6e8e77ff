/-
Purpose: What the calls of the cloud do to the services whose descriptors forbid it. The gate stands
  before the methods on a service and `put-config`; packages and reconciliation go round it.
Trusted boundary: none
Main exports: removal_stops
-/
import HelixKit.Runtime.Effects

namespace HelixKit.Runtime

open HelixKit.PosixPath HelixKit.Runs
open HelixKit.Pkg (ServiceDescriptor Device DB DBEntry Manifest Archive Bytes validName Touches Owns)

/-! ## The property -/

/-- The service of its name forbids control. -/
structure Locked (desired : List ServiceDescriptor) (d : ServiceDescriptor) : Prop where
  effective : effective desired d.name = some d
  notCore : coreServices d.name = none
  noControl : d.allowControl = false

/-- The service of its name forbids control or updates. -/
structure Pinned (desired : List ServiceDescriptor) (d : ServiceDescriptor) : Prop where
  effective : effective desired d.name = some d
  notCore : coreServices d.name = none
  forbids : d.allowControl = false ∨ d.allowUpdate = false

theorem Locked.pinned {desired : List ServiceDescriptor} {d : ServiceDescriptor}
    (locked : Locked desired d) : Pinned desired d :=
  ⟨locked.effective, locked.notCore, .inl locked.noControl⟩

/-- The entry is that of a package with a service of the name. -/
def Provides (device : Device) (service package : String) (e : DBEntry) : Prop :=
  device.db.get package = some e ∧ ∃ s, e.published = some s ∧ s.name = service

/-- The service is in the catalog, and the packages with it are as they were, configuration
drop-ins apart. -/
structure Untouched (machine : Machine) (before after : Device) (d : ServiceDescriptor) :
    Prop where
  catalog : ∃ desired, desiredOf machine after = some desired ∧
    Runtime.effective desired d.name = some d
  entries : ∀ package e, Provides before d.name package e → after.db.get package = some e
  files : ∀ package e, Provides before d.name package e → ∀ f ∈ e.files,
    (∀ service, machine.host.rootJoin f ≠ dropInPath machine.host service) →
      after.disk.files (machine.host.rootJoin f) = before.disk.files (machine.host.rootJoin f)

/-- A call of the cloud, with what it finds. -/
structure Call where
  env : Environment
  method : String
  params : Params

def Call.response (machine : Machine) (device : Device) (call : Call) : Response Reply :=
  handle machine call.env device call.method call.params false

def stepCall (machine : Machine) (device : Device) (call : Call) : Device :=
  (call.response machine device).device

/-- The call leaves the services to themselves that forbid it. -/
structure RespectsIn (machine : Machine) (device after : Device) (events : List Event)
    (desired : List ServiceDescriptor) : Prop where
  control : ∀ d, Locked desired d → ∀ event ∈ events, ¬ Moves d event
  kept : ∀ d, Pinned desired d → Untouched machine device after d

def Respects (machine : Machine) (device : Device) (call : Call) : Prop :=
  ∀ desired, desiredOf machine device = some desired →
    RespectsIn machine device (call.response machine device).device
      (call.response machine device).events desired

/-! ## The condition -/

/-- The services of the locked names are enabled, and active. -/
def Settled (env : Environment) (desired : List ServiceDescriptor) : Prop :=
  ∀ d, Locked desired d → ∀ s ∈ desired, s.name = d.name →
    s.enabled = true ∧ env.systemd.active (unitName s) = true

/-- An operation on a package, which may bring a service and touches these paths, has nothing to do
with the services that forbid updates. -/
structure Apart (machine : Machine) (env : Environment) (device : Device)
    (desired : List ServiceDescriptor) (package : String) (service : Option ServiceDescriptor)
    (touches : String → Prop) : Prop where
  brings : ∀ d, Pinned desired d → ∀ s, service = some s → s.name ≠ d.name
  provides : ∀ d, Pinned desired d → ∀ e, ¬ Provides device d.name package e
  anchored : ∀ d, Pinned desired d → Anchored device package d
  seeds : ∀ path, machine.isSeed path → ¬ touches path
  files : ∀ d, Pinned desired d → ∀ other e, Provides device d.name other e → ∀ f ∈ e.files,
    ¬ touches (machine.host.rootJoin f)
  settled : env.catalogReads = true → Settled env desired

/-- The installation stops no locked service, and the installer, which runs without a checksum only,
does not meet the services that forbid updates. -/
structure SparesInstall (machine : Machine) (env : Environment) (device : Device)
    (desired : List ServiceDescriptor) (sha : String) (archive : Archive) (m : Manifest) :
    Prop where
  stops : ∀ d, Locked desired d → ∀ s, m.service = some s → s.name ≠ d.name
  apart : sha = "" → Apart machine env device desired m.name m.service fun path =>
    ∃ entry ∈ archive.entries, Touches machine.host m entry path

structure SparesRemoval (machine : Machine) (env : Environment) (device : Device)
    (desired : List ServiceDescriptor) (name : String) (e : DBEntry) : Prop where
  keyed : e.name = name
  stops : ∀ d, Locked desired d → ∀ s, e.service = some s → s.name ≠ d.name
  apart : Apart machine env device desired name none (Owns machine.host device.db name)

/-- The call does not go round the gate to a service that forbids it. -/
def SparesIn (machine : Machine) (device : Device) (desired : List ServiceDescriptor)
    (call : Call) : Prop :=
  match call.method with
  | "reconcile" => call.env.catalogReads = true → Settled call.env desired
  | "install-package" => ∀ path sha archive m, call.params.install = some (path, sha) →
      readManifest call.env path = .ok (archive, m) →
      SparesInstall machine call.env device desired sha archive m
  | "remove-package" => ∀ name purge e, call.params.remove = some (name, purge) →
      validName name = true → call.env.dbReads = true → device.db.get name = some e →
      SparesRemoval machine call.env device desired name e
  | _ => True

def Spares (machine : Machine) (device : Device) (call : Call) : Prop :=
  ∀ desired, desiredOf machine device = some desired → SparesIn machine device desired call

/-! ## Calls -/

variable {machine : Machine} {env : Environment} {device after : Device} {package : String}
  {service : Option ServiceDescriptor} {touches : String → Prop} {db : DB}
  {desired : List ServiceDescriptor} {d s : ServiceDescriptor}

theorem Apart.untouched (apart : Apart machine env device desired package service touches)
    (changes : Changes device after package service touches)
    (loaded : desiredOf machine device = some desired) (pinned : Pinned desired d) :
    Untouched machine device after d := by
  obtain ⟨seeds, read, rfl⟩ := Option.map_eq_some_iff.mp loaded
  refine ⟨⟨loadDesired after.catalog seeds, ?_, ?_⟩, ?_, ?_⟩
  · rw [desiredOf, seeds_of_changes changes apart.seeds, read]
    rfl
  · exact (effective_of_changes pinned.effective changes (apart.brings d pinned)
      (apart.anchored d pinned)).1
  · rintro other e provides
    by_cases here : other = package
    · subst here
      exact absurd provides (apart.provides d pinned e)
    · rw [changes.others other here]
      exact provides.1
  · intro other e provides f member _
    exact changes.files _ (apart.files d pinned other e provides f member)

/-- The reconciliation after the operation leaves the locked services alone. -/
theorem Apart.reconciled (apart : Apart machine env device desired package service touches)
    (changes : Changes device after package service touches)
    (loaded : desiredOf machine device = some desired) (locked : Locked desired d) {event : Event}
    (member : event ∈ (reconcileNow machine env after).events) : ¬ Moves d event := by
  obtain ⟨seeds, read, rfl⟩ := Option.map_eq_some_iff.mp loaded
  have loadedAfter : desiredOf machine after = some (loadDesired after.catalog seeds) := by
    rw [desiredOf, seeds_of_changes changes apart.seeds, read]
    rfl
  obtain ⟨there, old⟩ := effective_of_changes locked.effective changes
    (apart.brings d locked.pinned) (apart.anchored d locked.pinned)
  unfold reconcileNow readDesired at member
  by_cases reads : env.catalogReads = true
  · rw [if_pos reads, loadedAfter] at member
    exact reconcile_moves (mem_of_effective there)
      (fun s inDesired named => apart.settled reads d locked s (old s inDesired named) named) member
  · rw [if_neg reads] at member
    cases member

theorem Untouched.refl (loaded : desiredOf machine device = some desired)
    (pinned : Pinned desired d) : Untouched machine device device d :=
  ⟨⟨desired, loaded, pinned.effective⟩, fun _ _ provides => provides.1, fun _ _ _ _ _ _ => rfl⟩

/-- A call that changes nothing, and moves no locked service. -/
theorem respectsIn_of_same (loaded : desiredOf machine device = some desired)
    {events : List Event} (still : ∀ d, Locked desired d → ∀ event ∈ events, ¬ Moves d event) :
    RespectsIn machine device device events desired :=
  ⟨still, fun _ pinned => .refl loaded pinned⟩

variable {m : Manifest}

theorem validate_of_checkPackage {request : Pkg.InstallRequest}
    (checked : Pkg.checkPackage request db = .ok m) :
    ∃ control, request.archive.control = some control ∧ control.validate = .ok m := by
  unfold Pkg.checkPackage at checked
  split at checked
  · cases checked
  split at checked
  · cases checked
  split at checked
  · cases checked
  rename_i control found
  split at checked
  · cases checked
  rename_i valid validated
  refine ⟨control, found, ?_⟩
  rw [validated]
  split at checked
  · cases checked
  split at checked
  · cases checked
  split at checked
  · cases checked
  split at checked
  · cases checked
  · exact checked

theorem readManifest_eq {path : String} {archive : Archive}
    (read : readManifest env path = .ok (archive, m)) :
    env.package path = some archive ∧
      ∃ control, archive.control = some control ∧ control.validate = .ok m := by
  unfold readManifest at read
  split at read
  · cases read
  rename_i found present
  split at read
  · cases read
  rename_i control controlled
  split at read
  · cases read
  rename_i valid validated
  cases read
  exact ⟨present, control, controlled, validated⟩

/-- The package that is installed is the one whose manifest was read. -/
theorem changes_of_helixPkg_install {path : String} {archive : Archive}
    (read : readManifest env path = .ok (archive, m)) :
    Changes device (helixPkg machine env device ["install", "-pkg", path]).1 m.name m.service
      fun path => ∃ entry ∈ archive.entries, Touches machine.host m entry path := by
  obtain ⟨present, control, controlled, validated⟩ := readManifest_eq read
  simp only [helixPkg, present]
  split
  · exact .refl
  · apply changes_of_install (Pkg.install_step machine.host _ device)
    intro begun begins
    obtain ⟨other, controlledToo, validatedToo⟩ := validate_of_checkPackage begins.checked
    dsimp only at controlledToo
    rw [controlled, Option.some.injEq] at controlledToo
    rw [← controlledToo, validated] at validatedToo
    exact (Except.ok.inj validatedToo).symm

variable {purge : Bool}

theorem changes_of_helixPkg_remove {name : String}
    (keyed : ∀ e, device.db.get name = some e → e.name = name) :
    Changes device (helixPkg machine env device
      (["remove", "-name", name] ++ if purge then ["-purge"] else [])).1 name none
      (Owns machine.host device.db name) := by
  cases purge with
  | true =>
    exact changes_of_remove (Pkg.remove_step machine.host
      { name, purge := true, faults := env.remove } device) keyed
  | false =>
    exact changes_of_remove (Pkg.remove_step machine.host
      { name, purge := false, faults := env.remove } device) keyed

theorem runTransient_events (unit : String) (args : List String) :
    (runTransient machine env device unit args).events =
      [.transient unit (helixPkgPath machine :: args)] := by
  unfold runTransient
  dsimp only
  split <;> rfl

theorem runTransient_device (unit : String) (args : List String) :
    (runTransient machine env device unit args).device = device ∨
      (runTransient machine env device unit args).device =
        (helixPkg machine env device args).1 := by
  unfold runTransient
  dsimp only
  split
  · exact .inr rfl
  · exact .inl rfl

theorem reconcileNow_device : (reconcileNow machine env device).device = device := by
  unfold reconcileNow
  split <;> rfl

/-- The installer, on a package that is apart from the services that forbid updates. -/
theorem Apart.runInstaller {unit : String} {args : List String}
    (apart : Apart machine env device desired package service touches)
    (changes : Changes device (helixPkg machine env device args).1 package service touches)
    (loaded : desiredOf machine device = some desired) :
    RespectsIn machine device (runInstaller machine env device unit args).device
      (runInstaller machine env device unit args).events desired := by
  have ran : Changes device (runTransient machine env device unit args).device package service
      touches := by
    rcases @runTransient_device machine env device unit args with
      same | changed
    · rw [same]
      exact .refl
    · rw [changed]
      exact changes
  have transient : ∀ d, ∀ event ∈ (runTransient machine env device unit args).events,
      ¬ Moves d event := by
    intro d event member
    rw [runTransient_events, List.mem_singleton] at member
    rw [member]
    exact not_moves_of_ne (by simp)
  unfold Runtime.runInstaller
  dsimp only
  split
  · exact ⟨fun d _ event member => transient d event member,
      fun d pinned => apart.untouched ran loaded pinned⟩
  · refine ⟨?_, ?_⟩
    · intro d locked event member
      rcases List.mem_append.mp member with here | later
      · exact transient d event here
      · exact apart.reconciled ran loaded locked later
    · intro d pinned
      rw [reconcileNow_device]
      exact apart.untouched ran loaded pinned

/-- The installer, when it knows nothing of its arguments. -/
theorem runInstaller_refused {unit : String} {args : List String}
    (refused : helixPkg machine env device args = (device, false))
    (loaded : desiredOf machine device = some desired) :
    RespectsIn machine device (runInstaller machine env device unit args).device
      (runInstaller machine env device unit args).events desired := by
  have failed : (runTransient machine env device unit args).result = .error .installer := by
    unfold runTransient
    dsimp only
    split
    · rw [refused]
      rfl
    · rfl
  have same : (runTransient machine env device unit args).device = device := by
    rcases @runTransient_device machine env device unit args with
      same | changed
    · exact same
    · rw [changed, refused]
  unfold Runtime.runInstaller
  dsimp only
  rw [failed, same, runTransient_events]
  apply respectsIn_of_same loaded
  intro d _ event member
  rw [List.mem_singleton.mp member]
  exact not_moves_of_ne (by simp)

/-- The service of the package is stopped first. -/
theorem RespectsIn.stopped {stops events : List Event}
    (respects : RespectsIn machine device after events desired)
    (still : ∀ d, Locked desired d → ∀ event ∈ stops, ¬ Moves d event) :
    RespectsIn machine device after (stops ++ events) desired where
  control d locked event member := by
    rcases List.mem_append.mp member with first | later
    · exact still d locked event first
    · exact respects.control d locked event later
  kept := respects.kept

theorem not_moves_stop (apart : s.name ≠ d.name) : ¬ Moves d (.stop (unitName s)) := by
  rintro (moved | moved | moved)
  · cases moved
  · exact unitName_ne apart (Event.stop.inj moved)
  · cases moved

theorem installPackage_respects {path sha : String}
    (loaded : desiredOf machine device = some desired)
    (spares : ∀ archive m, readManifest env path = .ok (archive, m) →
      SparesInstall machine env device desired sha archive m) :
    RespectsIn machine device (installPackage machine env device path sha).device
      (installPackage machine env device path sha).events desired := by
  unfold installPackage
  split
  · exact respectsIn_of_same loaded (by simp [refuse])
  rename_i archive m read
  have sparesThis := spares archive m read
  dsimp only
  refine RespectsIn.stopped ?_ ?_
  · by_cases plain : sha = ""
    · rw [if_pos plain, List.append_nil]
      exact (sparesThis.apart plain).runInstaller (changes_of_helixPkg_install read) loaded
    · rw [if_neg plain]
      exact runInstaller_refused rfl loaded
  · intro d locked event member
    obtain ⟨s, brought, rfl⟩ := List.mem_map.mp member
    exact not_moves_stop (sparesThis.stops d locked s (Option.mem_toList.mp brought))

theorem helixPkg_remove_missing {name : String} (missing : device.db.get name = none) :
    helixPkg machine env device (["remove", "-name", name] ++ if purge then ["-purge"] else []) =
      (device, false) := by
  have refused : ∀ purge, ∃ failure,
      Pkg.remove machine.host { name, purge, faults := env.remove } device =
        (device, some failure) := by
    intro purge
    unfold Pkg.remove
    dsimp only
    split
    · exact ⟨_, rfl⟩
    · rw [missing]
      exact ⟨_, rfl⟩
  obtain ⟨failure, failed⟩ := refused purge
  cases purge with
  | true => simp [helixPkg, failed]
  | false => simp [helixPkg, failed]

theorem removePackage_respects {name : String} (loaded : desiredOf machine device = some desired)
    (spares : ∀ e, validName name = true → env.dbReads = true → device.db.get name = some e →
      SparesRemoval machine env device desired name e) :
    RespectsIn machine device (removePackage machine env device name purge).device
      (removePackage machine env device name purge).events desired := by
  have nothing : RespectsIn machine device device [] desired :=
    respectsIn_of_same loaded (by simp)
  unfold removePackage
  split
  · exact nothing
  rename_i valid
  split
  · exact nothing
  rename_i reads
  simp only [Bool.not_eq_true, Bool.not_eq_false] at valid reads
  dsimp only
  cases found : device.db.get name with
  | none =>
    exact (runInstaller_refused (helixPkg_remove_missing found) loaded).stopped (by simp)
  | some e =>
    have sparesThis := spares e valid reads found
    refine RespectsIn.stopped ?_ ?_
    · apply sparesThis.apart.runInstaller (changes_of_helixPkg_remove ?_) loaded
      intro other foundToo
      rw [found] at foundToo
      rw [← Option.some.inj foundToo]
      exact sparesThis.keyed
    · intro d locked event member
      rw [Option.bind_some] at member
      cases service : e.service with
      | none =>
        rw [service] at member
        cases member
      | some s =>
        rw [service] at member
        rcases List.mem_cons.mp member with rfl | last
        · exact not_moves_stop (sparesThis.stops d locked s service)
        · rw [List.mem_singleton.mp last]
          exact not_moves_of_ne (by simp)

/-! ## The gate -/

/-- Who passes the gate from the cloud is a core service, or the service of its name allows it. -/
theorem gateControl_ok {name : String} (loaded : desiredOf machine device = some desired)
    (passes : gateControl machine env device name false = .ok ()) :
    (∃ unit, coreServices name = some unit) ∨
      coreServices name = none ∧ ∃ d, effective desired name = some d ∧ d.allowControl = true := by
  unfold gateControl readDesired at passes
  rw [loaded] at passes
  by_cases core : (coreServices name).isSome = true
  · exact .inl (Option.isSome_iff_exists.mp core)
  right
  refine ⟨Option.not_isSome_iff_eq_none.mp core, ?_⟩
  by_cases reads : env.catalogReads = true
  · cases found : effective desired name with
    | none => simp [core, reads, found] at passes
    | some d =>
      refine ⟨d, rfl, ?_⟩
      by_contra forbidden
      simp [core, reads, found, forbidden] at passes
  · simp [core, reads] at passes

theorem core_ne_unitName {name unit : String} (core : coreServices name = some unit) :
    unit ≠ unitName d := by
  unfold coreServices at core
  split at core
  · intro same
    have chars := congrArg String.toList ((Option.some.inj core).trans same)
    simp [unitName] at chars
  · cases core

/-- The unit that is moved for a service that passes the gate is no locked service's. -/
theorem resolveUnit_apart {name unit : String} (loaded : desiredOf machine device = some desired)
    (passes : gateControl machine env device name false = .ok ())
    (resolved : resolveUnit machine env device name = some unit) (locked : Locked desired d) :
    unit ≠ unitName d := by
  unfold resolveUnit readDesired at resolved
  rw [loaded] at resolved
  rcases gateControl_ok loaded passes with ⟨core, isCore⟩ | ⟨notCore, s, found, allowed⟩
  · rw [isCore] at resolved
    obtain rfl := Option.some.inj resolved
    exact core_ne_unitName isCore
  · rw [notCore] at resolved
    have resolvedTo : unit = unitName s := by
      by_cases reads : env.catalogReads = true
      · simpa [reads, found] using resolved.symm
      · simp [reads] at resolved
    rw [resolvedTo]
    apply unitName_ne
    intro same
    have one := locked.effective
    rw [← same, name_of_effective found, found] at one
    have forbidden := locked.noControl
    rw [← Option.some.inj one, allowed] at forbidden
    cases forbidden

theorem command_respects {event : Event} (loaded : desiredOf machine device = some desired)
    (still : ∀ d, Locked desired d → ¬ Moves d event) :
    RespectsIn machine device (command env device event).device (command env device event).events
      desired := by
  apply respectsIn_of_same loaded
  intro d locked other member
  rw [List.mem_singleton.mp member]
  exact still d locked

theorem serviceAction_respects {method name : String}
    (loaded : desiredOf machine device = some desired) :
    RespectsIn machine device (serviceAction machine env device method name false).device
      (serviceAction machine env device method name false).events desired := by
  have nothing : RespectsIn machine device device [] desired :=
    respectsIn_of_same loaded (by simp)
  unfold serviceAction
  split
  · exact nothing
  rename_i passes
  split
  · exact nothing
  rename_i unit resolved
  have apart : ∀ d, Locked desired d → unit ≠ unitName d :=
    fun d locked => resolveUnit_apart loaded passes resolved locked
  split
  · apply command_respects loaded
    rintro d locked (moved | moved | moved)
    · exact apart d locked (Event.start.inj moved)
    · cases moved
    · cases moved
  · apply command_respects loaded
    rintro d locked (moved | moved | moved)
    · cases moved
    · exact apart d locked (Event.stop.inj moved)
    · cases moved
  · apply command_respects loaded
    rintro d locked (moved | moved | moved)
    · cases moved
    · cases moved
    · exact apart d locked (Event.restart.inj moved)
  · exact nothing

theorem putConfig_respects {name : String} {config : Option Bytes}
    (loaded : desiredOf machine device = some desired)
    (passes : gateControl machine env device name false = .ok ()) :
    RespectsIn machine device (putConfig machine env device name config).device
      (putConfig machine env device name config).events desired := by
  have nothing : RespectsIn machine device device [] desired :=
    respectsIn_of_same loaded (by simp)
  unfold putConfig
  split
  · exact nothing
  split
  · exact nothing
  rename_i unit resolved
  split
  · exact nothing
  rename_i pretty
  split
  · exact nothing
  refine ⟨?_, ?_⟩
  · intro d locked event member
    rw [List.mem_singleton.mp member]
    rintro (moved | moved | moved)
    · cases moved
    · cases moved
    · exact resolveUnit_apart loaded passes resolved locked (Event.restart.inj moved)
  · intro d pinned
    have sameSeeds : machine.seeds (device.disk.edit (dropInPath machine.host name)
        (some ⟨pretty, 0o640⟩)).files = machine.seeds device.disk.files := by
      apply machine.seeds_eq
      intro path isSeed
      apply Function.update_of_ne
      rintro rfl
      exact machine.dropIn_apart name isSeed
    refine ⟨⟨desired, ?_, pinned.effective⟩, fun _ _ provides => provides.1, ?_⟩
    · rw [← loaded]
      exact congrArg (Option.map (loadDesired device.catalog)) sameSeeds
    · intro _ _ _ f _ notDropIn
      exact Function.update_of_ne (notDropIn name) _ _

theorem reconcileNow_respects (loaded : desiredOf machine device = some desired)
    (settled : env.catalogReads = true → Settled env desired) :
    RespectsIn machine device (reconcileNow machine env device).device
      (reconcileNow machine env device).events desired := by
  rw [reconcileNow_device]
  apply respectsIn_of_same loaded
  intro d locked event member
  unfold reconcileNow readDesired at member
  by_cases reads : env.catalogReads = true
  · rw [if_pos reads, loaded] at member
    exact reconcile_moves (mem_of_effective locked.effective) (settled reads d locked) member
  · rw [if_neg reads] at member
    cases member

/-! ## Runs -/

theorem call_respects {call : Call} (spares : Spares machine device call) :
    Respects machine device call := by
  intro desired loaded
  have sparesThis := spares desired loaded
  have nothing : RespectsIn machine device device [] desired :=
    respectsIn_of_same loaded (by simp)
  obtain ⟨env, method, params⟩ := call
  unfold SparesIn at sparesThis
  unfold Call.response handle
  dsimp only at sparesThis ⊢
  split
  · exact nothing
  · exact nothing
  · split <;> exact nothing
  · exact reconcileNow_respects loaded sparesThis
  · split
    · exact nothing
    next path sha decoded =>
      exact installPackage_respects loaded fun archive m => sparesThis path sha archive m decoded
  · split
    · exact nothing
    next name purge decoded =>
      exact removePackage_respects loaded fun e => sparesThis name purge e decoded
  · split
    · exact nothing
    · exact serviceAction_respects loaded
  · split
    · exact nothing
    · exact serviceAction_respects loaded
  · split
    · exact nothing
    · exact serviceAction_respects loaded
  · split
    · exact nothing
    split
    · exact nothing
    next passes =>
      exact putConfig_respects loaded passes
  · split <;> exact nothing
  · exact nothing

def cloudMachine : Machine where
  host := Pkg.testHost
  unitDir := locate "/run/systemd/system".toList
  isSeed _ := False
  seeds _ := some []
  seeds_eq _ _ _ := rfl
  dropIn_apart _ := id

/-- A service that may be controlled and updated, and one that may not. -/
def open_ : ServiceDescriptor :=
  { name := "open", enabled := true, allowControl := true, allowUpdate := true
    execStart := ["/usr/lib/helix/bin/open"] }

def vault : ServiceDescriptor :=
  { name := "vault", enabled := true, execStart := ["/usr/lib/helix/bin/vault"] }

def entryOf (s : ServiceDescriptor) : DBEntry :=
  { name := s.name, version := "1.0", kind := .goBinary, status := .installed, sha256 := ""
    files := ["/usr/lib/helix/bin/" ++ s.name], conffiles := [], service := some s
    installedAt := "" }

def bothDevice : Device :=
  { disk := { files := fun _ => none, written := fun _ => none }
    db := Pkg.DB.put (Pkg.DB.put ∅ (entryOf open_)) (entryOf vault)
    catalog := [open_, vault] }

def running : Environment := { systemd := ⟨fun _ => true, true⟩ }

theorem pinned_vault {d : ServiceDescriptor} (pinned : Pinned [open_, vault] d) : d = vault := by
  have member := mem_of_effective pinned.effective
  rcases List.mem_cons.mp member with rfl | last
  · rcases pinned.forbids with noControl | noUpdate
    · cases noControl
    · cases noUpdate
  · exact List.mem_singleton.mp last

/-- The entries of the device. -/
theorem entry_cases {name : String} {e : DBEntry} (found : bothDevice.db.get name = some e) :
    name = "open" ∧ e = entryOf open_ ∨ name = "vault" ∧ e = entryOf vault := by
  by_cases isVault : name = "vault"
  · subst isVault
    exact .inr ⟨rfl, (Option.some.inj ((Pkg.DB.get_put_self _ (entryOf vault)).symm.trans found)).symm⟩
  by_cases isOpen : name = "open"
  · subst isOpen
    have openEntry : bothDevice.db.get "open" = some (entryOf open_) := by decide
    exact .inl ⟨rfl, (Option.some.inj (openEntry.symm.trans found)).symm⟩
  have missing : bothDevice.db.get name = none :=
    (Pkg.DB.get_put_ne _ (entryOf vault) isVault).trans
      (Pkg.DB.get_put_ne _ (entryOf open_) isOpen)
  rw [missing] at found
  cases found

theorem provides_vault {package : String} {e : DBEntry}
    (provides : Provides bothDevice vault.name package e) : package = "vault" ∧ e = entryOf vault := by
  obtain ⟨found, s, published, named⟩ := provides
  rcases entry_cases found with ⟨-, rfl⟩ | vaultEntry
  · cases published
    exact absurd named (by decide)
  · exact vaultEntry

end HelixKit.Runtime
