/-
Purpose: Which services are running after an installation that failed: the services that it has
  stopped by then stay stopped, since only a reconciliation that goes through starts units.
Trusted boundary: which units a stop takes down and a start brings up is a parameter; the programs
  that the installer runs start and stop no unit
Main exports: survives_failure_iff
-/
import HelixKit.Runtime.Convergence
import HelixKit.Runtime.Gates

namespace HelixKit.Runtime

open HelixKit.FileTree HelixKit.PosixPath
open HelixKit.Pkg (ServiceDescriptor Device Manifest Archive InstallRequest)

/-! ## Running units -/

/-- What systemd does: the units that a stop of a unit takes down, those that require it among them,
and the units that a start of it brings up. -/
structure Units where
  stops : String → String → Bool
  starts : String → String → Bool

/-- Whether a unit is running after one more event. -/
def Units.step (units : Units) (unit : String) (up : Bool) : Event → Bool
  | .stop other => up && !units.stops other unit
  | .start other => up || units.starts other unit
  | .restart other => (up && !units.stops other unit) || units.starts other unit
  | _ => up

/-- Whether a unit is running after the events. -/
def runs (units : Units) (unit : String) (up : Bool) (events : List Event) : Bool :=
  events.foldl (units.step unit) up

/-- When the installation fails, the service is running after it if it was before. -/
def SurvivesFailure (machine : Machine) (env : Environment) (units : Units) (device : Device)
    (path sha : String) (d : ServiceDescriptor) : Prop :=
  let response := installPackage machine env device path sha
  ∀ error, response.result = .error error → runs units (unitName d) true response.events = true

/-! ## The condition -/

/-- The request that `helix-pkg` makes of an archive. -/
def installRequest (env : Environment) (archive : Archive) : InstallRequest :=
  { archive, installedAt := env.installedAt, faults := env.install }

/-- The services of the device after the package was installed. -/
def desiredAfter (machine : Machine) (env : Environment) (device : Device) (archive : Archive) :
    Option (List ServiceDescriptor) :=
  readDesired machine env (Pkg.install machine.host (installRequest env archive) device).1

/-- The installer succeeds: it is not given a hash, whose flag it does not know, systemd runs it,
and it can install the package. -/
structure Installs (machine : Machine) (env : Environment) (device : Device) (path sha : String)
    (archive : Archive) (m : Manifest) : Prop where
  plain : sha = ""
  named : path ≠ ""
  obeyed : env.obeys (.transient ("helix-install-" ++ m.name)
    [helixPkgPath machine, "install", "-pkg", path]) = true
  installs : (Pkg.install machine.host (installRequest env archive) device).2 = none

/-- The units that are stale when the services are wanted. -/
def staleUnits (dir : Place) (services : List ServiceDescriptor) (tree : Tree) : List String :=
  staleManagedUnits dir tree ((sorted services).map unitName)

/-- The unit directory can be brought into line with the services: every stale unit is removed,
every unit that changed is written, and systemd reloads if there was anything to do. -/
structure Reconciles (dir : Place) (sd : Systemd) (services : List ServiceDescriptor)
    (tree : Tree) : Prop where
  removes : (removeStale dir tree (staleUnits dir services tree)).result = some ()
  writes : ∃ wrote,
    (writeUnits dir (removeStale dir tree (staleUnits dir services tree)).tree
      (sorted services)).result = some wrote ∧
    (staleUnits dir services tree = [] ∧ wrote = false ∨ sd.reloads = true)

/-- The stale units that are stopped: those up to the first one whose file cannot be removed. -/
def reached (dir : Place) : Tree → List String → List String
  | _, [] => []
  | tree, unit :: rest =>
    unit :: match tree.remove (joinUnit dir unit) with
      | none => []
      | some after => reached dir after rest

/-- The installation of the package goes through, or nothing that it stops takes the service down:
neither the stop of the package's own unit nor, when the installer succeeds, that of a unit whose
service is no longer in the catalog. -/
def Spared (machine : Machine) (env : Environment) (units : Units) (device : Device)
    (path sha : String) (d : ServiceDescriptor) : Prop :=
  ∀ archive m, readManifest env path = .ok (archive, m) →
    (Installs machine env device path sha archive m ∧
        ∃ desired, desiredAfter machine env device archive = some desired ∧
          Reconciles machine.unitDir env.systemd desired env.units) ∨
      (∀ s, m.service = some s → units.stops (unitName s) (unitName d) = false) ∧
        (Installs machine env device path sha archive m →
          ∀ desired, desiredAfter machine env device archive = some desired →
            ∀ unit ∈ reached machine.unitDir env.units
                (staleUnits machine.unitDir desired env.units),
              units.stops unit (unitName d) = false)

/-! ## Events that start nothing -/

section

variable {units : Units} {unit : String} {up : Bool} {events : List Event}

/-- The events start no unit. -/
def Startless (events : List Event) : Prop :=
  ∀ event ∈ events, ∀ other, event ≠ .start other ∧ event ≠ .restart other

theorem Startless.append {more : List Event} (startless : Startless events)
    (too : Startless more) : Startless (events ++ more) := by
  intro event member
  rcases List.mem_append.mp member with here | there
  · exact startless event here
  · exact too event there

/-- Where nothing is started, a unit runs on exactly when no stop takes it down. -/
theorem runs_of_startless (startless : Startless events) :
    runs units unit up events = true ↔
      up = true ∧ ∀ other, .stop other ∈ events → units.stops other unit = false := by
  unfold runs
  induction events generalizing up with
  | nil => simp
  | cons event rest ih =>
    have others : Startless rest :=
      fun other member => startless other (List.mem_cons_of_mem event member)
    rw [List.foldl_cons, ih others]
    cases event with
    | stop other =>
      simp only [Units.step, Bool.and_eq_true, Bool.not_eq_true', List.mem_cons]
      constructor
      · rintro ⟨⟨was, spared⟩, later⟩
        refine ⟨was, fun stopped member => ?_⟩
        rcases member with same | member
        · rw [Event.stop.inj same]
          exact spared
        · exact later stopped member
      · rintro ⟨was, all⟩
        exact ⟨⟨was, all other (.inl rfl)⟩, fun stopped member => all stopped (.inr member)⟩
    | start other => exact absurd rfl (startless _ List.mem_cons_self other).1
    | restart other => exact absurd rfl (startless _ List.mem_cons_self other).2
    | disable | enable | daemonReload | transient | wrote | renamed | removed =>
      simp [Units.step]

end

/-! ## A reconciliation that fails -/

section

variable {dir : Place} {sd : Systemd} {tree : Tree} {services : List ServiceDescriptor}

theorem removeUnit_removes {name : String} {event : Event}
    (member : event ∈ (removeUnit dir tree name).events) : ∃ place, event = .removed place := by
  unfold removeUnit at member
  dsimp only at member
  split at member
  · cases member
  · exact ⟨_, List.mem_singleton.mp member⟩

theorem removeUnit_managed {unit : String} (ours : managed unit.toList = true) :
    (removeUnit dir tree (unitToService unit)).result = none ∧
        tree.remove (joinUnit dir unit) = none ∨
      (removeUnit dir tree (unitToService unit)).result = some () ∧
        tree.remove (joinUnit dir unit) =
          some (removeUnit dir tree (unitToService unit)).tree := by
  unfold removeUnit
  dsimp only
  rw [unitToService_of_managed ours]
  cases tree.remove (joinUnit dir unit) with
  | none => exact .inl ⟨rfl, rfl⟩
  | some after => exact .inr ⟨rfl, rfl⟩

/-- The removal of stale units starts none, and stops those that it reaches. -/
theorem removeStale_stops {stale : List String}
    (ours : ∀ unit ∈ stale, managed unit.toList = true) :
    Startless (removeStale dir tree stale).events ∧
      ∀ other, .stop other ∈ (removeStale dir tree stale).events ↔
        other ∈ reached dir tree stale := by
  induction stale generalizing tree with
  | nil =>
    refine ⟨fun event no => ?_, fun other => by simp [removeStale, reached]⟩
    cases no
  | cons unit rest ih =>
    have removes := @removeUnit_removes dir tree (unitToService unit)
    have own : Startless (.stop unit :: .disable unit ::
        (removeUnit dir tree (unitToService unit)).events) := by
      intro event member other
      rcases List.mem_cons.mp member with rfl | member
      · simp
      · rcases List.mem_cons.mp member with rfl | member
        · simp
        · obtain ⟨place, rfl⟩ := removes member
          simp
    have first : ∀ other, .stop other ∈ Event.stop unit :: .disable unit ::
        (removeUnit dir tree (unitToService unit)).events ↔ other = unit := by
      intro other
      rw [List.mem_cons, List.mem_cons]
      constructor
      · rintro (same | no | member)
        · exact Event.stop.inj same
        · cases no
        · obtain ⟨place, no⟩ := removes member
          cases no
      · rintro rfl
        exact .inl rfl
    obtain ⟨startless, stops⟩ := @ih (removeUnit dir tree (unitToService unit)).tree
      fun other member => ours other (List.mem_cons_of_mem unit member)
    unfold removeStale reached
    dsimp only
    rcases @removeUnit_managed dir tree unit (ours unit List.mem_cons_self) with
      ⟨failed, stuck⟩ | ⟨done, removed⟩
    · rw [failed, stuck]
      exact ⟨own, fun other => by rw [first, List.mem_singleton]⟩
    · rw [done, removed]
      refine ⟨own.append startless, fun other => ?_⟩
      rw [List.mem_append, first, stops, List.mem_cons]

theorem reload_fine {stale : List String} {wrote : Bool} :
    (reload sd (stale ≠ [] || wrote)).2 = true ↔
      stale = [] ∧ wrote = false ∨ sd.reloads = true := by
  unfold reload
  cases stale with
  | nil => cases wrote <;> simp
  | cons first rest => simp

/-- A reconciliation goes through, or it fails after the removal of stale units, some of them or
all, and starts nothing. -/
theorem reconcile_fails (dir : Place) (sd : Systemd) (services : List ServiceDescriptor)
    (tree : Tree) :
    ((reconcile dir sd services tree).result = some () ∧ Reconciles dir sd services tree) ∨
      ((reconcile dir sd services tree).result = none ∧ ¬ Reconciles dir sd services tree ∧
        Startless (reconcile dir sd services tree).events ∧
        ∀ other, .stop other ∈ (reconcile dir sd services tree).events ↔
          other ∈ reached dir tree (staleUnits dir services tree)) := by
  have ours : ∀ unit ∈ staleUnits dir services tree, managed unit.toList = true :=
    fun unit member => (mem_staleManagedUnits.mp member).1
  obtain ⟨startless, stops⟩ := @removeStale_stops dir tree _ ours
  have writes : ∀ after, ∀ event ∈ (writeUnits dir after (sorted services)).events,
      ∃ place, event = .wrote place ∨ event = .renamed place :=
    fun after event member => writeUnits_writes member
  have idle : ∀ after, Startless (writeUnits dir after (sorted services)).events := by
    intro after event member other
    obtain ⟨place, rfl | rfl⟩ := writes after event member <;> simp
  have stopless : ∀ after other, .stop other ∉ (writeUnits dir after (sorted services)).events := by
    intro after other member
    obtain ⟨place, no | no⟩ := writes after _ member <;> cases no
  have named : staleManagedUnits dir tree ((sorted services).map unitName) =
      staleUnits dir services tree := rfl
  unfold reconcile
  dsimp only
  rw [named]
  cases removed : (removeStale dir tree (staleUnits dir services tree)).result with
  | none =>
    refine .inr ⟨removed, fun reconciles => ?_, startless, stops⟩
    rw [reconciles.removes] at removed
    cases removed
  | some done =>
    dsimp only
    generalize stale : staleUnits dir services tree = units at *
    cases written : (writeUnits dir (removeStale dir tree units).tree
        (sorted services)).result with
    | none =>
      refine .inr ⟨rfl, fun reconciles => ?_, startless.append (idle _), fun other => ?_⟩
      · obtain ⟨wrote, fine, -⟩ := reconciles.writes
        rw [stale, written] at fine
        cases fine
      · rw [List.mem_append, stops]
        exact or_iff_left (stopless _ other)
    | some wrote =>
      dsimp only
      by_cases reloaded : (reload sd (units ≠ [] || wrote)).2 = true
      · rw [if_pos reloaded]
        refine .inl ⟨rfl, ⟨?_, wrote, ?_, ?_⟩⟩
        · rw [stale, removed]
        · rw [stale, written]
        · rw [stale]
          exact reload_fine.mp reloaded
      · rw [if_neg reloaded]
        have only : ∀ event ∈ (reload sd (units ≠ [] || wrote)).1, event = .daemonReload := by
          unfold reload
          split <;> simp
        refine .inr ⟨rfl, fun reconciles => ?_, ?_, fun other => ?_⟩
        · obtain ⟨same, fine, settled⟩ := reconciles.writes
          rw [stale, written] at fine
          obtain rfl := Option.some.inj fine
          rw [stale] at settled
          exact reloaded (reload_fine.mpr settled)
        · refine (startless.append (idle _)).append fun event member other => ?_
          rw [only event member]
          simp
        · have unstopped : .stop other ∉ (reload sd (units ≠ [] || wrote)).1 := by
            intro member
            cases only _ member
          rw [List.mem_append, List.mem_append, stops]
          exact (or_iff_left unstopped).trans (or_iff_left (stopless _ other))

end

/-! ## An installation that fails -/

section

variable {machine : Machine} {env : Environment} {units : Units} {device : Device}
  {path sha : String} {archive : Archive} {m : Manifest}

/-- The arguments of the installer. -/
def installArgs (path sha : String) : List String :=
  ["install", "-pkg", path] ++ if sha = "" then [] else ["-sha", sha]

theorem runTransient_ok {unit : String} {args : List String} :
    (runTransient machine env device unit args).result = .ok () ↔
      env.obeys (.transient unit (helixPkgPath machine :: args)) = true ∧
        (helixPkg machine env device args).2 = true := by
  unfold runTransient
  dsimp only
  split
  next obeyed =>
    cases (helixPkg machine env device args).2 <;> simp [obeyed]
  next refused =>
    simp [refused]

theorem helixPkg_install (present : env.package path = some archive) (named : path ≠ "") :
    helixPkg machine env device ["install", "-pkg", path] =
      ((Pkg.install machine.host (installRequest env archive) device).1,
        (Pkg.install machine.host (installRequest env archive) device).2.isNone) := by
  simp [helixPkg, present, named, installRequest]

theorem runTransient_installs (read : readManifest env path = .ok (archive, m)) :
    (runTransient machine env device ("helix-install-" ++ m.name) (installArgs path sha)).result =
        .ok () ↔ Installs machine env device path sha archive m := by
  obtain ⟨present, -⟩ := readManifest_eq read
  rw [runTransient_ok]
  constructor
  · rintro ⟨obeyed, exited⟩
    have plain : sha = "" := by
      by_contra given
      simp [installArgs, given, helixPkg] at exited
    have args : installArgs path sha = ["install", "-pkg", path] := by simp [installArgs, plain]
    rw [args] at obeyed exited
    have named : path ≠ "" := by
      rintro rfl
      simp [helixPkg, present] at exited
    rw [helixPkg_install present named] at exited
    exact ⟨plain, named, obeyed, Option.isNone_iff_eq_none.mp exited⟩
  · intro installs
    have args : installArgs path sha = ["install", "-pkg", path] := by
      simp [installArgs, installs.plain]
    rw [args, helixPkg_install present installs.named]
    exact ⟨installs.obeyed, Option.isNone_iff_eq_none.mpr installs.installs⟩

theorem Installs.device_eq (installs : Installs machine env device path sha archive m)
    (read : readManifest env path = .ok (archive, m)) :
    (runTransient machine env device ("helix-install-" ++ m.name) (installArgs path sha)).device =
      (Pkg.install machine.host (installRequest env archive) device).1 := by
  obtain ⟨present, -⟩ := readManifest_eq read
  have args : installArgs path sha = ["install", "-pkg", path] := by
    simp [installArgs, installs.plain]
  unfold runTransient
  dsimp only
  rw [args, if_pos installs.obeyed, helixPkg_install present installs.named]

theorem runs_stops (more : List Event) (startless : Startless more) (unit : String) :
    runs units unit true ((m.service.toList.map fun s => Event.stop (unitName s)) ++ more) = true ↔
      (∀ s, m.service = some s → units.stops (unitName s) unit = false) ∧
        ∀ other, .stop other ∈ more → units.stops other unit = false := by
  have own : Startless (m.service.toList.map fun s => Event.stop (unitName s)) := by
    intro event member other
    obtain ⟨s, -, rfl⟩ := List.mem_map.mp member
    simp
  rw [runs_of_startless (own.append startless)]
  simp only [true_and, List.mem_append, List.mem_map, Option.mem_toList]
  constructor
  · intro all
    exact ⟨fun s service => all _ (.inl ⟨s, service, rfl⟩), fun other member =>
      all other (.inr member)⟩
  · rintro ⟨first, later⟩ other (⟨s, service, same⟩ | member)
    · rw [← Event.stop.inj same]
      exact first s service
    · exact later other member

/-- An installation goes through, or it fails having stopped the package's own unit and, when the
installer succeeds, the stale units up to the first that cannot be removed. -/
theorem installPackage_stops (read : readManifest env path = .ok (archive, m)) :
    ((∀ error, (installPackage machine env device path sha).result ≠ .error error) ∧
        Installs machine env device path sha archive m ∧
        ∃ desired, desiredAfter machine env device archive = some desired ∧
          Reconciles machine.unitDir env.systemd desired env.units) ∨
      ((∃ error, (installPackage machine env device path sha).result = .error error) ∧
        ¬ (Installs machine env device path sha archive m ∧
          ∃ desired, desiredAfter machine env device archive = some desired ∧
            Reconciles machine.unitDir env.systemd desired env.units) ∧
        ∃ more, (installPackage machine env device path sha).events =
            (m.service.toList.map fun s => Event.stop (unitName s)) ++ more ∧
          Startless more ∧
          ∀ other, .stop other ∈ more ↔ Installs machine env device path sha archive m ∧
            ∃ desired, desiredAfter machine env device archive = some desired ∧
              other ∈ reached machine.unitDir env.units
                (staleUnits machine.unitDir desired env.units)) := by
  have none_ : Startless [Event.transient ("helix-install-" ++ m.name)
      (helixPkgPath machine :: installArgs path sha)] := by
    intro event member other
    rw [List.mem_singleton.mp member]
    simp
  unfold installPackage runInstaller
  rw [read]
  dsimp only
  have args : (["install", "-pkg", path] ++ if sha = "" then [] else ["-sha", sha]) =
    installArgs path sha := rfl
  rw [args, runTransient_events]
  have installs := @runTransient_installs machine env device path sha archive m read
  cases ran : (runTransient machine env device ("helix-install-" ++ m.name)
      (installArgs path sha)).result with
  | error error =>
    have fails : ¬ Installs machine env device path sha archive m := by
      rw [← installs, ran]
      simp
    refine .inr ⟨⟨error, rfl⟩, fun both => fails both.1, _, rfl, none_, fun other => ?_⟩
    simp [fails]
  | ok done =>
    have installed := installs.mp ran
    have after := installed.device_eq read
    dsimp only
    rw [after]
    unfold reconcileNow
    cases services : desiredAfter machine env device archive with
    | none =>
      unfold desiredAfter at services
      rw [services]
      right
      refine ⟨⟨.os, rfl⟩, ?_, _, rfl, ?_, fun other => ?_⟩
      · simp
      · simpa [refuse] using none_
      · simp [refuse]
    | some desired =>
      unfold desiredAfter at services
      rw [services]
      dsimp only
      rcases reconcile_fails machine.unitDir env.systemd desired env.units with
        ⟨result, reconciles⟩ | ⟨result, unsettled, startless, stops⟩
      · left
        rw [result]
        exact ⟨fun error no => (by cases no), installed, desired, rfl, reconciles⟩
      · right
        rw [result]
        refine ⟨⟨.os, rfl⟩, ?_, _, rfl, none_.append startless, fun other => ?_⟩
        · rintro ⟨-, other, same, reconciles⟩
          obtain rfl := Option.some.inj same
          exact unsettled reconciles
        · rw [List.mem_append, stops]
          simp [installed]

/-- Which services an installation that fails leaves running. -/
theorem survives_failure_iff (machine : Machine) (env : Environment) (units : Units)
    (device : Device) (path sha : String) (d : ServiceDescriptor) :
    SurvivesFailure machine env units device path sha d ↔
      Spared machine env units device path sha d := by
  unfold SurvivesFailure Spared
  cases read : readManifest env path with
  | error error =>
    refine ⟨fun _ archive m no => (by cases no), fun _ error _ => ?_⟩
    simp only [installPackage, read]
    rfl
  | ok found =>
    obtain ⟨archive, m⟩ := found
    have only : ∀ {P : Archive → Manifest → Prop}, (∀ a n, (Except.ok (archive, m) :
        Except ControlError (Archive × Manifest)) = .ok (a, n) → P a n) ↔ P archive m := by
      intro P
      constructor
      · intro all
        exact all archive m rfl
      · rintro here a n same
        cases same
        exact here
    rw [only]
    rcases @installPackage_stops machine env device path sha archive m read with
      ⟨returns, through⟩ | ⟨⟨error, fails⟩, stuck, more, events, startless, stops⟩
    · exact ⟨fun _ => .inl through, fun _ error failed => absurd failed (returns error)⟩
    · dsimp only
      have survives : (∀ error,
          (installPackage machine env device path sha).result = .error error →
            runs units (unitName d) true (installPackage machine env device path sha).events =
              true) ↔
            runs units (unitName d) true (installPackage machine env device path sha).events =
              true := ⟨fun all => all error fails, fun up _ _ => up⟩
      rw [survives, events, runs_stops more startless]
      constructor
      · rintro ⟨own, stale⟩
        exact .inr ⟨own, fun installs desired services unit member =>
          stale unit ((stops unit).mpr ⟨installs, desired, services, member⟩)⟩
      · rintro (through | ⟨own, stale⟩)
        · exact absurd through stuck
        · refine ⟨own, fun other member => ?_⟩
          obtain ⟨installs, desired, services, reaches⟩ := (stops other).mp member
          exact stale installs desired services other reaches

end

/-! ## An upgrade that needs a package that is missing -/

/-- Units that require no other. -/
def separate : Units := ⟨fun stopped unit => stopped = unit, fun started unit => started = unit⟩

/-- The next version of the open service, which depends on a package that nobody has. -/
def unmetUpgrade : Archive :=
  { sum := "0"
    control := some
      { name := "open", version := "2.0", kind := .goBinary, depends := ["codec"]
        service := some open_ }
    entries := [] }

/-- The service was installed and running, and it is stopped for good. -/
theorem failed_upgrade_stops :
    desiredOf cloudMachine bothDevice = some [open_, vault] ∧
      ¬ SurvivesFailure cloudMachine { running with package := fun _ => some unmetUpgrade } separate
        bothDevice "/tmp/open.helixpkg" "" open_ := by
  refine ⟨by decide, fun survives => ?_⟩
  exact absurd (survives .installer (by decide)) (by decide)

end HelixKit.Runtime
