/-
Purpose: The systemd units of the services of a device, and how the runtime manager brings the unit
  directory and systemd into line with the catalog.
Trusted boundary: what systemd answers is a parameter; the unit directory can be listed
-/
import HelixKit.Lib.FileTree
import HelixKit.Pkg.Archive
import Mathlib.Data.List.Sort

namespace HelixKit.Runtime

open HelixKit.FileTree HelixKit.PosixPath
open HelixKit.Pkg (ServiceDescriptor)

/-! ## The desired services -/

/-- The seeds that bring a name of their own. -/
def freshSeeds : List String → List ServiceDescriptor → List ServiceDescriptor
  | _, [] => []
  | seen, d :: rest =>
    if d.name ≠ "" ∧ d.name ∉ seen then d :: freshSeeds (d.name :: seen) rest
    else freshSeeds seen rest

/-- The installed catalog, and the seeds that are not already present. -/
def loadDesired (installed seeds : List ServiceDescriptor) : List ServiceDescriptor :=
  installed ++ freshSeeds (installed.map ServiceDescriptor.name) seeds

def unitName (d : ServiceDescriptor) : String := "helix-" ++ d.name ++ ".service"

theorem toList_unitName (d : ServiceDescriptor) :
    (unitName d).toList = "helix-".toList ++ d.name.toList ++ ".service".toList := by
  simp [unitName]

theorem unitName_inj {a b : ServiceDescriptor} (same : unitName a = unitName b) :
    a.name = b.name := by
  have chars := congrArg String.toList same
  rw [toList_unitName, toList_unitName] at chars
  exact String.toList_inj.mp (List.append_cancel_left (List.append_cancel_right chars))

/-- `less`, in the sort of the desired services: core first, then by name. -/
def before (a b : ServiceDescriptor) : Bool :=
  if a.core ≠ b.core then a.core else a.name < b.name

def sorted (desired : List ServiceDescriptor) : List ServiceDescriptor :=
  desired.insertionSort fun a b => !before b a

/-! ## Units -/

def line (key value : String) : String := key ++ "=" ++ value ++ "\n"

def orDefault (value fallback : String) : String := if value = "" then fallback else value

def orDefaultInt (value fallback : Int) : Int := if value = 0 then fallback else value

def optionalLine (key value : String) : String := if value = "" then "" else line key value

def renderUnit (d : ServiceDescriptor) : String :=
  let requires := if d.requires = [] then "" else line "Requires" (" ".intercalate d.requires)
  let wantedBy := if d.wantedBy = [] then ["helix.target"] else d.wantedBy
  let environment := d.environment.insertionSort fun a b => a.1 ≤ b.1
  "# Generated by helix-runtime-manager. Do not edit.\n" ++
  "[Unit]\n" ++
  line "Description" ("Helix service " ++ d.name) ++
  line "After" (" ".intercalate ("network-online.target" :: d.after)) ++
  requires ++
  "\n[Service]\n" ++
  "Type=simple\n" ++
  optionalLine "User" d.user ++
  optionalLine "Group" d.group ++
  optionalLine "WorkingDirectory" d.workingDirectory ++
  String.join (d.environmentFiles.map fun file => line "EnvironmentFile" ("-" ++ file)) ++
  String.join (environment.map fun pair => line "Environment" (pair.1 ++ "=" ++ pair.2)) ++
  line "ExecStart" (" ".intercalate d.execStart) ++
  line "Restart" (orDefault d.restart "on-failure") ++
  line "RestartSec" (toString (orDefaultInt d.restartSec 2)) ++
  "\n[Install]\n" ++
  line "WantedBy" (" ".intercalate wantedBy)

/-! ## What the manager does -/

inductive Event where
  | stop (unit : String)
  | disable (unit : String)
  | enable (unit : String)
  | start (unit : String)
  | restart (unit : String)
  | daemonReload
  | transient (unit : String) (argv : List String)
  /-- A file is written, or renamed to a place, or removed. -/
  | wrote (place : Place)
  | renamed (place : Place)
  | removed (place : Place)
deriving Repr, DecidableEq

/-- What systemd answers: the units that `Show` says are active, and whether a daemon-reload
succeeds. The other errors are only logged. -/
structure Systemd where
  active : String → Bool
  reloads : Bool

/-- The file tree, what was done, and the result, without one if it failed. -/
structure Outcome (Result : Type) where
  tree : Tree
  events : List Event
  result : Option Result
deriving Repr, DecidableEq

variable (dir : Place)

/-- `filepath.Join(config.SystemdUnitDir(), unit)` -/
def joinUnit (unit : String) : Place := locate (render dir ++ '/' :: unit.toList)

def unitPath (d : ServiceDescriptor) : Place := joinUnit dir (unitName d)

/-- `path + ".tmp"` -/
def tmpPath (place : Place) : Place := locate (render place ++ ".tmp".toList)

def writeUnit (tree : Tree) (d : ServiceDescriptor) : Outcome Bool :=
  let content := renderUnit d
  let path := unitPath dir d
  let tmp := tmpPath path
  if tree.read path = some content then { tree, events := [], result := some false }
  else
    match tree.mkdirAll path.dropLast with
    | none => { tree, events := [], result := none }
    | some made =>
      match made.write tmp content with
      | none => { tree := made, events := [], result := none }
      | some written =>
        let wrote := .wrote (made.follow tmp)
        match written.rename tmp path with
        | none => { tree := written, events := [wrote], result := none }
        | some renamed =>
          { tree := renamed, events := [wrote, .renamed path], result := some true }

def removeUnit (tree : Tree) (name : String) : Outcome Unit :=
  let path := joinUnit dir ("helix-" ++ name ++ ".service")
  match tree.remove path with
  | none => { tree, events := [], result := none }
  | some after => { tree := after, events := [.removed path], result := some () }

/-- The names that the pattern `helix-*.service` matches. -/
def managed (name : Path) : Bool :=
  14 ≤ name.length && "helix-".toList.isPrefixOf name && ".service".toList.isSuffixOf name &&
    !name.contains '/'

/-- `helix-<name>.service` back to `<name>`. -/
def unitToService (unit : String) : String :=
  let name := if "helix-".toList.isPrefixOf unit.toList then unit.toList.drop 6 else unit.toList
  .ofList (if ".service".toList.isSuffixOf name then name.take (name.length - 8) else name)

def staleManagedUnits (tree : Tree) (desired : List String) : List String :=
  ((((tree.namesIn dir).filter managed).map String.ofList).insertionSort (· ≤ ·)).filter
    (· ∉ desired)

def removeStale : Tree → List String → Outcome Unit
  | tree, [] => { tree, events := [], result := some () }
  | tree, unit :: rest =>
    let one := removeUnit dir tree (unitToService unit)
    let events := .stop unit :: .disable unit :: one.events
    match one.result with
    | none => { tree := one.tree, events, result := none }
    | some _ =>
      let others := removeStale one.tree rest
      { others with events := events ++ others.events }

/-- The result says whether a unit changed. -/
def writeUnits : Tree → List ServiceDescriptor → Outcome Bool
  | tree, [] => { tree, events := [], result := some false }
  | tree, d :: rest =>
    let one := writeUnit dir tree d
    match one.result with
    | none => one
    | some wrote =>
      let others := writeUnits one.tree rest
      { others with events := one.events ++ others.events
                    result := others.result.map (wrote || ·) }

/-- The starts and stops that follow the reload. -/
def settle (sd : Systemd) (d : ServiceDescriptor) : List Event :=
  if d.enabled then
    .enable (unitName d) :: if sd.active (unitName d) then [] else [.start (unitName d)]
  else [.disable (unitName d), .stop (unitName d)]

/-- Whether the units have changed, with the daemon-reload. -/
def reload (sd : Systemd) (changed : Bool) : List Event × Bool :=
  if changed then ([.daemonReload], sd.reloads) else ([], true)

def reconcile (sd : Systemd) (services : List ServiceDescriptor) (tree : Tree) : Outcome Unit :=
  let desired := sorted services
  let stale := staleManagedUnits dir tree (desired.map unitName)
  let removal := removeStale dir tree stale
  match removal.result with
  | none => removal
  | some _ =>
    let writing := writeUnits dir removal.tree desired
    let events := removal.events ++ writing.events
    match writing.result with
    | none => { tree := writing.tree, events, result := none }
    | some wrote =>
      let reloading := reload sd (stale ≠ [] || wrote)
      if reloading.2 then
        { tree := writing.tree
          events := events ++ reloading.1 ++ desired.flatMap (settle sd)
          result := some () }
      else { tree := writing.tree, events := events ++ reloading.1, result := none }

end HelixKit.Runtime
