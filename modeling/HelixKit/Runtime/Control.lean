/-
Purpose: The control operations of the runtime manager, for the local socket and for the cloud.
Trusted boundary: what systemd answers, which descriptors stand in the catalog directory, and what
  a request's parameters decode to are parameters; what a package's scripts do is not seen
-/
import HelixKit.Runtime.Units
import HelixKit.Pkg.Manager

namespace HelixKit.Runtime

open HelixKit.FileTree HelixKit.PosixPath
open HelixKit.Pkg (ServiceDescriptor Device DBEntry Manifest Archive Host File Bytes Failure
  InstallFaults RemoveFaults validName)

/-! ## The device -/

/-- `config.DropInPath` -/
def dropInPath (host : Host) (service : String) : String :=
  host.rootJoin ("/etc/helix/conf.d/" ++ service ++ ".json")

/-- The device the manager runs on, with its catalog directory. -/
structure Machine where
  host : Host
  unitDir : Place
  /-- The path is one of a `*.service.json` of the catalog directory. -/
  isSeed : String → Prop
  /-- The descriptors of the catalog directory, in the order of their paths; `none` when one of
  them cannot be read or decoded. -/
  seeds : (String → Option File) → Option (List ServiceDescriptor)
  seeds_eq : ∀ files after, (∀ path, isSeed path → after path = files path) →
    seeds after = seeds files
  dropIn_apart : ∀ service, ¬ isSeed (dropInPath host service)

/-- What one call finds. -/
structure Environment where
  systemd : Systemd
  /-- The command of systemd succeeds. -/
  obeys : Event → Bool := fun _ => true
  /-- The unit directory. -/
  units : Tree := ⟨[]⟩
  /-- The packages at local paths. -/
  package : String → Option Archive := fun _ => none
  installedAt : String := ""
  install : InstallFaults := {}
  remove : RemoveFaults := {}
  /-- The saved catalog, and the database, can be read. -/
  catalogReads : Bool := true
  dbReads : Bool := true
  /-- A drop-in can be written, and read. -/
  dropInWrites : Bool := true
  dropInReads : Bool := true

/-- What the parameters decode to as those of an installation (`path` and `sha256`), of a removal
(`name` and `purge`), of a method on a service, and of a `put-config`, with the section as it is
written, without one if it is no object. -/
structure Params where
  install : Option (String × String) := none
  remove : Option (String × Bool) := none
  service : Option String := none
  config : Option (String × Option Bytes) := none

inductive ControlError where
  /-- The parameters cannot be decoded. -/
  | params
  /-- `unknown method %q` -/
  | unknownMethod (method : String)
  /-- `unknown service %q` -/
  | unknownService (service : String)
  /-- `unknown action %q` -/
  | unknownAction (method : String)
  /-- `service %q does not allow remote control` -/
  | noControl (service : String)
  /-- `invalid package name %q` -/
  | invalidPackage (name : String)
  /-- `invalid service name %q` -/
  | invalidService (name : String)
  /-- `config section must be a JSON object: %w` -/
  | notObject
  /-- `installer: %w` -/
  | installer
  | manifest (failure : Failure)
  | os
deriving Repr, DecidableEq

inductive Reply where
  | status
  | metrics
  | packages (entries : List DBEntry)
  | ok
  | installed (name version : String)
  /-- The drop-in of a service, `{}` if there is none. -/
  | config (content : Option Bytes)
deriving Repr, DecidableEq

/-- What a call does, and what it returns. -/
structure Response (Result : Type) where
  device : Device
  events : List Event
  result : Except ControlError Result

/-- `coreServices` -/
def coreServices (service : String) : Option String :=
  if service = "helixd" then some "helixd.service" else none

variable (machine : Machine) (env : Environment) (device : Device)

/-! ## The gate -/

/-- The services of the device. -/
def desiredOf : Option (List ServiceDescriptor) :=
  (machine.seeds device.disk.files).map (loadDesired device.catalog)

/-- `loadDesired`, which fails when the catalog cannot be read. -/
def readDesired : Option (List ServiceDescriptor) :=
  if env.catalogReads then desiredOf machine device else none

/-- The first service of the name. -/
def effective (desired : List ServiceDescriptor) (service : String) : Option ServiceDescriptor :=
  desired.find? fun d => d.name = service

def gateControl (service : String) (trusted : Bool) : Except ControlError Unit :=
  if trusted then .ok ()
  else if (coreServices service).isSome then .ok ()
  else
    match readDesired machine env device with
    | none => .error .os
    | some desired =>
      match effective desired service with
      | none => .error (.unknownService service)
      | some d => if d.allowControl then .ok () else .error (.noControl service)

def resolveUnit (service : String) : Option String :=
  match coreServices service with
  | some unit => some unit
  | none => (readDesired machine env device).bind fun desired =>
    (effective desired service).map unitName

/-- One command of systemd, whose error is the call's. -/
def command (event : Event) : Response Unit :=
  { device, events := [event], result := if env.obeys event then .ok () else .error .os }

def refuse {Result : Type} (error : ControlError) : Response Result :=
  { device, events := [], result := .error error }

def serviceAction (method service : String) (trusted : Bool) : Response Unit :=
  match gateControl machine env device service trusted with
  | .error error => refuse device error
  | .ok () =>
    match resolveUnit machine env device service with
    | none => refuse device (.unknownService service)
    | some unit =>
      match method with
      | "start-service" => command env device (.start unit)
      | "stop-service" => command env device (.stop unit)
      | "restart-service" => command env device (.restart unit)
      | _ => refuse device (.unknownAction method)

/-! ## Packages -/

/-- `Reconcile`, from the catalog on. -/
def reconcileNow : Response Unit :=
  match readDesired machine env device with
  | none => refuse device .os
  | some desired =>
    let outcome := reconcile machine.unitDir env.systemd desired env.units
    { device, events := outcome.events
      result := match outcome.result with
        | some () => .ok ()
        | none => .error .os }

/-- `ReadManifest`, with the archive. -/
def readManifest (path : String) : Except ControlError (Archive × Manifest) :=
  match env.package path with
  | none => .error .os
  | some archive =>
    match archive.control with
    | none => .error (.manifest .missingControl)
    | some control =>
      match control.validate with
      | .error failure => .error (.manifest failure)
      | .ok m => .ok (archive, m)

def helixPkgPath : String := machine.host.rootJoin "/usr/lib/helix/bin/helix-pkg"

/-- The command `helix-pkg` on these arguments, and whether it exits with zero. It has the flags
`-pkg` and `-sha256` for an installation, `-name` and `-purge` for a removal; with another one it
ends with its usage. -/
def helixPkg : List String → Device × Bool
  | ["install", "-pkg", path] =>
    match env.package path with
    | none => (device, false)
    | some archive =>
      if path = "" then (device, false)
      else
        let result := Pkg.install machine.host
          { archive, installedAt := env.installedAt, faults := env.install } device
        (result.1, result.2.isNone)
  | ["remove", "-name", name] =>
    let result := Pkg.remove machine.host { name, purge := false, faults := env.remove } device
    (result.1, result.2.isNone)
  | ["remove", "-name", name, "-purge"] =>
    let result := Pkg.remove machine.host { name, purge := true, faults := env.remove } device
    (result.1, result.2.isNone)
  | _ => (device, false)

/-- `RunTransient`, which waits for the program. -/
def runTransient (unit : String) (args : List String) : Response Unit :=
  let event := .transient unit (helixPkgPath machine :: args)
  if env.obeys event then
    let ran := helixPkg machine env device args
    { device := ran.1, events := [event], result := if ran.2 then .ok () else .error .installer }
  else { device, events := [event], result := .error .installer }

/-- The installer, and the manager's reconciliation after it. -/
def runInstaller (unit : String) (args : List String) : Response Unit :=
  let ran := runTransient machine env device unit args
  match ran.result with
  | .error error => { ran with result := .error error }
  | .ok () =>
    let reconciled := reconcileNow machine env ran.device
    { reconciled with events := ran.events ++ reconciled.events }

def installPackage (path sha : String) : Response Manifest :=
  match readManifest env path with
  | .error error => refuse device error
  | .ok (_, m) =>
    let stops := m.service.toList.map fun s => Event.stop (unitName s)
    let args := ["install", "-pkg", path] ++ if sha = "" then [] else ["-sha", sha]
    let installed := runInstaller machine env device ("helix-install-" ++ m.name) args
    { device := installed.device, events := stops ++ installed.events
      result := installed.result.map fun _ => m }

def removePackage (name : String) (purge : Bool) : Response Unit :=
  if ¬ validName name then refuse device (.invalidPackage name)
  else if ¬ env.dbReads then refuse device .os
  else
    let stops := match (device.db.get name).bind DBEntry.service with
      | none => []
      | some s => [Event.stop (unitName s), .disable (unitName s)]
    let args := ["remove", "-name", name] ++ if purge then ["-purge"] else []
    let removed := runInstaller machine env device ("helix-remove-" ++ name) args
    { removed with events := stops ++ removed.events }

/-! ## Configuration -/

/-- The section is written beside the drop-in and renamed over it. -/
def putConfig (service : String) (config : Option Bytes) : Response Unit :=
  if ¬ validName service then refuse device (.invalidService service)
  else
    match resolveUnit machine env device service with
    | none => refuse device (.unknownService service)
    | some unit =>
      match config with
      | none => refuse device .notObject
      | some pretty =>
        if ¬ env.dropInWrites then refuse device .os
        else
          let path := dropInPath machine.host service
          command env { device with disk := device.disk.edit path (some ⟨pretty, 0o640⟩) }
            (.restart unit)

def getConfig (service : String) : Except ControlError Reply :=
  if ¬ validName service then .error (.invalidService service)
  else if ¬ env.dropInReads then .error .os
  else .ok (.config ((device.disk.files (dropInPath machine.host service)).map File.content))

/-! ## Requests -/

def Response.reply {Result : Type} (response : Response Result) (reply : Result → Reply) :
    Response Reply :=
  { response with result := response.result.map reply }

/-- `Handle` -/
def handle (method : String) (params : Params) (trusted : Bool) : Response Reply :=
  let answer (result : Except ControlError Reply) : Response Reply := { device, events := [], result }
  match method with
  | "get-status" => answer (.ok .status)
  | "get-metrics" => answer (.ok .metrics)
  | "list-packages" =>
    if env.dbReads then answer (.ok (.packages device.db.list)) else answer (.error .os)
  | "reconcile" => (reconcileNow machine env device).reply fun _ => .ok
  | "install-package" =>
    match params.install with
    | none => answer (.error .params)
    | some (path, sha) =>
      (installPackage machine env device path sha).reply fun m => .installed m.name m.version
  | "remove-package" =>
    match params.remove with
    | none => answer (.error .params)
    | some (name, purge) => (removePackage machine env device name purge).reply fun _ => .ok
  | "start-service" | "stop-service" | "restart-service" =>
    match params.service with
    | none => answer (.error .params)
    | some service =>
      (serviceAction machine env device method service trusted).reply fun _ => .ok
  | "put-config" =>
    match params.config with
    | none => answer (.error .params)
    | some (service, config) =>
      match gateControl machine env device service trusted with
      | .error error => answer (.error error)
      | .ok () => (putConfig machine env device service config).reply fun _ => .ok
  | "get-config" =>
    match params.service with
    | none => answer (.error .params)
    | some service => answer (getConfig machine env device service)
  | _ => answer (.error (.unknownMethod method))

end HelixKit.Runtime
