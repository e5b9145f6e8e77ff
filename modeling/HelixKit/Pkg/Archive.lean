/-
Purpose: What a package is (`linux/device/go/internal/pkg/manifest.go` and
  `depsolve.go`): its archive, its control document, its version and the
  constraints it puts on the versions of other packages, and the places its
  payload has under the root.
Trusted boundary: none
-/
import Mathlib.Algebra.GroupWithZero.Nat
import Mathlib.Algebra.Ring.Int.Defs
import Mathlib.Data.List.Basic

namespace HelixKit.Pkg

abbrev Bytes : Type := List UInt8

/-- The errors of the package manager.  `os` is one of the operating system or
of a library, with its text. -/
inductive Failure where
  /-- `package sha256 mismatch: got %s want %s` -/
  | sha256Mismatch (got want : String)
  /-- `missing helix-control.json` -/
  | missingControl
  /-- `unsupported schemaVersion %d` -/
  | schemaVersion (version : Int)
  /-- `invalid package name %q` -/
  | invalidName (name : String)
  /-- `invalid version %q` -/
  | invalidVersion (version : String)
  /-- `unknown kind %q` -/
  | unknownKind (kind : String)
  /-- `service %q has no execStart` -/
  | noExecStart (service : String)
  /-- `invalid dependency spec %q` -/
  | invalidDependency (spec : String)
  /-- `dependency %q: ` and the error of `parseVersion` -/
  | dependencyVersion (spec : String)
  /-- `unmet dependencies for %s: %s` -/
  | unmetDependencies (name : String) (unmet : List String)
  /-- `unsupported tar entry %q (type %d)` -/
  | unsupportedEntry (name : String) (flag : UInt8)
  /-- `maintainer script %s: %w` -/
  | script (hook : String) (cause : String)
  /-- `setup command: %w` -/
  | setup (cause : String)
  /-- `package %q is not installed` -/
  | notInstalled (name : String)
  /-- `remove %s: %w` -/
  | remove (path : String) (cause : String)
  | os (cause : String)
deriving DecidableEq, Repr

/-! ### Versions -/

/-- A dotted numeric version. -/
abbrev Version : Type := List Nat

/-- A component of a version: decimal digits that fit an `int`. -/
def parseComponent (digits : List Char) : Option Nat :=
  if digits = [] ∨ ¬ digits.all Char.isDigit then none
  else
    let n := digits.foldl (fun n c => 10 * n + (c.toNat - '0'.toNat)) 0
    if n < 2 ^ 63 then some n else none

def parseVersion (s : String) : Option Version :=
  (s.toList.splitOn '.').mapM parseComponent

/-- `compare`: the first components that differ decide; missing ones are zero. -/
def Version.compare (a b : Version) : Ordering :=
  (List.range (max a.length b.length)).foldl
    (fun order i => order.then (Ord.compare (a.getD i 0) (b.getD i 0))) .eq

/-! ### Constraints -/

/-- The operator of a constraint. -/
inductive Relation where
  | ge
  | le
  | gt
  | lt
  | eq
deriving DecidableEq, Repr

/-- A constraint `name (op version)`; without an operator any version will do. -/
structure Dependency where
  name : String
  op : Option Relation
  version : Version
  raw : String
deriving DecidableEq, Repr

/-- `unicode.IsSpace`, which `strings.TrimSpace` cuts off. -/
def isSpace (c : Char) : Bool :=
  c.toNat ∈ [0x09, 0x0A, 0x0B, 0x0C, 0x0D, 0x20, 0x85, 0xA0, 0x1680, 0x2028, 0x2029, 0x202F,
    0x205F, 0x3000] || (0x2000 ≤ c.toNat && c.toNat ≤ 0x200A)

/-- `\s` of the `regexp` package, which leaves out the vertical tab. -/
def isBlank (c : Char) : Bool :=
  c.toNat ∈ [0x09, 0x0A, 0x0C, 0x0D, 0x20]

/-- `[a-z0-9]` -/
def isNameStart (c : Char) : Bool := c.isDigit || c.isLower

/-- `[a-z0-9-]` -/
def isNameChar (c : Char) : Bool := isNameStart c || c = '-'

/-- `(>=|<=|>|<|=)`, and what follows it. -/
def relation : List Char → Option (Relation × List Char)
  | '>' :: '=' :: rest => some (.ge, rest)
  | '<' :: '=' :: rest => some (.le, rest)
  | '>' :: rest => some (.gt, rest)
  | '<' :: rest => some (.lt, rest)
  | '=' :: rest => some (.eq, rest)
  | _ => none

/-- `\(\s*(>=|<=|>|<|=)\s*([0-9.]+)\s*\)` up to the end of the text: the operator
and the text of the version. -/
def versionClause : List Char → Option (Relation × List Char)
  | '(' :: rest => do
      let (op, rest) ← relation (rest.dropWhile isBlank)
      let rest := rest.dropWhile isBlank
      let isVersionChar := fun c : Char => c.isDigit || c = '.'
      let version := rest.takeWhile isVersionChar
      if version ≠ [] ∧ (rest.dropWhile isVersionChar).dropWhile isBlank = [')'] then
        some (op, version)
      else none
  | _ => none

/-- `ParseDependency`. -/
def parseDependency (spec : String) : Except Failure Dependency :=
  let text := ((spec.toList.dropWhile isSpace).reverse.dropWhile isSpace).reverse
  let name := text.takeWhile isNameChar
  let rest := (text.dropWhile isNameChar).dropWhile isBlank
  if ¬ name.head?.any isNameStart then .error (.invalidDependency spec)
  else if rest = [] then
    .ok { name := .ofList name, op := none, version := [], raw := spec }
  else
    match versionClause rest with
    | none => .error (.invalidDependency spec)
    | some (op, digits) =>
      match parseVersion (.ofList digits) with
      | none => .error (.dependencyVersion spec)
      | some version => .ok { name := .ofList name, op := some op, version, raw := spec }

/-- `SatisfiedBy`. -/
def Dependency.satisfiedBy (d : Dependency) (installed : String) : Bool :=
  match d.op with
  | none => true
  | some op =>
    match parseVersion installed with
    | none => false
    | some version =>
      match op, version.compare d.version with
      | .ge, order => order ≠ .lt
      | .gt, order => order = .gt
      | .eq, order => order = .eq
      | .le, order => order ≠ .gt
      | .lt, order => order = .lt

/-! ### The control document -/

/-- `Kind`, as the control document has it. -/
inductive Kind where
  | goBinary
  | python
  | uiBundle
  | asset
  | unknown (text : String)
deriving DecidableEq, Repr

/-- A payload file whose local modifications survive upgrades. -/
structure Conffile where
  path : String
  mode : String := ""
  owner : String := ""
deriving DecidableEq, Repr

/-- A package's managed-service block. -/
structure ServiceDescriptor where
  name : String := ""
  core : Bool := false
  enabled : Bool := false
  allowControl : Bool := false
  allowUpdate : Bool := false
  execStart : List String := []
  user : String := ""
  group : String := ""
  environment : List (String × String) := []
  environmentFiles : List String := []
  workingDirectory : String := ""
  restart : String := ""
  restartSec : Int := 0
  after : List String := []
  requires : List String := []
  wantedBy : List String := []
deriving DecidableEq, Repr

/-- A package's control document.  The scripts stand in the order in which Go
visits the map of hooks. -/
structure Manifest where
  schemaVersion : Int := 1
  name : String
  version : String
  kind : Kind
  depends : List String := []
  provides : List String := []
  conflicts : List String := []
  maintainerScripts : List (String × String) := []
  conffiles : List Conffile := []
  setupCommand : List String := []
  service : Option ServiceDescriptor := none
deriving DecidableEq, Repr

/-- `nameRE` -/
def validName (name : String) : Bool :=
  name.toList.head?.any isNameStart && name.toList.all isNameChar

/-- A service without a name has the package's. -/
def ServiceDescriptor.named (service : ServiceDescriptor) (package : String) : ServiceDescriptor :=
  { service with name := if service.name = "" then package else service.name }

/-- `Validate`. -/
def Manifest.validate (m : Manifest) : Except Failure Manifest :=
  if m.schemaVersion ≠ 1 then .error (.schemaVersion m.schemaVersion)
  else if ¬ validName m.name then .error (.invalidName m.name)
  else if (parseVersion m.version).isNone then .error (.invalidVersion m.version)
  else
    match m.kind with
    | .unknown kind => .error (.unknownKind kind)
    | .goBinary | .python | .uiBundle | .asset =>
      match m.service with
      | none => .ok m
      | some service =>
        if service.execStart = [] then .error (.noExecStart (service.named m.name).name)
        else .ok { m with service := some (service.named m.name) }

/-! ### The archive -/

inductive EntryType where
  | regular
  | dir
  | other (flag : UInt8)
deriving DecidableEq, Repr

structure TarEntry where
  name : String
  type : EntryType := .regular
  mode : Nat := 0o644
  data : Bytes := []
deriving DecidableEq, Repr

/-- A `.helixpkg`: its SHA-256, its parsed `helix-control.json` if it has one,
and all its entries. -/
structure Archive where
  sum : String
  control : Option Manifest
  entries : List TarEntry
deriving DecidableEq, Repr

def payloadPrefix : String := "payload/"

/-! ### Paths -/

/-- The components of a cleaned path; `stack` holds those before, the last one first. -/
def cleanParts (rooted : Bool) : List (List Char) → List (List Char) → List (List Char)
  | stack, [] => stack.reverse
  | stack, part :: parts =>
    if part = [] ∨ part = ['.'] then cleanParts rooted stack parts
    else if part = ['.', '.'] then
      match stack with
      | [] => cleanParts rooted (if rooted then [] else [part]) parts
      | last :: below =>
        if last = ['.', '.'] then cleanParts rooted (part :: stack) parts
        else cleanParts rooted below parts
    else cleanParts rooted (part :: stack) parts

/-- `filepath.Clean`. -/
def clean (path : String) : String :=
  let rooted : Bool := path.toList.head? = some '/'
  let parts := ['/'].intercalate (cleanParts rooted [] (path.toList.splitOn '/'))
  .ofList (if rooted then '/' :: parts else if parts = [] then ['.'] else parts)

/-- The names of a cleaned path, from the root or from where the path starts. -/
def names (path : String) : List (List Char) :=
  cleanParts (path.toList.head? = some '/') [] (path.toList.splitOn '/')

/-- `filepath.Join` of a directory and a name in it. -/
def join (dir name : String) : String := clean (dir ++ "/" ++ name)

/-- The path on the device of a regular payload file or a directory; `none` is
an entry outside the payload. -/
def TarEntry.onDevice (entry : TarEntry) : Option String :=
  if payloadPrefix.toList.isPrefixOf entry.name.toList ∧ entry.name ≠ payloadPrefix then
    some ("/" ++ clean (.ofList (entry.name.toList.drop payloadPrefix.length)))
  else none

/-- What the manager takes from the device it runs on: the root, and SHA-256 in
hexadecimal digits. -/
structure Host where
  root : String
  sha256 : Bytes → String
  sha256_ne : ∀ data, sha256 data ≠ ""

/-- `rootJoin` -/
def Host.rootJoin (host : Host) (onDevice : String) : String :=
  if host.root = "" then clean onDevice else clean (host.root ++ "/" ++ clean onDevice)

/-- Where a file is written before it is renamed. -/
def tmpPath (dest : String) : String := dest ++ ".tmp"

/-- Where the new content of a locally modified conffile is dropped. -/
def newPath (dest : String) : String := dest ++ ".helix-new"

/-- A path is not that of its own temporary. -/
@[simp] theorem tmpPath_ne (dest : String) : tmpPath dest ≠ dest := by
  intro same
  have lengths := congrArg String.length same
  simp [tmpPath] at lengths

@[simp] theorem newPath_ne (dest : String) : newPath dest ≠ dest := by
  intro same
  have lengths := congrArg String.length same
  simp [newPath] at lengths

@[simp] theorem tmpPath_newPath_ne (dest : String) : tmpPath (newPath dest) ≠ dest := by
  intro same
  have lengths := congrArg String.length same
  have suffix : ".tmp".length = 4 := rfl
  simp only [tmpPath, newPath, String.length_append, suffix] at lengths
  omega

end HelixKit.Pkg
