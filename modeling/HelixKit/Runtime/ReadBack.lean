/-
Purpose: Reading the unit of a service back as systemd does: which descriptors come back with their
  command, their environment and their directives, whatever the machine has for specifiers and
  variables.
Trusted boundary: the values of specifiers and variables are parameters
Main exports: reads_back_iff
-/
import HelixKit.Lib.UnitFile
import HelixKit.Runtime.Units

namespace HelixKit.Runtime

open HelixKit.UnitWords HelixKit.UnitFile
open HelixKit.Pkg (ServiceDescriptor Manifest)

/-! ## What a descriptor asks for -/

def entry (key value : String) : Directive := (key.toList, value.toList)

def optional (key value : String) : List Directive := if value = "" then [] else [entry key value]

/-- The variables in the order of their names. -/
def sortedEnvironment (d : ServiceDescriptor) : List (String × String) :=
  d.environment.insertionSort fun a b => a.1 ≤ b.1

def unitDirectives (d : ServiceDescriptor) : List Directive :=
  [entry "Description" ("Helix service " ++ d.name),
    entry "After" (" ".intercalate ("network-online.target" :: d.after))] ++
  if d.requires = [] then [] else [entry "Requires" (" ".intercalate d.requires)]

def serviceDirectives (d : ServiceDescriptor) : List Directive :=
  [entry "Type" "simple"] ++ optional "User" d.user ++ optional "Group" d.group ++
  optional "WorkingDirectory" d.workingDirectory ++
  d.environmentFiles.map (fun file => entry "EnvironmentFile" ("-" ++ file)) ++
  (sortedEnvironment d).map (fun pair => entry "Environment" (pair.1 ++ "=" ++ pair.2)) ++
  [entry "ExecStart" (" ".intercalate d.execStart),
    entry "Restart" (orDefault d.restart "on-failure"),
    entry "RestartSec" (toString (orDefaultInt d.restartSec 2))]

def installDirectives (d : ServiceDescriptor) : List Directive :=
  [entry "WantedBy" (" ".intercalate (if d.wantedBy = [] then ["helix.target"] else d.wantedBy))]

/-- The sections and directives that a descriptor asks for. -/
def asked (d : ServiceDescriptor) : List Item :=
  .section_ "Unit".toList :: ((unitDirectives d).map Directive.item ++
    .section_ "Service".toList :: ((serviceDirectives d).map Directive.item ++
      .section_ "Install".toList :: ((installDirectives d).map Directive.item ++ [])))

/-- The values that systemd reads of a key of the service. -/
def serviceValues (key : String) (d : ServiceDescriptor) : List Text :=
  valuesOf "Service".toList key.toList none (items (renderUnit d).toList)

/-- The unit of the service is read back as it was asked for: the sections and directives, the one
command that is started, and the variables that are set for it. -/
structure ReadsBack (machine : UnitWords.Machine) (d : ServiceDescriptor) : Prop where
  items : items (renderUnit d).toList = asked d
  argv : collect (commands machine) (serviceValues "ExecStart" d) =
    [d.execStart.map String.toList]
  environment : collect (assignments machine) (serviceValues "Environment" d) =
    (sortedEnvironment d).map fun pair => (pair.1.toList, pair.2.toList)

/-- A descriptor whose strings mean themselves in a unit: every value stays on its line, and neither
quoting nor a specifier or a variable changes an argument or an environment variable. -/
structure Verbatim (d : ServiceDescriptor) : Prop where
  lines : ∀ directive ∈ unitDirectives d ++ serviceDirectives d ++ installDirectives d,
    Fits directive.2
  command : LiteralCommand (d.execStart.map String.toList)
  environment : ∀ pair ∈ d.environment, LiteralVariable pair.1.toList pair.2.toList

/-! ## The lines of a unit -/

/-- The text of some directives. -/
def directiveText (directives : List Directive) : Text :=
  directives.flatMap fun d => d.line ++ ['\n']

theorem splitOn_directives (directives : List Directive) (rest : Text) :
    (directiveText directives ++ rest).splitOn '\n' =
      directives.flatMap (fun d => d.line.splitOn '\n') ++ rest.splitOn '\n' := by
  induction directives with
  | nil => rfl
  | cons d later ih =>
    have shape : directiveText (d :: later) ++ rest =
        d.line ++ '\n' :: (directiveText later ++ rest) := by
      simp [directiveText]
    rw [shape, List.splitOn_append_cons_self, ih, List.flatMap_cons, List.append_assoc]

theorem toList_line (key value : String) :
    (line key value).toList = directiveText [entry key value] := by
  simp [line, directiveText, entry, Directive.line]

theorem toList_optionalLine (key value : String) :
    (optionalLine key value).toList = directiveText (optional key value) := by
  unfold optionalLine optional
  split
  · rfl
  · exact toList_line key value

theorem toList_lines {α : Type} (xs : List α) (key : String) (value : α → String) :
    (String.join (xs.map fun x => line key (value x))).toList =
      directiveText (xs.map fun x => entry key (value x)) := by
  rw [String.toList_join, List.flatMap_map]
  unfold directiveText
  rw [List.flatMap_map]
  refine List.flatMap_congr fun x _ => ?_
  rw [toList_line]
  simp [directiveText]

theorem directiveText_append (some_ more : List Directive) :
    directiveText (some_ ++ more) = directiveText some_ ++ directiveText more := by
  simp [directiveText]

/-- The text of a unit, by its sections. -/
theorem toList_renderUnit (d : ServiceDescriptor) :
    (renderUnit d).toList =
      "# Generated by helix-runtime-manager. Do not edit.".toList ++ '\n' ::
        ("[Unit]".toList ++ '\n' :: (directiveText (unitDirectives d) ++ ('\n' ::
          ("[Service]".toList ++ '\n' :: (directiveText (serviceDirectives d) ++ ('\n' ::
            ("[Install]".toList ++ '\n' :: directiveText (installDirectives d)))))))) := by
  have requires : (if d.requires = [] then ""
      else line "Requires" (" ".intercalate d.requires)).toList =
      directiveText (if d.requires = [] then []
        else [entry "Requires" (" ".intercalate d.requires)]) := by
    split
    · rfl
    · exact toList_line _ _
  have header : "# Generated by helix-runtime-manager. Do not edit.\n".toList =
      "# Generated by helix-runtime-manager. Do not edit.".toList ++ ['\n'] := by
    rw [String.toList_ofList, String.toList_ofList]
    rfl
  have unitHeader : "[Unit]\n".toList = "[Unit]".toList ++ ['\n'] := rfl
  have serviceHeader : "\n[Service]\n".toList = '\n' :: ("[Service]".toList ++ ['\n']) := rfl
  have installHeader : "\n[Install]\n".toList = '\n' :: ("[Install]".toList ++ ['\n']) := rfl
  have type : "Type=simple\n".toList = directiveText [entry "Type" "simple"] := rfl
  have environment := toList_lines (sortedEnvironment d) "Environment"
    fun pair => pair.1 ++ "=" ++ pair.2
  have files := toList_lines d.environmentFiles "EnvironmentFile" fun file => "-" ++ file
  unfold sortedEnvironment at environment
  unfold renderUnit unitDirectives serviceDirectives installDirectives sortedEnvironment
  simp only [String.toList_append, header, unitHeader, serviceHeader, installHeader, type,
    environment, files, toList_line, toList_optionalLine, requires, directiveText_append]
  have first : ∀ a b : Directive, directiveText [a, b] = directiveText [a] ++ directiveText [b] :=
    fun a b => directiveText_append [a] [b]
  have second : ∀ a b c : Directive,
      directiveText [a, b, c] = directiveText [a] ++ (directiveText [b] ++ directiveText [c]) :=
    fun a b c => (directiveText_append [a] [b, c]).trans (by rw [first])
  simp only [first, second, List.append_assoc, List.cons_append, List.nil_append]

/-- The lines of a block of directives. -/
def blockLines (directives : List Directive) : List Text :=
  directives.flatMap fun d => d.line.splitOn '\n'

theorem lines_renderUnit (d : ServiceDescriptor) :
    (renderUnit d).toList.splitOn '\n' =
      "# Generated by helix-runtime-manager. Do not edit.".toList :: "[Unit]".toList ::
        (blockLines (unitDirectives d) ++ ([] :: "[Service]".toList ::
          (blockLines (serviceDirectives d) ++ ([] :: "[Install]".toList ::
            (blockLines (installDirectives d) ++ [[]]))))) := by
  have blank : ∀ rest : Text, ('\n' :: rest).splitOn '\n' = [] :: rest.splitOn '\n' :=
    fun rest => List.splitOn_append_cons_self_of_not_mem List.not_mem_nil rest
  have last : directiveText (installDirectives d) = directiveText (installDirectives d) ++ [] :=
    (List.append_nil _).symm
  rw [toList_renderUnit, List.splitOn_append_cons_self_of_not_mem (by decide),
    List.splitOn_append_cons_self_of_not_mem (by decide), splitOn_directives, blank,
    List.splitOn_append_cons_self_of_not_mem (by decide), splitOn_directives, blank,
    List.splitOn_append_cons_self_of_not_mem (by decide), last, splitOn_directives]
  rfl

/-! ## The directives of a unit -/

/-- The names of the directives. -/
def keys : List String :=
  ["Description", "After", "Requires", "Type", "User", "Group", "WorkingDirectory",
    "EnvironmentFile", "Environment", "ExecStart", "Restart", "RestartSec", "WantedBy"]

/-- Names of letters are keys. -/
theorem keys_of_all {names : List String}
    (all : names.all (fun name => name ≠ "" && name.toList.all Char.isAlphanum) = true) :
    ∀ name ∈ names, Key name.toList := by
  intro name member
  have own := List.all_eq_true.mp all name member
  simp only [Bool.and_eq_true, decide_eq_true_eq] at own
  exact ⟨by simpa using own.1, List.all_eq_true.mp own.2⟩

theorem key_of_mem {name : String} (member : name ∈ keys) : Key name.toList :=
  keys_of_all (by decide) name member

theorem key_entry {name value : String} {directive : Directive} (member : name ∈ keys)
    (same : directive = entry name value) : Key directive.1 := by
  rw [same]
  exact key_of_mem member

theorem mem_optional {name value : String} {directive : Directive}
    (member : directive ∈ optional name value) : directive = entry name value := by
  unfold optional at member
  split at member
  · cases member
  · exact List.mem_singleton.mp member

theorem key_unit (d : ServiceDescriptor) : ∀ directive ∈ unitDirectives d, Key directive.1 := by
  intro directive member
  unfold unitDirectives at member
  rcases List.mem_append.mp member with first | requires
  · simp only [List.mem_cons, List.not_mem_nil, or_false] at first
    rcases first with same | same <;> exact key_entry (by decide) same
  · split at requires
    · cases requires
    · exact key_entry (by decide) (List.mem_singleton.mp requires)

theorem key_service (d : ServiceDescriptor) :
    ∀ directive ∈ serviceDirectives d, Key directive.1 := by
  intro directive member
  unfold serviceDirectives at member
  simp only [List.mem_append, List.mem_map, List.mem_cons, List.not_mem_nil, or_false] at member
  rcases member with (((((same | user) | group) | directory) | ⟨file, -, same⟩) |
    ⟨pair, -, same⟩) | same | same | same
  · exact key_entry (by decide) same
  · exact key_entry (by decide) (mem_optional user)
  · exact key_entry (by decide) (mem_optional group)
  · exact key_entry (by decide) (mem_optional directory)
  · exact key_entry (by decide) same.symm
  · exact key_entry (by decide) same.symm
  all_goals exact key_entry (by decide) same

theorem key_install (d : ServiceDescriptor) :
    ∀ directive ∈ installDirectives d, Key directive.1 := by
  intro directive member
  exact key_entry (by decide) (List.mem_singleton.mp member)

theorem clean_blockLines {directives : List Directive} {rest : List Text}
    (clean : ∀ line ∈ rest, '\n' ∉ line) :
    ∀ line ∈ blockLines directives ++ rest, '\n' ∉ line := by
  intro line member
  rcases List.mem_append.mp member with own | after
  · obtain ⟨d, -, piece⟩ := List.mem_flatMap.mp own
    exact (mem_splitOn piece).1
  · exact clean line after

theorem follows_blank {rest : List Text} (clean : ∀ line ∈ rest, '\n' ∉ line) :
    Follows ([] :: rest) where
  clean := by
    intro line member
    rcases List.mem_cons.mp member with rfl | later
    · exact List.not_mem_nil
    · exact clean line later
  first := ⟨[], rfl, rfl, .inl rfl⟩

/-- A block between two headers is read back when its values fit. -/
theorem read_block {name : Text} (named : Key name) {directives : List Directive}
    (keyed : ∀ directive ∈ directives, Key directive.1) {rest : List Text}
    (clean : ∀ line ∈ rest, '\n' ∉ line) (others : List Item) :
    itemsOf (('[' :: name ++ [']']) :: (blockLines directives ++ ([] :: rest))) =
        .section_ name :: (directives.map Directive.item ++ others) ↔
      (∀ directive ∈ directives, Fits directive.2) ∧ itemsOf rest = others := by
  have blank : itemsOf ([] :: rest) = itemsOf rest := itemsOf_blank (by simp [Blank]) rest
  rw [read_section named, List.cons.injEq, and_iff_right rfl, ← blank]
  exact read_directives_iff keyed (follows_blank clean) others

theorem items_iff (d : ServiceDescriptor) :
    items (renderUnit d).toList = asked d ↔
      ∀ directive ∈ unitDirectives d ++ serviceDirectives d ++ installDirectives d,
        Fits directive.2 := by
  have sections : ∀ name ∈ ["Unit", "Service", "Install"], Key name.toList :=
    keys_of_all (by decide)
  have unit := sections "Unit" (by decide)
  have service := sections "Service" (by decide)
  have install := sections "Install" (by decide)
  have comment : isComment "# Generated by helix-runtime-manager. Do not edit.".toList = true := by
    decide
  have cleanEnd : ∀ line ∈ ([[]] : List Text), '\n' ∉ line := by simp
  have cleanInstall : ∀ line ∈ "[Install]".toList :: (blockLines (installDirectives d) ++ [[]]),
      '\n' ∉ line :=
    List.forall_mem_cons.mpr ⟨by decide, clean_blockLines cleanEnd⟩
  have cleanService : ∀ line ∈ "[Service]".toList :: (blockLines (serviceDirectives d) ++
      ([] :: "[Install]".toList :: (blockLines (installDirectives d) ++ [[]]))), '\n' ∉ line :=
    List.forall_mem_cons.mpr ⟨by decide, clean_blockLines
      (List.forall_mem_cons.mpr ⟨List.not_mem_nil, cleanInstall⟩)⟩
  have none_ : itemsOf [] = [] := rfl
  have first := read_block unit (key_unit d) cleanService
    (.section_ "Service".toList :: ((serviceDirectives d).map Directive.item ++
      .section_ "Install".toList :: ((installDirectives d).map Directive.item ++ [])))
  have second := read_block service (key_service d) cleanInstall
    (.section_ "Install".toList :: ((installDirectives d).map Directive.item ++ []))
  have cleanNil : ∀ line ∈ ([] : List Text), '\n' ∉ line := fun line member => by cases member
  have third := read_block install (key_install d) cleanNil []
  rw [and_iff_left none_] at third
  unfold items asked
  rw [lines_renderUnit, read_comment comment]
  refine first.trans ((and_congr_right fun _ =>
    second.trans (and_congr_right fun _ => third)).trans ?_)
  rw [List.forall_mem_append, List.forall_mem_append, and_assoc]

/-! ## The values of the service -/

theorem filter_other {key name value : String} (other : name.toList ≠ key.toList)
    (rest : List Directive) : (entry name value :: rest).filter (fun d => d.1 = key.toList) =
      rest.filter fun d => d.1 = key.toList :=
  List.filter_cons_of_neg (by simp [entry, other])

theorem filter_same (key value : String) (rest : List Directive) :
    (entry key value :: rest).filter (fun d => d.1 = key.toList) =
      entry key value :: rest.filter fun d => d.1 = key.toList :=
  List.filter_cons_of_pos (by simp [entry])

theorem filter_optional {key name value : String} (other : name.toList ≠ key.toList) :
    (optional name value).filter (fun d => d.1 = key.toList) = [] := by
  unfold optional
  split
  · rfl
  · simp [entry, other]

theorem filter_map_entry {α : Type} {key name : String} (xs : List α) (value : α → String) :
    (xs.map fun x => entry name (value x)).filter (fun d => d.1 = key.toList) =
      if name.toList = key.toList then xs.map fun x => entry name (value x) else [] := by
  split
  next same =>
    exact List.filter_eq_self.mpr (by simp [entry, same])
  next other =>
    exact List.filter_eq_nil_iff.mpr (by simp [entry, other])

variable {d : ServiceDescriptor}

theorem serviceValues_eq (read : items (renderUnit d).toList = asked d) (key : String) :
    serviceValues key d =
      ((serviceDirectives d).filter fun directive => directive.1 = key.toList).map
        fun directive => strip directive.2 := by
  have unit : ("Unit".toList : Text) ≠ "Service".toList := by decide
  have install : ("Install".toList : Text) ≠ "Service".toList := by decide
  unfold serviceValues
  rw [read]
  unfold asked
  simp only [valuesOf, valuesOf_directives, Option.some.injEq, unit, install, if_false, if_true,
    List.nil_append]
  simp

theorem execStart_value (read : items (renderUnit d).toList = asked d) :
    serviceValues "ExecStart" d = [strip (" ".intercalate d.execStart).toList] := by
  have other : ∀ name ∈ keys, name ≠ "ExecStart" → name.toList ≠ "ExecStart".toList := by decide
  rw [serviceValues_eq read]
  unfold serviceDirectives
  simp only [List.filter_append, filter_map_entry,
    filter_optional (other "User" (by decide) (by decide)),
    filter_optional (other "Group" (by decide) (by decide)),
    filter_optional (other "WorkingDirectory" (by decide) (by decide)),
    if_neg (other "EnvironmentFile" (by decide) (by decide)),
    if_neg (other "Environment" (by decide) (by decide)),
    filter_other (other "Type" (by decide) (by decide)),
    filter_other (other "Restart" (by decide) (by decide)),
    filter_other (other "RestartSec" (by decide) (by decide)), filter_same]
  rfl

theorem environment_values (read : items (renderUnit d).toList = asked d) :
    serviceValues "Environment" d =
      (sortedEnvironment d).map fun pair => strip (assigned (pair.1.toList, pair.2.toList)) := by
  have other : ∀ name ∈ keys, name ≠ "Environment" → name.toList ≠ "Environment".toList := by decide
  rw [serviceValues_eq read]
  unfold serviceDirectives
  simp only [List.filter_append, filter_map_entry,
    filter_optional (other "User" (by decide) (by decide)),
    filter_optional (other "Group" (by decide) (by decide)),
    filter_optional (other "WorkingDirectory" (by decide) (by decide)),
    if_neg (other "EnvironmentFile" (by decide) (by decide)), if_true,
    filter_other (other "Type" (by decide) (by decide)),
    filter_other (other "ExecStart" (by decide) (by decide)),
    filter_other (other "Restart" (by decide) (by decide)),
    filter_other (other "RestartSec" (by decide) (by decide))]
  simp [entry, assigned]

/-! ## Reading back -/

theorem mem_sortedEnvironment {pair : String × String} :
    pair ∈ sortedEnvironment d ↔ pair ∈ d.environment := List.mem_insertionSort _

/-- The variables as texts. -/
def environmentOf (d : ServiceDescriptor) : List (Text × Text) :=
  (sortedEnvironment d).map fun pair => (pair.1.toList, pair.2.toList)

theorem toList_arguments (d : ServiceDescriptor) :
    (" ".intercalate d.execStart).toList = List.intercalate [' '] (d.execStart.map String.toList) :=
  String.toList_intercalate

/-- The command and the variables of a verbatim descriptor are read back. -/
theorem Verbatim.reads (verbatim : Verbatim d)
    (machine : UnitWords.Machine) : ReadsBack machine d := by
  have read := (items_iff d).mpr verbatim.lines
  obtain ⟨path, head, -⟩ := verbatim.command.executable
  obtain ⟨rest, shape⟩ : ∃ rest, d.execStart.map String.toList = path :: rest := by
    cases argv : d.execStart.map String.toList with
    | nil =>
      rw [argv] at head
      cases head
    | cons first rest =>
      rw [argv] at head
      exact ⟨rest, by rw [Option.some.inj head]⟩
  refine ⟨read, ?_, ?_⟩
  · have tight : Tight (List.intercalate [' '] (d.execStart.map String.toList)) := by
      rw [shape]
      exact tight_join fun word member =>
        (verbatim.command.words word (shape ▸ member)).1.plain
    have nonempty : List.intercalate [' '] (d.execStart.map String.toList) ≠ [] := by
      intro none_
      have length := length_join path rest
      rw [← shape, none_, shape, cost_cons] at length
      have some_ := List.length_pos_iff.mpr
        (verbatim.command.words path (shape ▸ List.mem_cons_self)).1.plain.nonempty
      simp only [List.length_nil] at length
      omega
    rw [execStart_value read, toList_arguments, strip_tight tight,
      collect_of_nonempty _ (by simpa using nonempty)]
    simpa using commands_literal verbatim.command machine
  · have literal : ∀ pair ∈ sortedEnvironment d, LiteralVariable pair.1.toList pair.2.toList :=
      fun pair member => verbatim.environment pair (mem_sortedEnvironment.mp member)
    have values : serviceValues "Environment" d =
        (sortedEnvironment d).map fun pair => assigned (pair.1.toList, pair.2.toList) := by
      rw [environment_values read]
      exact List.map_congr_left fun pair member =>
        strip_tight (tight_plain (literal pair member).plain)
    rw [values, collect_of_nonempty _ fun value member => ?_, List.flatMap_map]
    · have each : ∀ pair ∈ sortedEnvironment d,
          assignments machine (assigned (pair.1.toList, pair.2.toList)) =
            [(pair.1.toList, pair.2.toList)] :=
        fun pair member => assignments_literal (literal pair member) machine
      rw [List.flatMap_congr each, List.map_eq_flatMap]
    · obtain ⟨pair, inside, rfl⟩ := List.mem_map.mp member
      exact (literal pair inside).plain.nonempty

/-- A shell command as services use it. -/
def greeter : ServiceDescriptor :=
  { name := "greeter", execStart := ["/bin/sh", "-c", "echo hello"] }

/-- A user of two lines. -/
def twoLines : ServiceDescriptor :=
  { name := "two", execStart := ["/bin/true"], user := "helix\nExecStartPre=/bin/false" }

def packageOf (d : ServiceDescriptor) : Manifest :=
  { name := "greeter", version := "1.0.0", kind := .goBinary, service := some d }

end HelixKit.Runtime
