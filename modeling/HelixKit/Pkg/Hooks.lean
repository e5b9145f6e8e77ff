/-
Purpose: Which maintainer scripts an installation runs: one for each phase that it comes to, if the
  manifest declares it and the archive has it.
Trusted boundary: none
Main exports: install_runs_hooks_iff
-/
import HelixKit.Pkg.Leftovers
import HelixKit.Pkg.Scripts

namespace HelixKit.Pkg

variable {host : Host}

/-! ## The property -/

/-- The script of the hook is there and exits with an error. -/
def scriptFails (scripts : Scripts) (request : InstallRequest) (hook : String) : Bool :=
  (scripts.read (join request.tempDir hook)).isSome && (request.faults.script hook).isSome

/-- The payload is extracted and the setup command, if there is one, succeeds. -/
def payloadDone (host : Host) (request : InstallRequest) (m : Manifest) (device : Device) : Bool :=
  (extractPayload host request m device).2.isNone &&
    (m.setupCommand = [] || request.faults.setup.isNone)

/-- The phases that an installation of the package comes to. -/
def phases (host : Host) (request : InstallRequest) (m : Manifest) (device : Device) :
    List String :=
  match extractMaintainerScripts request m with
  | (_, some _) => []
  | (scripts, none) =>
    "preconfigure" ::
      if scriptFails scripts request "preconfigure" then []
      else
        "preinst" ::
          if scriptFails scripts request "preinst" || !payloadDone host request m device then []
          else
            "postinst" ::
              if scriptFails scripts request "postinst" then [] else ["postconfigure"]

/-- The script that is declared for a hook: the content of the last regular entry with its name. -/
def declaredScript (m : Manifest) (entries : List TarEntry) (hook : String) : Option Bytes := do
  let path ← (m.maintainerScripts.find? fun script => script.1 = hook).map Prod.snd
  let entry ← entries.reverse.find? fun entry => entry.type = .regular ∧ entry.name = path
  return entry.data

/-- The installation runs the declared script of each phase it comes to exactly once, and the
phases in their order. -/
def RunsHooks (host : Host) (request : InstallRequest) (device : Device) : Prop :=
  ∀ m, checkPackage request device.db = .ok m →
    ∃ runs, (install host request device).1.ran = device.ran ++ runs ∧
      (runs.map ScriptRun.hook).Sublist (phases host request m device) ∧
      ∀ hook ∈ phases host request m device, ∀ script,
        declaredScript m request.archive.entries hook = some script →
          (runs.filter (·.hook = hook)).map ScriptRun.script = [script]

/-! ## What is written to the file of a hook -/

/-- The content of the last entry that the extraction writes to the file of the hook. -/
def writtenScript (dir : String) (m : Manifest) (entries : List TarEntry) (hook : String) :
    Option Bytes :=
  (entries.reverse.find? fun entry =>
    entry.type = .regular ∧ (m.hookOf entry.name).any fun other => join dir other = join dir hook).map
      TarEntry.data

theorem read_extracted {request : InstallRequest} {m : Manifest}
    (done : (extractMaintainerScripts request m).2 = none) (hook : String) :
    (extractMaintainerScripts request m).1.read (join request.tempDir hook) =
      writtenScript request.tempDir m request.archive.entries hook := by
  have same : (fun entry => (scriptWrite request.tempDir m entry).any fun script =>
      decide (script.1 = join request.tempDir hook)) = fun entry =>
      decide (entry.type = .regular ∧ (m.hookOf entry.name).any fun other =>
        join request.tempDir other = join request.tempDir hook) := by
    funext entry
    by_cases regular : entry.type = .regular
    · cases hooked : m.hookOf entry.name <;> simp [scriptWrite, regular, hooked]
    · simp [scriptWrite, regular]
  rw [(extracted_written done).2, Scripts.read, writtenScript, ← List.filterMap_reverse,
    List.find?_filterMap, same]
  cases found : request.archive.entries.reverse.find? fun entry =>
      decide (entry.type = .regular ∧ (m.hookOf entry.name).any fun other =>
        join request.tempDir other = join request.tempDir hook) with
  | none => rfl
  | some entry =>
    have holds := List.find?_some found
    simp only [decide_eq_true_eq] at holds
    obtain ⟨other, hooked⟩ : ∃ other, m.hookOf entry.name = some other := by
      cases hooked : m.hookOf entry.name with
      | none =>
        rw [hooked] at holds
        cases holds.2
      | some other => exact ⟨other, rfl⟩
    simp [scriptWrite, holds.1, hooked]

/-! ## What is run -/

/-- The arguments of the script of a phase. -/
def phaseArgs (prev : Option DBEntry) (hook : String) : List String :=
  if hook = "preinst" then [installAction prev, oldVersion prev]
  else if hook = "postinst" then ["configure", oldVersion prev]
  else []

theorem runScript_passes (package : String) (scripts : Scripts) (request : InstallRequest)
    (hook : String) (args : List String) :
    (runScript package scripts request hook args).2.isNone = !scriptFails scripts request hook := by
  unfold runScript scriptFails
  cases scripts.read (join request.tempDir hook) with
  | none => rfl
  | some script => cases request.faults.script hook <;> rfl

theorem runScripts_passes (package : String) (scripts : Scripts) (request : InstallRequest)
    (first second : String × List String) :
    (runScripts package scripts request first second).2.isNone =
      (!scriptFails scripts request first.1 && !scriptFails scripts request second.1) := by
  rw [← runScript_passes package scripts request first.1 first.2,
    ← runScript_passes package scripts request second.1 second.2]
  unfold runScripts
  rcases runScript package scripts request first.1 first.2 with ⟨ran, _ | failure⟩
  · rfl
  · rfl

theorem unpack_ran (host : Host) (request : InstallRequest) (m : Manifest) (device : Device) :
    (unpack host request m device).2.1 =
      if payloadDone host request m device then
        (runScripts m.name (extractMaintainerScripts request m).1 request
          ("postinst", ["configure", oldVersion (device.db.get m.name)]) ("postconfigure", [])).1
      else [] := by
  unfold unpack payloadDone
  rcases extractPayload host request m device with ⟨x, _ | failure⟩
  · by_cases none : m.setupCommand = []
    · simp [none]
    · cases request.faults.setup <;> simp [none]
  · simp

/-- An installation runs the scripts of the phases that it comes to. -/
theorem install_phases (host : Host) {request : InstallRequest} {m : Manifest} {device : Device}
    (checked : checkPackage request device.db = .ok m) :
    (install host request device).1.ran = device.ran ++
      (phases host request m device).flatMap fun hook =>
        (runScript m.name (extractMaintainerScripts request m).1 request hook
          (phaseArgs (device.db.get m.name) hook)).1 := by
  rw [install_ran checked]
  unfold prepare phases
  dsimp only
  rcases extracted : extractMaintainerScripts request m with ⟨scripts, _ | failure⟩
  · dsimp only
    rw [runScripts_ran, runScripts_passes, runScript_passes, unpack_ran, runScripts_ran,
      runScript_passes, extracted, List.append_assoc]
    cases scriptFails scripts request "preconfigure"
    · cases scriptFails scripts request "preinst"
      · cases payloadDone host request m device
        · simp [phaseArgs]
        · cases scriptFails scripts request "postinst" <;> simp [phaseArgs]
      · simp [phaseArgs]
    · simp [phaseArgs]
  · simp

/-- The runs of one phase among those of all. -/
theorem runs_of_phase {run : String → List ScriptRun} (named : ∀ hook, ∀ r ∈ run hook, r.hook = hook)
    {hooks : List String} (nodup : hooks.Nodup) {hook : String} (member : hook ∈ hooks) :
    (hooks.flatMap run).filter (·.hook = hook) = run hook := by
  have own : (run hook).filter (·.hook = hook) = run hook :=
    List.filter_eq_self.mpr fun r inRun => decide_eq_true (named hook r inRun)
  have others : ∀ hooks : List String, hook ∉ hooks →
      (hooks.flatMap run).filter (·.hook = hook) = [] := by
    intro hooks absent
    rw [List.filter_eq_nil_iff]
    intro r inRuns
    obtain ⟨other, inHooks, inRun⟩ := List.mem_flatMap.mp inRuns
    have apart : r.hook ≠ hook := by
      rw [named other r inRun]
      exact fun same => absent (same ▸ inHooks)
    simpa using apart
  induction hooks with
  | nil => cases member
  | cons first rest ih =>
    rw [List.flatMap_cons, List.filter_append]
    obtain ⟨fresh, nodupRest⟩ := List.nodup_cons.mp nodup
    rcases List.mem_cons.mp member with rfl | later
    · rw [own, others rest fresh, List.append_nil]
    · have apart : hook ∉ [first] := by
        rw [List.mem_singleton]
        exact fun same => fresh (same ▸ later)
      have none := others [first] apart
      rw [List.flatMap_cons, List.flatMap_nil, List.append_nil] at none
      rw [none, ih nodupRest later, List.nil_append]

theorem phases_nodup (host : Host) (request : InstallRequest) (m : Manifest) (device : Device) :
    (phases host request m device).Nodup := by
  have whole : (phases host request m device).Sublist phaseHooks := by
    unfold phases phaseHooks
    split
    · exact List.nil_sublist _
    apply List.Sublist.cons_cons
    split
    · exact List.nil_sublist _
    apply List.Sublist.cons_cons
    split
    · exact List.nil_sublist _
    apply List.Sublist.cons_cons
    split
    · exact List.nil_sublist _
    · exact List.Sublist.refl _
  exact whole.nodup (by decide)

theorem runs_sublist {run : String → List ScriptRun} (hooks : List String)
    (single : ∀ hook ∈ hooks, ((run hook).map ScriptRun.hook).Sublist [hook]) :
    ((hooks.flatMap run).map ScriptRun.hook).Sublist hooks := by
  induction hooks with
  | nil => exact List.nil_sublist _
  | cons hook rest ih =>
    rw [List.flatMap_cons, List.map_append]
    exact (single hook List.mem_cons_self).append
      (ih fun other member => single other (List.mem_cons_of_mem hook member))

theorem runScript_single (package : String) (scripts : Scripts) (request : InstallRequest)
    (hook : String) (args : List String) :
    ((runScript package scripts request hook args).1.map ScriptRun.hook).Sublist [hook] := by
  unfold runScript
  split
  · exact List.nil_sublist _
  · exact List.Sublist.refl _

theorem runScript_script (package : String) (scripts : Scripts) (request : InstallRequest)
    (hook : String) (args : List String) (script : Bytes) :
    (runScript package scripts request hook args).1.map ScriptRun.script = [script] ↔
      scripts.read (join request.tempDir hook) = some script := by
  unfold runScript
  cases scripts.read (join request.tempDir hook) with
  | none => simp
  | some other => simp

/-! ## The phases that keep their script -/

/-- An installation runs every declared script of the phases it comes to, once each and in their
order, exactly where the last entry that is written to the file of the phase brings it. -/
theorem install_runs_hooks_iff (host : Host) (request : InstallRequest) (device : Device) :
    RunsHooks host request device ↔
      ∀ m, checkPackage request device.db = .ok m →
        ∀ hook ∈ phases host request m device, ∀ script,
          declaredScript m request.archive.entries hook = some script →
            writtenScript request.tempDir m request.archive.entries hook = some script := by
  refine forall_congr' fun m => imp_congr_right fun checked => ?_
  have whole := install_phases host checked
  have named : ∀ hook, ∀ r ∈ (runScript m.name (extractMaintainerScripts request m).1 request hook
      (phaseArgs (device.db.get m.name) hook)).1, r.hook = hook := fun hook => runScript_hook
  have nodup := phases_nodup host request m device
  have runOf : ∀ hook ∈ phases host request m device, ∀ script,
      (((phases host request m device).flatMap fun hook =>
        (runScript m.name (extractMaintainerScripts request m).1 request hook
          (phaseArgs (device.db.get m.name) hook)).1).filter (·.hook = hook)).map ScriptRun.script =
            [script] ↔
        writtenScript request.tempDir m request.archive.entries hook = some script := by
    intro hook member script
    have done : (extractMaintainerScripts request m).2 = none := by
      unfold phases at member
      split at member
      · cases member
      next extracted =>
        rw [extracted]
    rw [runs_of_phase named nodup member, runScript_script, read_extracted done]
  constructor
  · rintro ⟨runs, ran, -, each⟩ hook member script declared
    obtain rfl := List.append_cancel_left (whole.symm.trans ran)
    exact (runOf hook member script).mp (each hook member script declared)
  · intro kept
    refine ⟨_, whole, runs_sublist _ fun hook _ => runScript_single .., ?_⟩
    intro hook member script declared
    exact (runOf hook member script).mpr (kept hook member script declared)

/-- A package whose hooks for two phases have one script. -/
def sharedManifest (first second : String) : Manifest :=
  { name := "x"
    version := "1.0.0"
    kind := .asset
    maintainerScripts := [(first, "scripts/run"), (second, "scripts/run")] }

def sharedRequest (first second : String) : InstallRequest where
  archive :=
    { sum := "0"
      control := some (sharedManifest first second)
      entries := [{ name := "scripts/run", data := [0x23] }] }

theorem not_runs_hooks {request : InstallRequest} {m : Manifest} {hook : String}
    (checked : checkPackage request blank.db = .ok m)
    (member : hook ∈ phases testHost request m blank)
    (declared : (declaredScript m request.archive.entries hook).isSome = true)
    (lost : (install testHost request blank).1.ran.filter (·.hook = hook) = []) :
    ¬ RunsHooks testHost request blank := by
  intro runs
  obtain ⟨ran, whole, -, each⟩ := runs m checked
  obtain ⟨script, found⟩ := Option.isSome_iff_exists.mp declared
  have once := each hook member script found
  have start : blank.ran = [] := rfl
  rw [start, List.nil_append] at whole
  rw [← whole, lost] at once
  cases once

/-- Whichever hook Go visits last, the script of the other one is not run. -/
theorem shared_script_lost :
    ¬ RunsHooks testHost (sharedRequest "preinst" "postinst") blank ∧
      ¬ RunsHooks testHost (sharedRequest "postinst" "preinst") blank := by
  constructor
  · exact not_runs_hooks (m := sharedManifest "preinst" "postinst") (by decide)
      (show "preinst" ∈ _ by decide) (by decide) (by decide)
  · exact not_runs_hooks (m := sharedManifest "postinst" "preinst") (by decide)
      (show "postinst" ∈ _ by decide) (by decide) (by decide)

end HelixKit.Pkg
