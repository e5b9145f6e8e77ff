/-
Purpose: What `Install` does with the maintainer scripts of a package: which of them its
  extraction gets to and writes, which it runs, and what it leaves of the disk.
Trusted boundary: none
-/
import HelixKit.Pkg.Operations

namespace HelixKit.Pkg

variable {host : Host}

/-! ## The extraction -/

/-- The hooks whose scripts the archive has, in the order of their entries. -/
def scriptHooks (m : Manifest) (entries : List TarEntry) : List String :=
  entries.filterMap fun entry => if entry.type = .regular then m.hookOf entry.name else none

theorem scriptHooks_cons (m : Manifest) (entry : TarEntry) (rest : List TarEntry) :
    scriptHooks m (entry :: rest) =
      (match if entry.type = .regular then m.hookOf entry.name else none with
        | none => scriptHooks m rest
        | some hook => hook :: scriptHooks m rest) := by
  unfold scriptHooks
  rw [List.filterMap_cons]
  cases if entry.type = .regular then m.hookOf entry.name else none <;> rfl

variable {m : Manifest} {faults : Nat → ScriptFaults}

theorem hookOf_nil (none : m.maintainerScripts = []) (entry : TarEntry) :
    (if entry.type = .regular then m.hookOf entry.name else .none) = .none := by
  simp [Manifest.hookOf, none]

/-- What the extraction writes for an entry. -/
def scriptWrite (dir : String) (m : Manifest) (entry : TarEntry) : Option (String × Bytes) :=
  (if entry.type = .regular then m.hookOf entry.name else none).map
    fun hook => (join dir hook, entry.data)

/-- An extraction that succeeds can write every script, and has written what its entries bring. -/
theorem extractScripts_written {dir : String} (entries : List TarEntry) :
    ∀ (i : Nat) (scripts : Scripts), (extractScriptsFrom dir m faults i entries scripts).2 = none →
      (scriptHooks m entries).all (fun hook => (certainFault dir (join dir hook)).isNone) = true ∧
      (extractScriptsFrom dir m faults i entries scripts).1 =
        scripts ++ entries.filterMap (scriptWrite dir m) := by
  induction entries with
  | nil =>
    intro i scripts _
    simp [extractScriptsFrom, scriptHooks]
  | cons entry rest ih =>
    intro i scripts done
    unfold extractScriptsFrom at done ⊢
    rw [scriptHooks_cons, List.filterMap_cons, scriptWrite]
    cases read : (faults i).read with
    | some cause =>
      rw [read] at done
      cases done
    | none =>
      rw [read] at done
      dsimp only at done ⊢
      cases hooked : (if entry.type = .regular then m.hookOf entry.name else none) with
      | none =>
        rw [hooked] at done
        exact ih (i + 1) scripts done
      | some hook =>
        rw [hooked] at done
        dsimp only at done ⊢
        split at done
        · cases done
        · cases done
        · cases done
        next writable written =>
          obtain ⟨all, more⟩ := ih (i + 1) _ done
          refine ⟨by rw [List.all_cons, writable, all]; rfl, ?_⟩
          rw [Option.map_some]
          dsimp only
          rw [more, List.append_assoc]
          rfl

theorem extractScripts_keeps {dir : String} (entries : List TarEntry) :
    ∀ (i : Nat) (scripts : Scripts), ∀ script ∈ scripts,
      script ∈ (extractScriptsFrom dir m faults i entries scripts).1 := by
  induction entries with
  | nil => exact fun _ _ _ member => member
  | cons entry rest ih =>
    intro i scripts script member
    unfold extractScriptsFrom
    split
    · exact member
    split
    · exact ih (i + 1) scripts script member
    split
    · exact member
    · exact member
    · exact List.mem_append_left _ member
    · exact ih (i + 1) _ script (List.mem_append_left _ member)

theorem extractScripts_done {dir : String} (entries : List TarEntry) :
    ∀ (i : Nat) (scripts : Scripts),
      (scriptHooks m entries).all (fun hook => (certainFault dir (join dir hook)).isNone) = true →
      (extractScriptsFrom dir m (fun _ => {}) i entries scripts).2 = none := by
  induction entries with
  | nil => exact fun _ _ _ => rfl
  | cons entry rest ih =>
    intro i scripts writable
    rw [scriptHooks_cons] at writable
    unfold extractScriptsFrom
    dsimp only
    cases hooked : (if entry.type = .regular then m.hookOf entry.name else none) with
    | none =>
      rw [hooked] at writable
      exact ih (i + 1) scripts writable
    | some hook =>
      rw [hooked] at writable
      dsimp only at writable ⊢
      rw [List.all_cons, Bool.and_eq_true] at writable
      rw [Option.isNone_iff_eq_none.mp writable.1]
      exact ih (i + 1) _ writable.2

variable {device : Device}

theorem prepared_extracted {request : InstallRequest}
    (prepared : (prepare request m device).2 = none) :
    (extractMaintainerScripts request m).2 = none := by
  unfold prepare at prepared
  dsimp only at prepared
  split at prepared
  · cases prepared
  next extracted =>
    rw [extracted]

theorem extracted_written {request : InstallRequest}
    (done : (extractMaintainerScripts request m).2 = none) :
    (scriptHooks m request.archive.entries).all
      (fun hook => (certainFault request.tempDir (join request.tempDir hook)).isNone) = true ∧
    (extractMaintainerScripts request m).1 =
      request.archive.entries.filterMap (scriptWrite request.tempDir m) := by
  unfold extractMaintainerScripts at done ⊢
  split
  next nothing => simp [scriptHooks, scriptWrite, hookOf_nil nothing]
  next some_ =>
    rw [if_neg some_] at done
    exact extractScripts_written _ 0 [] done

/-! ## The runs of the scripts -/

def phaseHooks : List String := ["preconfigure", "preinst", "postinst", "postconfigure"]

variable {package : String} {scripts : Scripts}

theorem runScript_hook {request : InstallRequest} {hook : String} {args : List String} :
    ∀ run ∈ (runScript package scripts request hook args).1, run.hook = hook := by
  intro run member
  unfold runScript at member
  split at member
  · cases member
  · rw [List.mem_singleton.mp member]

theorem runScripts_ran (package : String) (scripts : Scripts) (request : InstallRequest)
    (first second : String × List String) :
    (runScripts package scripts request first second).1 =
      (runScript package scripts request first.1 first.2).1 ++
        if (runScript package scripts request first.1 first.2).2.isNone then
          (runScript package scripts request second.1 second.2).1
        else [] := by
  unfold runScripts
  rcases runScript package scripts request first.1 first.2 with ⟨ran, _ | failure⟩
  · rfl
  · simp

theorem runScripts_hook {request : InstallRequest} {first second : String × List String} :
    ∀ run ∈ (runScripts package scripts request first second).1,
      run.hook = first.1 ∨ run.hook = second.1 := by
  intro run member
  rw [runScripts_ran] at member
  rcases List.mem_append.mp member with earlier | later
  · exact .inl (runScript_hook run earlier)
  · split at later
    · exact .inr (runScript_hook run later)
    · cases later

theorem prepare_hook {request : InstallRequest} :
    ∀ run ∈ (prepare request m device).1, run.hook ∈ phaseHooks := by
  intro run member
  unfold prepare at member
  dsimp only at member
  split at member
  · cases member
  · rcases runScripts_hook run member with named | named <;> simp [phaseHooks, named]

theorem unpack_hook {request : InstallRequest} :
    ∀ run ∈ (unpack host request m device).2.1, run.hook ∈ phaseHooks := by
  intro run member
  unfold unpack at member
  split at member
  · cases member
  split at member
  · cases member
  · rcases runScripts_hook run member with named | named <;> simp [phaseHooks, named]

/-- The scripts that an installation runs: those before the payload, and if they succeed those
after it. -/
theorem install_ran {request : InstallRequest} (checked : checkPackage request device.db = .ok m) :
    (install host request device).1.ran =
      device.ran ++ (prepare request m device).1 ++
        if (prepare request m device).2.isNone then (unpack host request m device).2.1 else [] := by
  unfold install
  rw [checked]
  dsimp only [installChecked]
  rcases prepare request m device with ⟨ran, _ | failure⟩
  · rcases unpack host request m device with ⟨x, more, _ | failure⟩
    · dsimp only [publish]
      split
      · rfl
      · split <;> rfl
    · dsimp only [saveDB]
      split <;> rfl
  · simp

/-- The hooks that an installation runs are those of its four phases. -/
theorem install_hooks (host : Host) (request : InstallRequest) (device : Device) :
    ∀ run ∈ (install host request device).1.ran, run ∈ device.ran ∨ run.hook ∈ phaseHooks := by
  intro run member
  cases checked : checkPackage request device.db with
  | error failure =>
    rw [install, checked] at member
    exact .inl member
  | ok m =>
    rw [install_ran checked] at member
    rcases List.mem_append.mp member with earlier | later
    · rcases List.mem_append.mp earlier with old | new
      · exact .inl old
      · exact .inr (prepare_hook run new)
    · split at later
      · exact .inr (unpack_hook run later)
      · cases later

/-- The disk that an installation leaves is the one that the extraction of the payload leaves. -/
theorem install_disk {request : InstallRequest} (begun : Begins request device m) :
    (install host request device).1.disk = (extractPayload host request m device).1.disk := by
  rw [← unpack_extraction host request m device]
  have prepared := begun.prepared
  unfold install
  rw [begun.checked]
  dsimp only [installChecked]
  revert prepared
  rcases prepare request m device with ⟨ran, _ | failure⟩
  · intro _
    rcases unpack host request m device with ⟨x, more, _ | failure⟩
    · dsimp only [publish]
      split
      · rfl
      · split <;> rfl
    · dsimp only [saveDB]
      split <;> rfl
  · intro prepared
    cases prepared

theorem refused_disk {request : InstallRequest} (refused : ∀ m, ¬ Begins request device m) :
    (install host request device).1.disk = device.disk := by
  unfold install
  cases checked : checkPackage request device.db with
  | error failure => rfl
  | ok m =>
    dsimp only [installChecked]
    rcases prepared : prepare request m device with ⟨ran, _ | failure⟩
    · exact absurd ⟨checked, by rw [prepared]⟩ (refused m)
    · rfl

theorem runScript_clean {request : InstallRequest}
    {hook : String} {args : List String} (passes : request.faults.script hook = none) :
    (runScript package scripts request hook args).2 = none := by
  unfold runScript
  split
  · rfl
  · simp [passes]

theorem runScripts_clean {request : InstallRequest}
    {first second : String × List String} (passes : request.faults.script = fun _ => none) :
    (runScripts package scripts request first second).2 = none := by
  have one : (runScript package scripts request first.1 first.2).2 = none :=
    runScript_clean (congrFun passes first.1)
  have two : (runScript package scripts request second.1 second.2).2 = none :=
    runScript_clean (congrFun passes second.1)
  unfold runScripts
  split
  next ran failure failed =>
    rw [failed] at one
    cases one
  · exact two

end HelixKit.Pkg
