/-
Purpose: The constraints of installed packages over whole runs: they are checked when the package is
  installed and at no other time.
Trusted boundary: none
Main exports: installed_depends
-/
import HelixKit.Pkg.Ownership
import Mathlib.Data.List.Induction

namespace HelixKit.Pkg

open HelixKit.Runs

variable {host : Host}

/-! ### The check -/

/-- An empty list of unmet constraints means that every one is met. -/
theorem unmetDepends_nil {db : DB} {specs : List String} (ok : unmetDepends db specs = .ok [])
    {spec : String} (member : spec ∈ specs) :
    ∃ d, parseDependency spec = .ok d ∧ db.meets d = true := by
  induction specs with
  | nil => cases member
  | cons first rest ih =>
    unfold unmetDepends at ok
    cases parsed : parseDependency first with
    | error failure => simp [parsed] at ok
    | ok d =>
      cases later : unmetDepends db rest with
      | error failure => simp [parsed, later] at ok
      | ok unmet =>
        simp only [parsed, later, Except.ok.injEq] at ok
        split at ok
        · next met =>
          subst ok
          rcases List.mem_cons.1 member with rfl | inRest
          · exact ⟨d, parsed, met⟩
          · exact ih later inRest
        · cases ok

/-- A package whose checks pass has all its constraints met. -/
theorem checkPackage_depends {request : InstallRequest} {db : DB} {m : Manifest}
    (checked : checkPackage request db = .ok m) {spec : String} (member : spec ∈ m.depends) :
    ∃ d, parseDependency spec = .ok d ∧ db.meets d = true := by
  have met : checkDepends m db = .ok [] := by
    unfold checkPackage at checked
    split at checked
    · cases checked
    split at checked
    · cases checked
    split at checked
    · cases checked
    split at checked
    · cases checked
    split at checked
    · cases checked
    split at checked
    · cases checked
    next unmet depends =>
      split at checked
      · cases checked
      next none =>
        split at checked
        · cases checked
        · cases checked
          rw [depends, not_not.1 none]
  exact unmetDepends_nil met member

/-! ### The operations that change an entry -/

/-- The operation is on the package, and changes its entry. -/
def Changes (host : Host) (device : Device) (op : Op) (name : String) : Prop :=
  op.concerns device name ∧ (step host device op).db.get name ≠ device.db.get name

/-- Some operation of the run changes the entry of the package. -/
def ChangedDuring (host : Host) (name : String) : Device → List Op → Prop
  | _, [] => False
  | device, op :: rest =>
    Changes host device op name ∨ ChangedDuring host name (step host device op) rest

variable {device : Device}

/-- What an operation can make of an entry. -/
theorem entry_step (host : Host) (keyed : Keyed device.db) (op : Op) (name : String) :
    (step host device op).db.get name = device.db.get name ∨
      op.concerns device name ∧
        ∀ e, (step host device op).db.get name = some e → e.status = .installed →
          ∃ request m, op = .install request ∧ Begins request device m ∧
            e = configured request m (extractPayload host request m device).1 := by
  unfold HelixKit.Pkg.step
  cases op with
  | install request =>
    obtain ⟨after, failure, performed, effect⟩ := perform_install host request device
    rw [performed]
    cases effect with
    | refused | unsaved => exact Or.inl rfl
    | @half m _ _ begun =>
      by_cases own : name = m.name
      · subst own
        right
        refine ⟨⟨m, begun, rfl⟩, ?_⟩
        intro e found installed
        have half := Option.some.inj (found.symm.trans (DB.get_put_self device.db _))
        subst half
        cases installed
      · exact Or.inl (DB.get_put_ne _ _ own)
    | @uncatalogued m _ _ begun | @done m _ begun =>
      by_cases own : name = m.name
      · subst own
        right
        refine ⟨⟨m, begun, rfl⟩, ?_⟩
        intro e found installed
        exact ⟨request, m, rfl, begun,
          Option.some.inj (found.symm.trans (DB.get_put_self device.db _))⟩
      · exact Or.inl (DB.get_put_ne _ _ own)
  | remove request =>
    obtain ⟨after, failure, performed, effect⟩ := perform_remove host request device
    rw [performed]
    have others : ∀ entry, device.db.get request.name = some entry →
        (removed device.db entry request.name request.purge).get name = device.db.get name ∨
          request.name = name ∧ ∀ e,
            (removed device.db entry request.name request.purge).get name = some e →
              e.status ≠ .installed := by
      intro entry present
      by_cases own : request.name = name
      · subst own
        right
        refine ⟨rfl, ?_⟩
        intro e found installed
        rw [← keyed _ _ present] at found
        unfold removed at found
        split at found
        · simp at found
        · rw [DB.get_put_self (e := { entry with status := .configFiles, files := [] })] at found
          cases found
          cases installed
      · exact Or.inl (removed_get_ne (keyed _ _ present) (Ne.symm own))
    cases effect with
    | refused | unsaved => exact Or.inl rfl
    | uncatalogued present | done present =>
      rcases others _ present with same | ⟨own, notInstalled⟩
      · exact Or.inl same
      · exact Or.inr ⟨own, fun e found installed => absurd installed (notInstalled e found)⟩
  | edit path file => exact Or.inl rfl

/-- An entry that no operation changes stays. -/
theorem get_of_not_changed {name : String} {ops : List Op}
    (keyed : Keyed device.db) (unchanged : ¬ ChangedDuring host name device ops) :
    (run (step host) device ops).db.get name = device.db.get name := by
  induction ops generalizing device with
  | nil => rfl
  | cons op rest ih =>
    rw [run_cons, ih (keyed.step op) fun later => unchanged (Or.inr later)]
    rcases entry_step host keyed op name with same | ⟨concerns, -⟩
    · exact same
    · by_contra differs
      exact unchanged (Or.inl ⟨concerns, differs⟩)

/-! ### Installed packages -/

/-- The entry is from an installation in the run: one with this manifest, after
the operations `earlier` and before the operations `later`. -/
structure Installation (host : Host) (device : Device) (ops : List Op) (e : DBEntry)
    (earlier : List Op) (request : InstallRequest) (later : List Op) (m : Manifest) : Prop where
  split : ops = earlier ++ .install request :: later
  begun : Begins request (run (step host) device earlier) m
  entry : e = configured request m (extractPayload host request m (run (step host) device earlier)).1

theorem keyed_run (keyed : Keyed device.db) (ops : List Op) :
    Keyed (run (step host) device ops).db := by
  induction ops generalizing device with
  | nil => exact keyed
  | cons op rest ih => exact ih (keyed.step op)

/-- Every installed package comes from an installation in the run. -/
theorem installed_installation (keyed : Keyed device.db)
    (empty : ∀ name, device.db.get name = none) (ops : List Op) {name : String} {e : DBEntry}
    (found : (run (step host) device ops).db.get name = some e) (installed : e.status = .installed) :
    ∃ earlier request later m, Installation host device ops e earlier request later m := by
  induction ops using List.reverseRecOn with
  | nil => simp [empty] at found
  | append_singleton before op ih =>
    rw [run_append] at found
    rcases entry_step host (keyed_run keyed before) op name with same | ⟨-, installs⟩
    · obtain ⟨earlier, request, later, m, installation⟩ := ih (same.symm.trans found)
      refine ⟨earlier, request, later ++ [op], m, ?_, installation.begun, installation.entry⟩
      rw [installation.split, List.append_assoc, List.cons_append]
    · obtain ⟨request, m, rfl, begun, entry⟩ := installs e found installed
      exact ⟨before, request, [], m, rfl, begun, entry⟩

/-- The constraints of every installed package were met by installed versions
when it was installed, and each still is unless an operation on the package it
names, from that installation on, has changed that package's entry. -/
theorem installed_depends (host : Host) (files : String → Option File) (ops : List Op) (name : String)
    (e : DBEntry) (found : (run (step host) (Device.start files) ops).db.get name = some e)
    (installed : e.status = .installed) :
    ∃ earlier request later m,
      Installation host (Device.start files) ops e earlier request later m ∧
        ∀ spec ∈ m.depends, ∃ d, parseDependency spec = .ok d ∧
          (run (step host) (Device.start files) earlier).db.meets d = true ∧
          ((run (step host) (Device.start files) ops).db.meets d = true ∨
            ChangedDuring host d.name (run (step host) (Device.start files) earlier)
              (.install request :: later)) := by
  have empty : ∀ other, (Device.start files).db.get other = none := fun _ => rfl
  have keyed : Keyed (Device.start files).db := fun _ _ found => by cases found
  obtain ⟨earlier, request, later, m, installation⟩ :=
    installed_installation keyed empty ops found installed
  refine ⟨earlier, request, later, m, installation, ?_⟩
  intro spec member
  obtain ⟨d, parsed, met⟩ := checkPackage_depends installation.begun.checked member
  refine ⟨d, parsed, met, ?_⟩
  by_cases changed : ChangedDuring host d.name (run (step host) (Device.start files) earlier)
      (.install request :: later)
  · exact Or.inr changed
  · left
    have same := get_of_not_changed (keyed_run keyed earlier) changed
    rw [← run_append, ← installation.split] at same
    unfold DB.meets
    rw [same]
    exact met

/-! ### A removal of what another package needs -/

def baseArchive : Archive :=
  { sum := "9f86d081884c7d659a2feaa0c55ad015a3bf4f1b2b0b822cd15d6c15b0f00a08"
    control := some { name := "base", version := "1.0", kind := .asset }
    entries := [{ name := "payload/opt/base", data := ascii "hi" }] }

def appArchive : Archive :=
  { sum := "60303ae22b998861bce3b28f33eec1be758a213c86c93c076dbe9f558c11c752"
    control := some { name := "app", version := "1.0", kind := .asset, depends := ["base (>= 1.0)"] }
    entries := [{ name := "payload/opt/app", data := ascii "hi" }] }

/-- The operations that install `base` and then `app`. -/
def baseThenApp : List Op := [.install { archive := baseArchive }, .install { archive := appArchive }]

theorem installed_depends_app :
    ∃ e earlier request later m,
      Installation testHost blank baseThenApp e earlier request later m ∧
        ∀ spec ∈ m.depends, ∃ d, parseDependency spec = .ok d ∧
          (run (step testHost) blank earlier).db.meets d = true ∧
          ((run (step testHost) blank baseThenApp).db.meets d = true ∨
            ChangedDuring testHost d.name (run (step testHost) blank earlier)
              (.install request :: later)) := by
  have present : ((run (step testHost) blank baseThenApp).db.get "app").any
      (·.status = .installed) = true := by decide
  obtain ⟨e, found, installed⟩ := (Option.any_eq_true _ _).1 present
  exact ⟨e, installed_depends testHost _ _ "app" e found (of_decide_eq_true installed)⟩

/-- Removing `base` succeeds and leaves `app` installed without it. -/
theorem remove_breaks_depends :
    let installed := run (step testHost) blank baseThenApp
    let device := (remove testHost { name := "base", purge := true } installed).1
    (remove testHost { name := "base", purge := true } installed).2 = none ∧
      (device.db.get "app").map (·.status) = some .installed ∧
      parseDependency "base (>= 1.0)" =
        .ok { name := "base", op := some .ge, version := [1, 0], raw := "base (>= 1.0)" } ∧
      device.db.meets { name := "base", op := some .ge, version := [1, 0], raw := "base (>= 1.0)" } =
        false := by
  decide

end HelixKit.Pkg
