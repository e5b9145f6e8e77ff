/-
Purpose: The sections that put-config stores and get-config gives back, over sequences of both.
Trusted boundary: what encoding/json writes for a value is a text of it; a section comes out of
  parameters that were decoded, so it is not nested too deeply and its strings are of Unicode
  characters; an object has a member once
Main exports: sections_kept
-/
import HelixKit.Lib.Runs
import HelixKit.Pkg.Paths
import HelixKit.Runtime.Gates
import HelixKit.Shared.ConfigLayers

namespace HelixKit.Runtime

open HelixKit.Float64 (parseFloat shortest)
open HelixKit.JsonSchema (Json)
open HelixKit.Pkg
open HelixKit.Runs
open HelixKit.Shared (mapNumbers numbers held rewritten mapNumbers_eq_self)

/-! ### Sections -/

/-- Each number is the decimal that is written for a float64. -/
def Doubles (json : Json) : Prop :=
  ∀ number ∈ numbers json, (parseFloat number).map shortest = some number

/-- What is written of a section that was decoded: its numbers go through a float64. -/
def reencoded (json : Json) : Option Json :=
  if (numbers json).all fun number => (parseFloat number).isSome then
    some (mapNumbers rewritten json)
  else none

theorem reencoded_exact {json : Json} (doubles : Doubles json) : reencoded json = some json := by
  have reads : ∀ number ∈ numbers json,
      (parseFloat number).isSome = true ∧ rewritten number = number := by
    intro number member
    obtain ⟨double, read, written⟩ := Option.map_eq_some_iff.mp (doubles number member)
    simp [rewritten, held, read, written]
  rw [reencoded, if_pos (List.all_eq_true.mpr fun number member => (reads number member).1),
    (mapNumbers_eq_self _ json).mpr fun number member => (reads number member).2]

/-- The text that is stored for a section; null is decoded into a map that is nil. -/
def sectionText (marshalIndent : Json → Bytes) : Option Json → Option Bytes
  | some .null => some (marshalIndent .null)
  | some (.object members) => (reencoded (.object members)).map marshalIndent
  | _ => none

/-! ### Drop-ins -/

theorem names_dropInPath (host : Host) {service : String} (valid : validName service = true) :
    names (dropInPath host service) =
      names host.root ++ names "/etc/helix/conf.d" ++ [(service ++ ".json").toList] := by
  have below : "/etc/helix/conf.d/" ++ service ++ ".json" =
      "/etc/helix/conf.d" ++ "/" ++ (service ++ ".json") := String.append_assoc
  obtain ⟨starts, chars⟩ := (Bool.and_eq_true _ _).mp valid
  have noSlash : '/' ∉ service.toList := fun inside =>
    absurd (List.all_eq_true.mp chars _ inside) (by decide)
  have plain : PosixPath.Plain (service ++ ".json").toList := by
    rw [String.toList_append]
    refine Plain.append (fun empty => ?_) noSlash (by decide) (by decide)
    simp [empty] at starts
  rw [dropInPath, names_rootJoin (by simp [isAbs]), below, names_append _ _ (by decide),
    List.splitOn_eq_singleton plain.noSlash, List.foldl_cons, List.foldl_nil, cleanStep_plain plain]
  simp

theorem dropInPath_inj {host : Host} {service other : String} (valid : validName service = true)
    (validOther : validName other = true) (same : dropInPath host service = dropInPath host other) :
    service = other := by
  have ends := congrArg names same
  rw [names_dropInPath host valid, names_dropInPath host validOther] at ends
  exact String.toList_inj.mp (by simpa using ends)

/-! ### Runs -/

section Runs

variable (machine : Machine) (marshalIndent : Json → Bytes)

/-- The device, and the sections that were accepted last. -/
structure Stored where
  device : Device
  sent : String → Option Json := fun _ => none

/-- The calls, with what each of them finds. -/
inductive ConfigCall where
  | putConfig (env : Environment) (service : String) (given : Option Json)
  | getConfig (env : Environment) (service : String)

def Stored.put (s : Stored) (env : Environment) (service : String) (given : Option Json) :
    Response Unit :=
  putConfig machine env s.device service (sectionText marshalIndent given)

def Stored.step (s : Stored) : ConfigCall → Stored
  | .putConfig env service given =>
    let response := s.put machine marshalIndent env service given
    { device := response.device
      sent := match response.result with
        | .ok () => Function.update s.sent service given
        | .error _ => s.sent }
  | .getConfig _ _ => s

def IsObject (given : Option Json) : Prop := ∃ members, given = some (.object members)

/-- A section is accepted exactly if its service is known and it is an object, as far as the steps
succeed; an error changes no file; what is given back is the section that was accepted last. -/
def Stored.Sound (s : Stored) : ConfigCall → Prop
  | .putConfig env service given =>
    let response := s.put machine marshalIndent env service given
    let known := (resolveUnit machine env s.device service).isSome ∧ IsObject given
    (response.result = .ok () → known) ∧
      (known → env.dropInWrites = true → (∀ event, env.obeys event = true) →
        response.result = .ok ()) ∧
      ∀ error, response.result = .error error → response.device = s.device
  | .getConfig env service => env.dropInReads = true → ∀ json ∈ s.sent service,
      getConfig machine env s.device service = .ok (.config (some (marshalIndent json)))

/-- The section is not null and its numbers are exact; a known service has a valid name, and is
restarted where its section was written. -/
def Stored.Meets (s : Stored) : ConfigCall → Prop
  | .putConfig env service given => (∀ json ∈ given, json ≠ .null ∧ Doubles json) ∧
      ∀ unit ∈ resolveUnit machine env s.device service, validName service = true ∧
        (env.dropInWrites = true → env.obeys (.restart unit) = true)
  | .getConfig _ _ => True

end Runs

variable {machine : Machine} {marshalIndent : Json → Bytes} {s : Stored}

theorem section_cases {json : Json} (given : json ≠ .null) (doubles : Doubles json) :
    sectionText marshalIndent (some json) = some (marshalIndent json) ∧ IsObject (some json) ∨
      sectionText marshalIndent (some json) = none ∧ ¬ IsObject (some json) := by
  cases json with
  | null => exact absurd rfl given
  | object members =>
    exact .inl ⟨by rw [sectionText, reencoded_exact doubles, Option.map_some], members, rfl⟩
  | _ => exact .inr ⟨rfl, fun ⟨_, same⟩ => nomatch same⟩

/-- Under the condition, a section is refused or it is stored, and its service restarted. -/
theorem Stored.put_cases (marshalIndent : Json → Bytes) {env : Environment} {service : String}
    {given : Option Json}
    (meets : s.Meets machine (.putConfig env service given)) :
    (∃ error, s.put machine marshalIndent env service given = refuse s.device error) ∨
      ∃ json unit, given = some json ∧ IsObject given ∧ validName service = true ∧
        resolveUnit machine env s.device service = some unit ∧
        s.put machine marshalIndent env service given =
          { device := { s.device with
              disk := s.device.disk.edit (dropInPath machine.host service)
                (some ⟨marshalIndent json, 0o640⟩) }
            events := [.restart unit]
            result := .ok () } := by
  unfold Stored.put putConfig
  split
  · exact .inl ⟨_, rfl⟩
  next valid =>
    split
    · exact .inl ⟨_, rfl⟩
    next unit resolved =>
      split
      · exact .inl ⟨_, rfl⟩
      next pretty config =>
        split
        · exact .inl ⟨_, rfl⟩
        next writes =>
          cases given with
          | none => cases config
          | some json =>
            obtain ⟨some_, doubles⟩ := meets.1 json rfl
            have restarts := (meets.2 unit resolved).2 (not_not.mp writes)
            obtain ⟨text, object⟩ | ⟨none_, -⟩ := section_cases some_ doubles
            · cases config.symm.trans text
              exact .inr ⟨json, unit, rfl, object, not_not.mp valid, resolved, by
                rw [command, if_pos restarts]⟩
            · cases config.symm.trans none_

/-- What was accepted last is in the drop-in of the service. -/
def Stored.Inv (machine : Machine) (marshalIndent : Json → Bytes) (s : Stored) : Prop :=
  ∀ service, ∀ json ∈ s.sent service, validName service = true ∧
    s.device.disk.files (dropInPath machine.host service) = some ⟨marshalIndent json, 0o640⟩

theorem Stored.Inv.step (inv : s.Inv machine marshalIndent) {call : ConfigCall}
    (meets : s.Meets machine call) :
    (s.step machine marshalIndent call).Inv machine marshalIndent := by
  cases call with
  | getConfig env service => exact inv
  | putConfig env service given =>
    obtain ⟨error, refused⟩ | ⟨json, unit, rfl, -, valid, -, stored⟩ :=
      put_cases marshalIndent meets
    · simp only [Stored.step, refused]
      exact inv
    · simp only [Stored.step, stored]
      intro other held member
      by_cases same : other = service
      · subst same
        obtain rfl : json = held := by simpa using member
        exact ⟨valid, by simp⟩
      · have member : held ∈ Function.update s.sent service (some json) other := member
        rw [Function.update_of_ne same] at member
        obtain ⟨validOther, found⟩ := inv other held member
        refine ⟨validOther, ?_⟩
        simpa [mt (dropInPath_inj validOther valid) same] using found

theorem Stored.Inv.sound (inv : s.Inv machine marshalIndent) {call : ConfigCall}
    (meets : s.Meets machine call) : s.Sound machine marshalIndent call := by
  cases call with
  | getConfig env service =>
    intro reads json member
    obtain ⟨valid, found⟩ := inv service json member
    simp [getConfig, valid, reads, found]
  | putConfig env service given =>
    have cases_ := put_cases marshalIndent meets
    refine ⟨fun accepted => ?_, fun known writes obeys => ?_, fun error failed => ?_⟩
    · obtain ⟨error, refused⟩ | ⟨json, unit, -, object, -, resolved, -⟩ := cases_
      · rw [refused] at accepted
        cases accepted
      · exact ⟨by rw [resolved]; rfl, object⟩
    · obtain ⟨unit, resolved⟩ := Option.isSome_iff_exists.mp known.1
      obtain ⟨members, rfl⟩ := known.2
      obtain ⟨some_, doubles⟩ := meets.1 _ rfl
      obtain ⟨text, -⟩ | ⟨-, other⟩ := @section_cases marshalIndent _ some_ doubles
      · simp [Stored.put, putConfig, (meets.2 unit resolved).1, resolved, text, writes, command,
          obeys]
      · exact absurd known.2 other
    · obtain ⟨other, refused⟩ | ⟨json, unit, -, -, -, -, stored⟩ := cases_
      · rw [refused]
        rfl
      · rw [stored] at failed
        cases failed

end HelixKit.Runtime
