/-
Purpose: The relay of enrollments in the cloud's memory: what a device asks for, until
  its owner's browser has approved it and seen the credential once.
Trusted boundary: none
-/
import HelixKit.Backend.JsText
import Mathlib.Data.List.AList

namespace HelixKit.Backend.EnrollmentRelay

open HelixKit.Backend.JsText

inductive EnrollmentStatus where
  | pending
  | approved
  | revealed
  | denied
  | expired
deriving Repr, DecidableEq

structure EnrollmentRequest where
  deviceId : String
  username : String
  linuxUid : Nat
  credentialId : String
  credential : String
  durationHours : Int
deriving Repr, DecidableEq

structure EnrollmentState where
  id : String
  userCode : String
  status : EnrollmentStatus
  userId : Option String
  approvedDurationHours : Option Int
deriving Repr, DecidableEq

structure EnrollmentSummary where
  deviceId : String
  username : String
  durationHours : Int
  status : EnrollmentStatus
deriving Repr, DecidableEq

/-- An enrollment; `object` tells it from all others that the relay ever created. -/
structure Enrollment where
  object : Nat
  id : String
  userCode : String
  request : EnrollmentRequest
  status : EnrollmentStatus
  userId : Option String
  approvedDurationHours : Option Int
  credential : Option String
  expiresAt : Int
deriving Repr, DecidableEq

def Enrollment.state (enrollment : Enrollment) : EnrollmentState where
  id := enrollment.id
  userCode := enrollment.userCode
  status := enrollment.status
  userId := enrollment.userId
  approvedDurationHours := enrollment.approvedDurationHours

def randomCode (bytes : List UInt8) : String :=
  .ofList (bytes.map fun byte => codeAlphabet.getD (byte.toNat % codeAlphabet.length) 'A')

def hex (bytes : List UInt8) : String :=
  .ofList (bytes.flatMap fun byte =>
    [byte.toNat / 16, byte.toNat % 16].map fun digit => "0123456789abcdef".toList.getD digit '0')

/-- The two maps, and the number of enrollments that were ever created. -/
structure Relay where
  byId : AList fun _ : String => Enrollment := ∅
  byUserCode : AList fun _ : String => String := ∅
  created : Nat := 0

namespace Relay

/-- Is the enrollment past its window? -/
def expired (now : Int) (enrollment : Enrollment) : Bool :=
  decide (enrollment.expiresAt ≤ now)

/-- Removes what is past its window from both maps. -/
def sweep (relay : Relay) (now : Int) : Relay where
  byId :=
    ⟨relay.byId.entries.filter fun entry => !expired now entry.2,
      relay.byId.nodupKeys.sublist List.filter_sublist⟩
  byUserCode :=
    ((relay.byId.entries.filter fun entry => expired now entry.2).map
      fun entry => entry.2.userCode).foldl (fun codes code => codes.erase code) relay.byUserCode
  created := relay.created

def find (relay : Relay) (now : Int) (userCode : String) : Relay × Option Enrollment :=
  let relay := relay.sweep now
  (relay, (relay.byUserCode.lookup (toUpperCase (trim userCode))).bind relay.byId.lookup)

/-- Stores a changed enrollment; the objects are only in `byId`, under their ids. -/
def put (relay : Relay) (enrollment : Enrollment) : Relay :=
  { relay with byId := relay.byId.insert enrollment.id enrollment }

/-- `swept` and `made` are the clock readings of the sweep and of the new enrollment. -/
def create (relay : Relay) (ttlMs swept made : Int) (idBytes codeBytes : List UInt8)
    (request : EnrollmentRequest) : Relay × EnrollmentState :=
  let relay := relay.sweep swept
  let enrollment : Enrollment :=
    { object := relay.created
      id := hex idBytes
      userCode := randomCode codeBytes
      request
      status := .pending
      userId := none
      approvedDurationHours := none
      credential := some request.credential
      expiresAt := made + ttlMs }
  ({ byId := relay.byId.insert enrollment.id enrollment
     byUserCode := relay.byUserCode.insert enrollment.userCode enrollment.id
     created := relay.created + 1 },
    enrollment.state)

def summary (relay : Relay) (now : Int) (userCode : String) :
    Relay × Option EnrollmentSummary :=
  let (relay, found) := relay.find now userCode
  (relay, found.map fun enrollment =>
    { deviceId := enrollment.request.deviceId
      username := enrollment.request.username
      durationHours := enrollment.request.durationHours
      status := enrollment.status })

def approve (relay : Relay) (now : Int) (userCode userId : String)
    (approvedDurationHours : Int) : Relay × Option EnrollmentState :=
  let (relay, found) := relay.find now userCode
  match found with
  | none => (relay, none)
  | some enrollment =>
    if enrollment.status ≠ .pending then (relay, none)
    else
      let approved :=
        { enrollment with
          status := .approved
          userId := some userId
          approvedDurationHours := some approvedDurationHours }
      (relay.put approved, some approved.state)

def deny (relay : Relay) (now : Int) (userCode : String) : Relay × Bool :=
  let (relay, found) := relay.find now userCode
  match found with
  | none => (relay, false)
  | some enrollment =>
    if enrollment.status ≠ .pending then (relay, false)
    else
      (relay.put
        { enrollment with
          status := .denied
          credential := none }, true)

end Relay

inductive RevealError where
  | notAvailable
  | alreadyRevealed
  | notApproved
deriving Repr, DecidableEq

namespace Relay

def reveal (relay : Relay) (now : Int) (userCode userId : String) :
    Relay × Except RevealError String :=
  let (relay, found) := relay.find now userCode
  match found with
  | none => (relay, .error .notAvailable)
  | some enrollment =>
    if enrollment.userId ≠ some userId then (relay, .error .notAvailable)
    else
      match enrollment.status, enrollment.credential with
      | .revealed, _ => (relay, .error .alreadyRevealed)
      | _, none => (relay, .error .alreadyRevealed)
      | .approved, some credential =>
        (relay.put
          { enrollment with
            credential := none
            status := .revealed }, .ok credential)
      | _, some _ => (relay, .error .notApproved)

def poll (relay : Relay) (now : Int) (id : String) : Relay × Option EnrollmentState :=
  let relay := relay.sweep now
  (relay, (relay.byId.lookup id).map Enrollment.state)

def discard (relay : Relay) (id : String) : Relay :=
  match relay.byId.lookup id with
  | none => relay
  | some enrollment =>
    { relay with
      byId := relay.byId.erase id
      byUserCode := relay.byUserCode.erase enrollment.userCode }

end Relay

/-- A call, with the readings of the clock and the random bytes that it gets. -/
inductive Op where
  | create (swept made : Int) (idBytes codeBytes : List UInt8) (request : EnrollmentRequest)
  | summary (now : Int) (userCode : String)
  | approve (now : Int) (userCode userId : String) (approvedDurationHours : Int)
  | deny (now : Int) (userCode : String)
  | reveal (now : Int) (userCode userId : String)
  | poll (now : Int) (id : String)
  | discard (id : String)
deriving Repr, DecidableEq

def step (ttlMs : Int) (relay : Relay) : Op → Relay
  | .create swept made idBytes codeBytes request =>
    (relay.create ttlMs swept made idBytes codeBytes request).1
  | .summary now userCode => (relay.summary now userCode).1
  | .approve now userCode userId hours => (relay.approve now userCode userId hours).1
  | .deny now userCode => (relay.deny now userCode).1
  | .reveal now userCode userId => (relay.reveal now userCode userId).1
  | .poll now id => (relay.poll now id).1
  | .discard id => relay.discard id

/-! ## What is held -/

/-- The enrollment is held under the id. -/
def Relay.Holds (relay : Relay) (id : String) (enrollment : Enrollment) : Prop :=
  relay.byId.lookup id = some enrollment

/-- The code leads to the id. -/
def Relay.Leads (relay : Relay) (code id : String) : Prop :=
  relay.byUserCode.lookup code = some id

variable {id : String} {enrollment : Enrollment}

theorem holds_entries {relay : Relay} :
    relay.Holds id enrollment ↔ ⟨id, enrollment⟩ ∈ relay.byId.entries := by
  rw [Relay.Holds, ← Option.mem_def, AList.mem_lookup_iff]

theorem holds_sweep {relay : Relay} {now : Int} :
    (relay.sweep now).Holds id enrollment ↔
      relay.Holds id enrollment ∧ now < enrollment.expiresAt := by
  simp [holds_entries, Relay.sweep, Relay.expired]

/-- A new record is pending; the others were there after the sweep. -/
theorem holds_create {relay : Relay} {ttlMs swept made : Int} {idBytes codeBytes : List UInt8}
    {request : EnrollmentRequest}
    (holds : (relay.create ttlMs swept made idBytes codeBytes request).1.Holds id enrollment) :
    (id = hex idBytes ∧ enrollment =
      { object := relay.created
        id := hex idBytes
        userCode := randomCode codeBytes
        request
        status := .pending
        userId := none
        approvedDurationHours := none
        credential := some request.credential
        expiresAt := made + ttlMs }) ∨
      (id ≠ hex idBytes ∧ (relay.sweep swept).Holds id enrollment) := by
  simp only [Relay.Holds, Relay.create] at holds
  by_cases same : id = hex idBytes
  · subst same
    rw [AList.lookup_insert, Option.some.injEq] at holds
    exact Or.inl ⟨rfl, holds.symm⟩
  · rw [AList.lookup_insert_ne same] at holds
    exact Or.inr ⟨same, holds⟩

theorem lookup_erase_all (codes : List String) (table : AList fun _ : String => String)
    (code : String) :
    (codes.foldl (fun table code => table.erase code) table).lookup code =
      if code ∈ codes then none else table.lookup code := by
  induction codes generalizing table with
  | nil => simp
  | cons first rest ih =>
    rw [List.foldl_cons, ih]
    by_cases same : code = first
    · subst same
      simp
    · simp [same, AList.lookup_erase_ne same]

/-- A code is swept exactly if some enrollment with it is. -/
theorem leads_sweep {relay : Relay} {now : Int} {code : String} :
    (relay.sweep now).Leads code id ↔
      relay.Leads code id ∧
        ∀ other enrollment, relay.Holds other enrollment → enrollment.expiresAt ≤ now →
          enrollment.userCode ≠ code := by
  simp only [Relay.Leads, Relay.sweep, lookup_erase_all]
  constructor
  · intro leads
    split at leads
    · cases leads
    next kept =>
      refine ⟨leads, ?_⟩
      rintro other enrollment holds late rfl
      apply kept
      simp only [List.mem_map, List.mem_filter]
      exact ⟨⟨other, enrollment⟩, ⟨holds_entries.mp holds, decide_eq_true late⟩, rfl⟩
  · rintro ⟨leads, kept⟩
    rw [if_neg]
    · exact leads
    · intro member
      simp only [List.mem_map, List.mem_filter] at member
      obtain ⟨⟨other, enrollment⟩, ⟨inside, late⟩, same⟩ := member
      exact kept other enrollment (holds_entries.mpr inside) (of_decide_eq_true late) same

end HelixKit.Backend.EnrollmentRelay
