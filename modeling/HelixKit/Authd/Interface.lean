/-
Purpose: What an authenticator of `helix-authd` deals with: requests and
  outcomes (`session.go`), the cloud (`cloud.go`), the rows of the state
  database (`state.go`, `credential_store.go`), the clock, and the questions it
  can put to them, one call or one transaction each.
Trusted boundary: none
-/
import HelixKit.Authd.Codes
import HelixKit.Lib.Dialogue
import Mathlib.Algebra.GroupWithZero.Nat
import Mathlib.Algebra.Ring.Int.Defs

namespace HelixKit.Authd

open HelixKit.Dialogue

/-! ### Time -/

/-- A `time.Time`: nanoseconds since the Unix epoch. -/
abbrev Time : Type := Int

/-- A `time.Duration`: nanoseconds. -/
abbrev Duration : Type := Int

def nanosecondsPerSecond : Int := 1000000000
def second : Duration := nanosecondsPerSecond
def minute : Duration := 60 * second
def hour : Duration := 60 * minute

/-- `Time.Sub`, which saturates at the ends of `Duration`. -/
def Time.sub (t u : Time) : Duration := max (-(2 ^ 63)) (min (2 ^ 63 - 1) (t - u))

/-- The time as the database holds it, in whole seconds: `Time.Unix` and back. -/
def Time.stored (t : Time) : Time := t / nanosecondsPerSecond * nanosecondsPerSecond

/-! ### Requests and outcomes -/

structure Request where
  username : String
  deviceID : String
  uid : UInt32
deriving DecidableEq, Repr

/-- `authproto.Status`; `unset` is the empty status of `Outcome{}`. -/
inductive Status where
  | unset
  | approved
  | denied
  | unavailable
  | expired
  | invalidCredential
deriving DecidableEq, Repr

structure Outcome where
  status : Status := .unset
  reason : String := ""
deriving DecidableEq, Repr

def approve : Outcome := { status := .approved }
def deny (reason : String) : Outcome := { status := .denied, reason }
def unavailable (reason : String) : Outcome := { status := .unavailable, reason }
def expired (reason : String) : Outcome := { status := .expired, reason }
def invalid (reason : String) : Outcome := { status := .invalidCredential, reason }

/-! ### The cloud -/

def deviceLoginScope : String := "device.login"

structure DeviceAuthRequest where
  deviceCode : String
  userCode : String
  verificationURI : String
  verificationURIComplete : String
  interval : Duration
deriving DecidableEq, Repr

inductive DeviceAuthState where
  | pending
  | approved
  | denied
  | expired
  | other (name : String)
deriving DecidableEq, Repr

structure DeviceAuthResult where
  state : DeviceAuthState
  sessionToken : String
deriving DecidableEq, Repr

structure Decision where
  allowed : Bool
  linuxUID : Option UInt32
  policyVersion : Int
  scopes : List String
  username : Option String
  userID : Option String
deriving DecidableEq, Repr

def Decision.hasScope (d : Decision) (scope : String) : Bool := d.scopes.contains scope

structure EnrollmentRequest where
  username : String
  linuxUID : UInt32
  credentialID : String
  credential : String
  durationHours : Int
deriving DecidableEq, Repr

structure EnrollmentState where
  id : String
  userCode : String
  status : String
  userID : Option String
  approvedDurationHours : Option Int
  verificationURI : String
deriving DecidableEq, Repr

def EnrollmentState.approved (e : EnrollmentState) : Bool :=
  e.status = "approved" || e.status = "revealed"

/-! ### The rows of the state database -/

structure CachedUser where
  userID : String
  username : String
  linuxUID : UInt32
  scopes : List String
  policyVersion : Int
  refreshedAt : Time
deriving DecidableEq, Repr

def CachedUser.hasScope (u : CachedUser) (scope : String) : Bool := u.scopes.contains scope

inductive CredentialState where
  | pending
  | active
  | expired
  | revoked
deriving DecidableEq, Repr

/-- The text of a state in the database, in lower case. -/
def CredentialState.lower : CredentialState → String
  | pending => "pending"
  | active => "active"
  | expired => "expired"
  | revoked => "revoked"

structure StoredCredential where
  id : String
  username : String
  userID : String
  linuxUID : UInt32
  verifier : String
  state : CredentialState := .pending
  durationSec : Int
  createdAt : Time
  activatedAt : Option Time := none
  expiresAt : Option Time := none
deriving DecidableEq, Repr

def StoredCredential.expired (c : StoredCredential) (now : Time) : Bool :=
  c.expiresAt.any fun at_ => now > at_

/-- The errors of the store: the sentinels callers test for, and any other. -/
inductive StoreErr where
  | noCachedUser
  | noCredential
  | credentialNotPending
  | failed
deriving DecidableEq, Repr

/-! ### Questions -/

inductive Method where
  | online
  | offline
  | persistent
deriving DecidableEq, Repr

def Method.name : Method → String
  | online => "online"
  | offline => "offline"
  | persistent => "persistent"

/-- One call out of an authenticator.  A store method of two transactions asks
twice. -/
inductive Ask where
  | startDeviceAuth
  | pollDeviceAuth (deviceCode : String)
  | authorizeSession (sessionToken : String)
  | authorizeUser (userID : String)
  | createEnrollment (req : EnrollmentRequest)
  | pollEnrollment (enrollmentID : String)
  | warn (text : String)
  | prompt (promptID text : String)
  | promptSecret (promptID text : String)
  | putCachedUser (user : CachedUser)
  | cachedUser (username : String)
  | putPendingCredential (cred : StoredCredential)
  | activateCredential (id : String) (now : Time) (lifetime : Duration)
  | credential (id : String)
  | activeCredential (username : String)
  | revokeCredential (id : String)
  | expireCredential (id : String)
  | clock
  | readRandom (size : Nat)
  | contextEnded
  | contextEndedBeforeTick (interval : Duration)
deriving DecidableEq, Repr

/-- The replies.  `none` is an error of the cloud, of the conversation or of the
random source, whichever was asked. -/
abbrev Reply : Ask → Type
  | .startDeviceAuth => Option DeviceAuthRequest
  | .pollDeviceAuth _ => Option DeviceAuthResult
  | .authorizeSession _ => Option Decision
  | .authorizeUser _ => Option Decision
  | .createEnrollment _ => Option EnrollmentState
  | .pollEnrollment _ => Option EnrollmentState
  | .warn _ => Unit
  | .prompt _ _ => Option String
  | .promptSecret _ _ => Option String
  | .putCachedUser _ => Except StoreErr Unit
  | .cachedUser _ => Except StoreErr CachedUser
  | .putPendingCredential _ => Except StoreErr Unit
  | .activateCredential _ _ _ => Except StoreErr Unit
  | .credential _ => Except StoreErr StoredCredential
  | .activeCredential _ => Except StoreErr StoredCredential
  | .revokeCredential _ => Except StoreErr Unit
  | .expireCredential _ => Except StoreErr Unit
  | .clock => Time
  | .readRandom _ => Option Bytes
  | .contextEnded => Bool
  | .contextEndedBeforeTick _ => Bool

/-- A piece of an authenticator. -/
abbrev Dialog (α : Type) : Type := Program Reply α

/-- What one attempt has asked and been told so far. -/
abbrev History : Type := List (Exchange Reply)

/-! ### The calls -/

namespace Cloud

abbrev startDeviceAuth : Dialog (Option DeviceAuthRequest) := .inquire Ask.startDeviceAuth

abbrev pollDeviceAuth (deviceCode : String) : Dialog (Option DeviceAuthResult) :=
  .inquire (Ask.pollDeviceAuth deviceCode)

abbrev authorizeSession (sessionToken : String) : Dialog (Option Decision) :=
  .inquire (Ask.authorizeSession sessionToken)

abbrev authorizeUser (userID : String) : Dialog (Option Decision) :=
  .inquire (Ask.authorizeUser userID)

abbrev createEnrollment (req : EnrollmentRequest) : Dialog (Option EnrollmentState) :=
  .inquire (Ask.createEnrollment req)

abbrev pollEnrollment (enrollmentID : String) : Dialog (Option EnrollmentState) :=
  .inquire (Ask.pollEnrollment enrollmentID)

end Cloud

namespace Conversation

abbrev warn (text : String) : Dialog Unit := .inquire (Ask.warn text)

abbrev prompt (promptID text : String) : Dialog (Option String) :=
  .inquire (Ask.prompt promptID text)

abbrev promptSecret (promptID text : String) : Dialog (Option String) :=
  .inquire (Ask.promptSecret promptID text)

end Conversation

namespace Store

abbrev putCachedUser (user : CachedUser) : Dialog (Except StoreErr Unit) :=
  .inquire (Ask.putCachedUser user)

abbrev cachedUser (username : String) : Dialog (Except StoreErr CachedUser) :=
  .inquire (Ask.cachedUser username)

abbrev putPendingCredential (cred : StoredCredential) : Dialog (Except StoreErr Unit) :=
  .inquire (Ask.putPendingCredential cred)

abbrev activateTransaction (id : String) (now : Time) (lifetime : Duration) :
    Dialog (Except StoreErr Unit) :=
  .inquire (Ask.activateCredential id now lifetime)

abbrev credential (id : String) : Dialog (Except StoreErr StoredCredential) :=
  .inquire (Ask.credential id)

abbrev activeCredential (username : String) : Dialog (Except StoreErr StoredCredential) :=
  .inquire (Ask.activeCredential username)

abbrev revokeCredential (id : String) : Dialog (Except StoreErr Unit) :=
  .inquire (Ask.revokeCredential id)

abbrev expireCredential (id : String) : Dialog (Except StoreErr Unit) :=
  .inquire (Ask.expireCredential id)

/-- `ActivateCredential`: the transaction, and then the row read back. -/
def activateCredential (id : String) (now : Time) (lifetime : Duration) :
    Dialog (Except StoreErr StoredCredential) := do
  match ← activateTransaction id now lifetime with
  | .error err => return .error err
  | .ok () => credential id

end Store

abbrev clock : Dialog Time := .inquire Ask.clock

abbrev readRandom (size : ℕ) : Dialog (Option Bytes) := .inquire (Ask.readRandom size)

/-- Whether the context of the attempt is done. -/
abbrev contextEnded : Dialog Bool := .inquire Ask.contextEnded

/-- The wait for the ticker or the end of the context, whichever is taken. -/
abbrev contextEndedBeforeTick (interval : Duration) : Dialog Bool :=
  .inquire (Ask.contextEndedBeforeTick interval)

end HelixKit.Authd
