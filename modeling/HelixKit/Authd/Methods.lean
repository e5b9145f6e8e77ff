/-
Purpose: The authenticators of `helix-authd`: online (`online.go`), offline
  (`offline.go`), persistent (`persistent.go`) and the choice between them
  (`stub.go`).
Trusted boundary: none
-/
import HelixKit.Authd.Interface

namespace HelixKit.Authd

open HelixKit.Dialogue

/-! ### Admission -/

/-- `admit` of the online method. -/
def OnlineAuthenticator.admitDecision (req : Request) (decision : Decision) : Dialog Outcome :=
  match decision.username, decision.linuxUID, decision.userID with
  | some username, some linuxUID, some userID =>
    if username ≠ req.username then do
      Conversation.warn s!"Signed in as {username}, but this session is for {req.username}."
      return deny "identity_mismatch"
    else if linuxUID ≠ req.uid then return deny "identity_mismatch"
    else if !decision.allowed || !decision.hasScope deviceLoginScope then do
      Conversation.warn "You are not authorized to log in to this device."
      return deny "authorization_denied"
    else do
      let now ← clock
      -- A failure to remember the user does not end the login.
      let _ ← Store.putCachedUser
        { userID, username, linuxUID, scopes := decision.scopes
          policyVersion := decision.policyVersion, refreshedAt := now }
      return approve
  | _, _, _ => return deny "identity_unknown"

/-- `admit` of the persistent method, which does not warn of another name. -/
def PersistentAuthenticator.admitDecision (req : Request) (decision : Decision) : Dialog Outcome :=
  match decision.username, decision.linuxUID, decision.userID with
  | some username, some linuxUID, some userID =>
    if username ≠ req.username ∨ linuxUID ≠ req.uid then return deny "identity_mismatch"
    else if !decision.allowed || !decision.hasScope deviceLoginScope then do
      Conversation.warn "You are not authorized to log in to this device."
      return deny "authorization_denied"
    else do
      let now ← clock
      let _ ← Store.putCachedUser
        { userID, username, linuxUID, scopes := decision.scopes
          policyVersion := decision.policyVersion, refreshedAt := now }
      return approve
  | _, _, _ => return deny "identity_unknown"

/-! ### Online -/

structure OnlineAuthenticator where
  pollInterval : Duration := 0
deriving DecidableEq, Repr

def defaultPollInterval : Duration := 5 * second

def browserInstructions (transaction : DeviceAuthRequest) : String :=
  let uri :=
    if transaction.verificationURIComplete ≠ "" then transaction.verificationURIComplete
    else transaction.verificationURI
  s!"Helix online authentication\n\nOpen: {uri}\nCode: {transaction.userCode}\n\n" ++
    "Press Enter once you have approved it: "

/-- The wait before a poll: none before the first one.  `true` when the context
ended. -/
def awaitTick (interval : Duration) (first : Bool) : Dialog Bool :=
  if first then return false else contextEndedBeforeTick interval

/-- The polling loop of `waitForApproval`, cut off after `rounds` polls. -/
def pollForApproval (interval : Duration) (transaction : DeviceAuthRequest) :
    (rounds : ℕ) → (first : Bool) → Dialog (String × Outcome)
  | 0, _ => .running
  | rounds + 1, first => do
      if ← awaitTick interval first then return ("", deny "timeout")
      else
        match ← Cloud.pollDeviceAuth transaction.deviceCode with
        | none =>
          if ← contextEnded then return ("", deny "timeout")
          else return ("", unavailable "cloud_unavailable")
        | some result =>
          match result.state with
          | .pending => pollForApproval interval transaction rounds false
          | .approved => return (result.sessionToken, { })
          | .denied => return ("", deny "authorization_denied")
          | .expired => return ("", expired "code_expired")
          | .other _ => return ("", deny "unknown_state")

namespace OnlineAuthenticator

def waitForApproval (a : OnlineAuthenticator) (rounds : ℕ) (transaction : DeviceAuthRequest) :
    Dialog (String × Outcome) :=
  let interval :=
    if transaction.interval > 0 then transaction.interval
    else if a.pollInterval > 0 then a.pollInterval
    else defaultPollInterval
  pollForApproval interval transaction rounds true

def authenticate (a : OnlineAuthenticator) (rounds : ℕ) (req : Request) : Dialog Outcome := do
  match ← Cloud.startDeviceAuth with
  | none => return Authd.unavailable "cloud_unavailable"
  | some transaction =>
    match ← Conversation.prompt "online_browser" (browserInstructions transaction) with
    | none => return deny "conversation_failed"
    | some _ => do
        let (sessionToken, outcome) ← a.waitForApproval rounds transaction
        if sessionToken = "" then return outcome
        else
          match ← Cloud.authorizeSession sessionToken with
          | none => return Authd.unavailable "cloud_unavailable"
          | some decision => admitDecision req decision

end OnlineAuthenticator

/-! ### Offline -/

structure OfflineAuthenticator where
  hmac : Bytes → Bytes → Bytes
  secret : Bytes
  maxScopeAge : Duration := 0
  challengeTTL : Duration := 0
  maxAttempts : Int := 0
  verificationURI : String

def defaultChallengeTTL : Duration := 5 * minute
def defaultOfflineMaxAge : Duration := 12 * hour
def defaultOfflineAttempts : ℕ := 3
def offlineUnavailableText : String := "Offline authentication unavailable."
def offlineStaleCacheText : String :=
  "Offline authentication unavailable: authorization cache is stale."
def offlineWrongCodeMessage : String := "That response is not correct."

namespace OfflineAuthenticator

def attempts (a : OfflineAuthenticator) : ℕ :=
  if a.maxAttempts > 0 then a.maxAttempts.toNat else defaultOfflineAttempts

def maxAge (a : OfflineAuthenticator) : Duration :=
  if a.maxScopeAge > 0 then a.maxScopeAge else defaultOfflineMaxAge

/-- The lifetime of a challenge. -/
def ttl (a : OfflineAuthenticator) : Duration :=
  if a.challengeTTL ≤ 0 then defaultChallengeTTL else a.challengeTTL

def refuse (text reason : String) : Dialog (Except Outcome CachedUser) := do
  Conversation.warn text
  return .error (deny reason)

def eligible (a : OfflineAuthenticator) (req : Request) : Dialog (Except Outcome CachedUser) := do
  match ← Store.cachedUser req.username with
  | .error _ => refuse offlineUnavailableText "no_cached_user"
  | .ok cached =>
    if cached.linuxUID ≠ req.uid then refuse offlineUnavailableText "identity_mismatch"
    else if !cached.hasScope deviceLoginScope then
      refuse offlineUnavailableText "authorization_denied"
    else do
      let now ← clock
      if now.sub cached.refreshedAt > a.maxAge then
        refuse offlineStaleCacheText "cache_stale"
      else return .ok cached

/-- `newChallenge`; `none` is its error. -/
def newChallenge : Dialog (Option String) := do
  match ← readRandom codeRawBytes with
  | none => return none
  | some raw => return encodeCode raw

def challengePrompt (a : OfflineAuthenticator) (req : Request) (challenge : String) : String :=
  s!"Offline Helix authentication\n\nDevice: {req.deviceID}\nOpen: {a.verificationURI}\n" ++
    s!"Challenge: {formatCode challenge}\n\nResponse: "

/-- The attempts that remain, each answered by one line of the user. -/
def readResponses (expected : String) (deadline : Time) :
    (remaining : ℕ) → (prompt : String) → Dialog Outcome
  | 0, _ => return deny "challenge_exhausted"
  | remaining + 1, prompt => do
      if ← contextEnded then return deny "timeout"
      else
        match ← Conversation.prompt "offline_response" prompt with
        | none => return deny "conversation_failed"
        | some answer =>
          let now ← clock
          if now > deadline then do
            Conversation.warn "That challenge has expired. Try again."
            return Authd.expired "challenge_expired"
          else if normalizeCode answer = expected then return approve
          else if 0 < remaining then do
            Conversation.warn offlineWrongCodeMessage
            readResponses expected deadline remaining "Response: "
          else readResponses expected deadline remaining prompt

def authenticate (a : OfflineAuthenticator) (req : Request) : Dialog Outcome := do
  match ← a.eligible req with
  | .error outcome => return outcome
  | .ok cached =>
    match ← newChallenge with
    | none => return Authd.unavailable "challenge_unavailable"
    | some challenge =>
      match offlineResponse a.hmac a.secret
          { deviceID := req.deviceID, userID := cached.userID
            linuxUID := cached.linuxUID, challenge } with
      | none => return Authd.unavailable "challenge_unavailable"
      | some expected => do
          let now ← clock
          readResponses expected (now + a.ttl) a.attempts (a.challengePrompt req challenge)

end OfflineAuthenticator

/-! ### Persistent -/

structure PersistentAuthenticator where
  hmac : Bytes → Bytes → Bytes
  deviceKey : Bytes
  minDurationHours : Int := 0
  maxDurationHours : Int := 0

def defaultMinDurationHours : Int := 1
def defaultMaxDurationHours : Int := 168
def hoursPerDay : Int := 24
def secondsPerHour : Int := 3600
def persistentUnavailableText : String :=
  "Persistent authentication unavailable. Use offline authentication instead."

/-- `NewPersistentCredential`; `none` is its error. -/
def newPersistentCredential : Dialog (Option PersistentCredential) := do
  match ← readRandom credentialIDBytes with
  | none => return none
  | some idBytes =>
    match encodeCode idBytes with
    | none => return none
    | some id =>
      match ← readRandom credentialSecretSz with
      | none => return none
      | some secret => return some { id, secret }

/-- `humanDuration`. -/
def humanDuration (d : Duration) : String :=
  if d ≤ 0 then "0m"
  else
    let hours := d / hour
    let minutes := d / minute % 60
    if hours ≥ hoursPerDay then s!"{hours / hoursPerDay}d {hours % hoursPerDay}h"
    else if hours > 0 then s!"{hours}h {minutes}m"
    else s!"{minutes}m"

namespace PersistentAuthenticator

/-- `activeCredential`: the credential in use, if there is one, or an error. -/
def activeCredential (req : Request) : Dialog (Except StoreErr (Option StoredCredential)) := do
  match ← Store.activeCredential req.username with
  | .error .noCredential => return .ok none
  | .error err => return .error err
  | .ok cred =>
    let now ← clock
    if cred.expired now then do
      let _ ← Store.expireCredential cred.id
      return .ok none
    else return .ok (some cred)

/-- The text of the choice; the clock is read only for a credential that
expires. -/
def existingCredentialPrompt (cred : StoredCredential) : Dialog String := do
  let remaining ← match cred.expiresAt with
    | none => pure "unknown"
    | some expiresAt => do return humanDuration (expiresAt.sub (← clock))
  return s!"Persistent credential active\n\nExpires in: {remaining}\n\n" ++
    "Action [use/rotate/back]: "

def durationBounds (a : PersistentAuthenticator) : Int × Int :=
  (if a.minDurationHours ≤ 0 then defaultMinDurationHours else a.minDurationHours,
    if a.maxDurationHours ≤ 0 then defaultMaxDurationHours else a.maxDurationHours)

def askDuration (a : PersistentAuthenticator) : Dialog (Except Outcome Int) := do
  let (minHours, maxHours) := a.durationBounds
  match ← Conversation.prompt "persistent_duration"
      s!"Credential duration in hours ({minHours}-{maxHours}): " with
  | none => return .error (deny "conversation_failed")
  | some answer =>
    match (atoi (trimSpace answer)).filter fun hours => minHours ≤ hours ∧ hours ≤ maxHours with
    | none => do
        Conversation.warn s!"Enter a whole number of hours between {minHours} and {maxHours}."
        return .error (deny "invalid_duration")
    | some hours => return .ok hours

def activationPrompt (enrollment : EnrollmentState) (hours : Int) : String :=
  s!"Persistent credential enrollment\n\nOpen: {enrollment.verificationURI}\n" ++
    s!"Code: {enrollment.userCode}\nDuration: {hours} hours\n\n" ++
    "Approve it, then paste the credential here to activate it: "

def verifyLocally (a : PersistentAuthenticator) (req : Request) (pasted : String) :
    Dialog (Except Outcome StoredCredential) :=
  match parseCredential pasted with
  | none => return .error (invalid "malformed_credential")
  | some parsed => do
      match ← Store.credential parsed.id with
      | .error .noCredential => return .error (invalid "unknown_credential")
      | .error _ => return .error (Authd.unavailable "state_unavailable")
      | .ok cred =>
        if cred.state ≠ .active then
          return .error (invalid ("credential_" ++ cred.state.lower))
        else do
          let now ← clock
          if cred.expired now then do
            let _ ← Store.expireCredential cred.id
            return .error (Authd.expired "credential_expired")
          else if cred.username ≠ req.username ∨ cred.linuxUID ≠ req.uid then
            return .error (deny "identity_mismatch")
          else
            match credentialVerifier a.hmac a.deviceKey parsed.secret with
            | none => return .error (Authd.unavailable "state_unavailable")
            | some verifier =>
              if verifierMatches cred.verifier verifier then return .ok cred
              else return .error (invalid "verifier_mismatch")

def login (a : PersistentAuthenticator) (req : Request) : Dialog Outcome := do
  match ← Conversation.promptSecret "persistent_credential" "Persistent credential: " with
  | none => return deny "conversation_failed"
  | some pasted =>
    match ← a.verifyLocally req pasted with
    | .error outcome => return outcome
    | .ok cred =>
      match ← Cloud.authorizeUser cred.userID with
      | none => do
          Conversation.warn persistentUnavailableText
          return Authd.unavailable "cloud_unavailable"
      | some decision => admitDecision req decision

/-- The hours a credential is activated for. -/
def activationHours (pending : StoredCredential) (state : EnrollmentState) : Int :=
  state.approvedDurationHours.getD (pending.durationSec.tdiv secondsPerHour)

/-- `time.Duration(hours) * time.Hour`. -/
def hoursDuration (hours : Int) : Duration := wrap64 (hours * hour)

/-- `activate`, once the pasted credential was found to be the pending one. -/
def activatePending (req : Request) (enrollment : EnrollmentState) (pending : StoredCredential) :
    Dialog Outcome := do
  match ← Cloud.pollEnrollment enrollment.id with
  | none => do
      Conversation.warn persistentUnavailableText
      return Authd.unavailable "cloud_unavailable"
  | some state =>
    match state.approved, state.userID with
    | true, some userID =>
      if userID ≠ pending.userID then return deny "identity_mismatch"
      else do
        let now ← clock
        match ← Store.activateCredential pending.id now
            (hoursDuration (activationHours pending state)) with
        | .error _ => return Authd.unavailable "state_unavailable"
        | .ok activated =>
          match ← Cloud.authorizeUser activated.userID with
          | none => do
              Conversation.warn persistentUnavailableText
              return Authd.unavailable "cloud_unavailable"
          | some decision => admitDecision req decision
    | _, _ => do
        Conversation.warn "That credential was not approved."
        return deny "authorization_denied"

def activate (a : PersistentAuthenticator) (req : Request) (enrollment : EnrollmentState)
    (pasted : String) : Dialog Outcome :=
  match parseCredential pasted with
  | none => return invalid "malformed_credential"
  | some parsed => do
      match ← Store.credential parsed.id with
      | .error _ => return invalid "unknown_credential"
      | .ok pending =>
        if pending.state ≠ .pending ∨ pending.username ≠ req.username then
          return invalid "not_pending"
        else
          match credentialVerifier a.hmac a.deviceKey parsed.secret with
          | none => return Authd.unavailable "state_unavailable"
          | some verifier =>
            if verifierMatches pending.verifier verifier then
              activatePending req enrollment pending
            else return invalid "verifier_mismatch"

/-- `enroll`, once a credential has been minted. -/
def enrollCredential (a : PersistentAuthenticator) (req : Request) (hours : Int)
    (credential : PersistentCredential) (verifier : String) : Dialog Outcome := do
  match ← Store.cachedUser req.username with
  | .error _ => do
      Conversation.warn "Sign in online once before creating a persistent credential."
      return deny "no_cached_user"
  | .ok cached => do
      let now ← clock
      match ← Store.putPendingCredential
          { id := credential.id, username := req.username, userID := cached.userID
            linuxUID := req.uid, verifier, durationSec := wrap64 (hours * secondsPerHour)
            createdAt := now } with
      | .error _ => return Authd.unavailable "state_unavailable"
      | .ok () =>
        match ← Cloud.createEnrollment
            { username := req.username, linuxUID := req.uid, credentialID := credential.id
              credential := credential.string, durationHours := hours } with
        | none => do
            Conversation.warn persistentUnavailableText
            return Authd.unavailable "cloud_unavailable"
        | some enrollment =>
          match ← Conversation.promptSecret "persistent_activation"
              (activationPrompt enrollment hours) with
          | none => return deny "conversation_failed"
          | some pasted => a.activate req enrollment pasted

def enroll (a : PersistentAuthenticator) (req : Request) : Dialog Outcome := do
  match ← a.askDuration with
  | .error outcome => return outcome
  | .ok hours =>
    match ← newPersistentCredential with
    | none => return Authd.unavailable "credential_unavailable"
    | some credential =>
      match credentialVerifier a.hmac a.deviceKey credential.secret with
      | none => return Authd.unavailable "credential_unavailable"
      | some verifier => a.enrollCredential req hours credential verifier

/-- `rotate`: the credential in use is revoked before another one exists. -/
def rotate (a : PersistentAuthenticator) (req : Request) (existing : StoredCredential) :
    Dialog Outcome := do
  match ← Store.revokeCredential existing.id with
  | .error _ => return Authd.unavailable "state_unavailable"
  | .ok () => a.enroll req

def authenticate (a : PersistentAuthenticator) (req : Request) : Dialog Outcome := do
  match ← activeCredential req with
  | .error _ => return Authd.unavailable "state_unavailable"
  | .ok none => a.enroll req
  | .ok (some existing) => do
      let text ← existingCredentialPrompt existing
      match ← Conversation.prompt "persistent_action" text with
      | none => return deny "conversation_failed"
      | some choice =>
        let choice := toLower (trimSpace choice)
        if choice = "" ∨ choice = "use" then a.login req
        else if choice = "rotate" then a.rotate req existing
        else if choice = "back" then return deny "cancelled"
        else do
          Conversation.warn "Unknown choice."
          return deny "unknown_choice"

end PersistentAuthenticator

/-! ### The choice of a method -/

def methodPrompt : String := "Helix authentication method [online/offline/persistent]: "

def parseMethod (s : String) : Option Method :=
  let s := toLower (trimSpace s)
  if s = "online" then some .online
  else if s = "offline" then some .offline
  else if s = "persistent" then some .persistent
  else none

/-- `methodAuthenticator`: a method without a secret on the device is absent. -/
structure MethodAuthenticator where
  online : OnlineAuthenticator
  offline : Option OfflineAuthenticator
  persistent : Option PersistentAuthenticator

namespace MethodAuthenticator

/-- The authenticator registered for a method; `rounds` cuts off its polling. -/
def implementation (a : MethodAuthenticator) (rounds : ℕ) (req : Request) :
    Method → Option (Dialog Outcome)
  | .online => some (a.online.authenticate rounds req)
  | .offline => a.offline.map fun offline => offline.authenticate req
  | .persistent => a.persistent.map fun persistent => persistent.authenticate req

def authenticate (a : MethodAuthenticator) (rounds : ℕ) (req : Request) : Dialog Outcome := do
  match ← Conversation.prompt "auth_method" methodPrompt with
  | none => return deny "conversation_failed"
  | some answer =>
    match parseMethod answer with
    | none => do
        Conversation.warn "Unknown authentication method."
        return deny "unknown_method"
    | some method =>
      match a.implementation rounds req method with
      | none => do
          Conversation.warn s!"{method.name} authentication is not available on this device."
          return deny "method_unavailable"
      | some impl => impl

end MethodAuthenticator

end HelixKit.Authd
