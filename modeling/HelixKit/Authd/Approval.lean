/-
Purpose: What an attempt of the online or the persistent method does only with
  the cloud's word for it: letting the user in, remembering the user for the
  offline method, and making an enrolled credential usable.
Trusted boundary: none
Main exports: approve_decided
-/
import HelixKit.Authd.Methods

namespace HelixKit.Authd

open HelixKit.Dialogue Program

/-- The decision lets in exactly the account the session asked for. -/
structure Decision.Admits (decision : Decision) (req : Request) : Prop where
  allowed : decision.allowed = true
  scope : deviceLoginScope ∈ decision.scopes
  username : decision.username = some req.username
  linuxUID : decision.linuxUID = some req.uid

/-- The cloud decided on whoever signed in during this attempt, or on the owner
of a credential the attempt read from the store. -/
inductive Decided (past : History) (decision : Decision) : Prop where
  | session {transaction : DeviceAuthRequest} {token : String}
      (started : ⟨.startDeviceAuth, some transaction⟩ ∈ past)
      (approved : ⟨.pollDeviceAuth transaction.deviceCode, some ⟨.approved, token⟩⟩ ∈ past)
      (decided : ⟨.authorizeSession token, some decision⟩ ∈ past)
  | user {id : String} {cred : StoredCredential}
      (held : ⟨.credential id, .ok cred⟩ ∈ past)
      (decided : ⟨.authorizeUser cred.userID, some decision⟩ ∈ past)

variable {decision : Decision}

theorem Decided.later {past : History} (decided : Decided past decision)
    (exchange : Exchange Reply) : Decided (past ++ [exchange]) decision := by
  cases decided with
  | session started approved decided =>
    exact .session (List.mem_append_left _ started) (List.mem_append_left _ approved)
      (List.mem_append_left _ decided)
  | user held decided =>
    exact .user (List.mem_append_left _ held) (List.mem_append_left _ decided)

/-- The row of a user the cloud has let in. -/
structure Remembered (req : Request) (past : History) (user : CachedUser) : Prop where
  username : user.username = req.username
  linuxUID : user.linuxUID = req.uid
  decision : ∃ decision, Decided past decision ∧ decision.Admits req

/-- The attempt minted a credential, recorded it as pending and had the cloud
open an enrollment for it. -/
structure Enrolled (bounds : Int × Int) (req : Request) (past : History) (hours : Int)
    (cred : StoredCredential) (enrollment : EnrollmentState) : Prop where
  least : bounds.1 ≤ hours
  most : hours ≤ bounds.2
  recorded : ⟨.putPendingCredential cred, .ok ()⟩ ∈ past
  lifetime : cred.durationSec = wrap64 (hours * secondsPerHour)
  created : ∃ request, ⟨.createEnrollment request, some enrollment⟩ ∈ past ∧
    request.credentialID = cred.id ∧ request.durationHours = hours

/-- After the enrollment the attempt was given a credential, which it found
pending in the store. -/
structure Possession (bounds : Int × Int) (req : Request) (past : History) (hours : Int)
    (cred : StoredCredential) (enrollment : EnrollmentState) (pending : StoredCredential) :
    Prop where
  pasted : ∃ before after text token parsed,
    past = before ++ ⟨.promptSecret "persistent_activation" text, some token⟩ :: after ∧
    Enrolled bounds req before hours cred enrollment ∧
    parseCredential token = some parsed ∧ ⟨.credential parsed.id, .ok pending⟩ ∈ past
  isPending : pending.state = .pending

variable {enrollment : EnrollmentState}

theorem Possession.later {bounds : Int × Int} {req : Request} {past : History} {hours : Int}
    {cred pending : StoredCredential}
    (possession : Possession bounds req past hours cred enrollment pending)
    (exchange : Exchange Reply) :
    Possession bounds req (past ++ [exchange]) hours cred enrollment pending := by
  obtain ⟨before, after, text, token, parsed, rfl, enrolled, parses, found⟩ := possession.pasted
  exact ⟨⟨before, after ++ [exchange], text, token, parsed, by simp, enrolled, parses,
    List.mem_append_left _ found⟩, possession.isPending⟩

/-- The cloud approved the enrollment of an attempt that was given a pending
credential. -/
structure Activation (bounds : Int × Int) (req : Request) (past : History) (hours : Int)
    (cred : StoredCredential) (enrollment : EnrollmentState) (pending : StoredCredential)
    (state : EnrollmentState) : Prop where
  possession : Possession bounds req past hours cred enrollment pending
  polled : ⟨.pollEnrollment enrollment.id, some state⟩ ∈ past
  approved : state.approved = true

/-- What an attempt of these methods keeps to in all it asks. -/
def Keeps (bounds : Int × Int) (req : Request) (past : History) : Ask → Prop
  | .putCachedUser user => Remembered req past user
  | .activateCredential id _ lifetime => ∃ hours cred enrollment pending state,
      Activation bounds req past hours cred enrollment pending state ∧ id = pending.id ∧
      lifetime = PersistentAuthenticator.hoursDuration
        (PersistentAuthenticator.activationHours pending state)
  | _ => True

/-- An attempt that ends with an approval has the cloud's decision for it. -/
def Approved (req : Request) (past : History) (outcome : Outcome) : Prop :=
  outcome.status = .approved → ∃ decision, Decided past decision ∧ decision.Admits req

variable {bounds : Int × Int} {req : Request} {past : History}

theorem approved_of_refusal {outcome : Outcome} (refusal : outcome.status ≠ .approved) :
    Approved req past outcome :=
  fun approved => absurd approved refusal

@[simp] theorem approved_deny (reason : String) : Approved req past (deny reason) :=
  approved_of_refusal (by simp [deny])

@[simp] theorem approved_unavailable (reason : String) : Approved req past (unavailable reason) :=
  approved_of_refusal (by simp [unavailable])

@[simp] theorem approved_invalid (reason : String) : Approved req past (invalid reason) :=
  approved_of_refusal (by simp [invalid])

/-! ### Admission -/

theorem admits_of_checks {username : String} {linuxUID : UInt32}
    (named : decision.username = some username) (numbered : decision.linuxUID = some linuxUID)
    (sameName : username = req.username) (sameUID : linuxUID = req.uid)
    (lets : ¬(!decision.allowed || !decision.hasScope deviceLoginScope) = true) :
    decision.Admits req := by
  have checks : decision.allowed = true ∧ deviceLoginScope ∈ decision.scopes := by
    simpa [Decision.hasScope] using lets
  subst sameName sameUID
  exact ⟨checks.1, checks.2, named, numbered⟩

/-- The end of both admissions: the user is remembered, and let in. -/
theorem guards_remember (decided : Decided past decision)
    (admits : decision.Admits req) (user : Time → CachedUser)
    (name : ∀ now, (user now).username = req.username)
    (uid : ∀ now, (user now).linuxUID = req.uid) :
    Guards (Keeps bounds req) (Approved req) past (do
      let now ← clock
      let _ ← Store.putCachedUser (user now)
      return approve) := by
  rw [guards_inquire_bind]
  refine ⟨trivial, fun now => ?_⟩
  rw [guards_inquire_bind]
  constructor
  · exact ⟨name now, uid now, decision, decided.later _, admits⟩
  · intro stored
    rw [guards_pure]
    exact fun _ => ⟨decision, (decided.later _).later _, admits⟩

theorem online_admit_guards (decided : Decided past decision) :
    Guards (Keeps bounds req) (Approved req) past (OnlineAuthenticator.admitDecision req decision) := by
  unfold OnlineAuthenticator.admitDecision
  split
  next username linuxUID userID named numbered _ =>
    split_ifs with otherName otherUID refused
    · simp [Keeps]
    · simp
    · simp [Keeps]
    · have sameName : username = req.username := not_not.1 otherName
      have sameUID : linuxUID = req.uid := not_not.1 otherUID
      exact guards_remember decided
        (admits_of_checks named numbered sameName sameUID refused) _
        (fun _ => sameName) fun _ => sameUID
  next => simp

theorem persistent_admit_guards (decided : Decided past decision) :
    Guards (Keeps bounds req) (Approved req) past
      (PersistentAuthenticator.admitDecision req decision) := by
  unfold PersistentAuthenticator.admitDecision
  split
  next username linuxUID userID named numbered _ =>
    split_ifs with other refused
    · simp
    · simp [Keeps]
    · have same : username = req.username ∧ linuxUID = req.uid := by
        simpa [not_or] using other
      exact guards_remember decided
        (admits_of_checks named numbered same.1 same.2 refused) _
        (fun _ => same.1) fun _ => same.2
  next => simp

/-! ### Online -/

/-- A token the poll ends with is the one the cloud gave for the transaction. -/
def Polled (transaction : DeviceAuthRequest) (past : History) : String × Outcome → Prop
  | (token, outcome) => outcome.status ≠ .approved ∧
      (token ≠ "" → ⟨.startDeviceAuth, some transaction⟩ ∈ past ∧
        ⟨.pollDeviceAuth transaction.deviceCode, some ⟨.approved, token⟩⟩ ∈ past)

theorem pollForApproval_guards (interval : Duration) (transaction : DeviceAuthRequest)
    (rounds : ℕ) (first : Bool) (started : ⟨.startDeviceAuth, some transaction⟩ ∈ past) :
    Guards (Keeps bounds req) (Polled transaction) past
      (pollForApproval interval transaction rounds first) := by
  induction rounds generalizing past first with
  | zero => exact guards_running
  | succ rounds ih =>
    unfold pollForApproval
    have waited : Guards (Keeps bounds req)
        (fun later _ => ⟨Ask.startDeviceAuth, some transaction⟩ ∈ later) past
        (awaitTick interval first) := by
      cases first with
      | true => simpa [awaitTick] using started
      | false =>
        simp only [awaitTick, Bool.false_eq_true, if_false]
        exact (guards_inquire (Ask.contextEndedBeforeTick interval)).2
          ⟨trivial, fun _ => List.mem_append_left _ started⟩
    apply waited.bind
    intro later ended started
    cases ended with
    | true => simp [Polled, deny]
    | false =>
      rw [if_neg (by simp), guards_inquire_bind]
      refine ⟨trivial, fun reply => ?_⟩
      cases reply with
      | none =>
        simp only [guards_inquire_bind]
        refine ⟨trivial, fun ended => ?_⟩
        cases ended <;> simp [Polled, deny, unavailable]
      | some result =>
        obtain ⟨state, token⟩ := result
        cases state with
        | pending => exact ih false (List.mem_append_left _ started)
        | approved => simp [Polled, started]
        | denied => simp [Polled, deny]
        | expired => simp [Polled, expired]
        | other => simp [Polled, deny]

theorem online_guards (a : OnlineAuthenticator) (rounds : ℕ) :
    Guards (Keeps bounds req) (Approved req) past (a.authenticate rounds req) := by
  unfold OnlineAuthenticator.authenticate
  rw [guards_inquire_bind]
  refine ⟨trivial, fun reply => ?_⟩
  cases reply with
  | none => simp
  | some transaction =>
    simp only [guards_inquire_bind]
    refine ⟨trivial, fun pressed => ?_⟩
    cases pressed with
    | none => simp
    | some line =>
      apply Guards.bind (pollForApproval_guards _ transaction rounds true (by simp))
      rintro later ⟨token, outcome⟩ ⟨refusal, granted⟩
      simp only
      split_ifs with noToken
      · exact (guards_pure _).2 (approved_of_refusal refusal)
      · obtain ⟨started, approved⟩ := granted noToken
        rw [guards_inquire_bind]
        refine ⟨trivial, fun reply => ?_⟩
        cases reply with
        | none => simp
        | some decision =>
          apply online_admit_guards
          apply Decided.session (List.mem_append_left _ started)
            (List.mem_append_left _ approved)
          simp

/-! ### Persistent -/

namespace PersistentAuthenticator

theorem verifyLocally_guards (a : PersistentAuthenticator) (pasted : String) :
    Guards (Keeps bounds req)
      (fun later verified => match verified with
        | .ok cred => ∃ id, ⟨Ask.credential id, Except.ok cred⟩ ∈ later
        | .error outcome => outcome.status ≠ .approved)
      past (a.verifyLocally req pasted) := by
  unfold verifyLocally
  split
  next => simp [invalid]
  next parsed _ =>
    rw [guards_inquire_bind]
    refine ⟨trivial, fun row => ?_⟩
    rcases row with err | cred
    · cases err <;> simp [invalid, Authd.unavailable]
    · simp only
      split
      next => simp [invalid]
      next =>
        rw [guards_inquire_bind]
        refine ⟨trivial, fun now => ?_⟩
        split
        next => simp [Keeps, Authd.expired]
        next =>
          split
          next => simp [deny]
          next =>
            split
            next => simp [Authd.unavailable]
            next verifier _ =>
              split
              next => exact (guards_pure _).2 ⟨parsed.id, by simp⟩
              next => simp [invalid]

theorem login_guards (a : PersistentAuthenticator) :
    Guards (Keeps bounds req) (Approved req) past (a.login req) := by
  unfold login
  rw [guards_inquire_bind]
  refine ⟨trivial, fun reply => ?_⟩
  cases reply with
  | none => simp
  | some pasted =>
    simp only
    apply (verifyLocally_guards a pasted).bind
    intro later verified held
    cases verified with
    | error outcome => exact (guards_pure _).2 (approved_of_refusal held)
    | ok cred =>
      obtain ⟨id, held⟩ := held
      simp only [guards_inquire_bind]
      refine ⟨trivial, fun reply => ?_⟩
      cases reply with
      | none => simp [Keeps]
      | some decision =>
        apply persistent_admit_guards
        exact .user (List.mem_append_left _ held) (by simp)

theorem askDuration_guards (a : PersistentAuthenticator) :
    Guards (Keeps bounds req)
      (fun _ answer => match answer with
        | .ok hours => a.durationBounds.1 ≤ hours ∧ hours ≤ a.durationBounds.2
        | .error outcome => outcome.status ≠ .approved)
      past a.askDuration := by
  unfold askDuration
  simp only [guards_inquire_bind]
  refine ⟨trivial, fun reply => ?_⟩
  cases reply with
  | none => simp [deny]
  | some answer =>
    simp only
    split
    next => simp [Keeps, deny]
    next hours within =>
      have checked := (Option.filter_eq_some_iff.1 within).2
      simpa using checked

theorem newPersistentCredential_guards :
    Guards (Keeps bounds req) (fun _ _ => True) past newPersistentCredential := by
  unfold newPersistentCredential
  rw [guards_inquire_bind]
  refine ⟨trivial, fun reply => ?_⟩
  cases reply with
  | none => simp
  | some idBytes =>
    simp only
    split
    next => simp
    next id _ =>
      rw [guards_inquire_bind]
      refine ⟨trivial, fun reply => ?_⟩
      cases reply <;> simp

theorem activatePending_guards {hours : Int} {cred pending : StoredCredential}
    (possession : Possession bounds req past hours cred enrollment pending) :
    Guards (Keeps bounds req) (Approved req) past (activatePending req enrollment pending) := by
  unfold activatePending
  rw [guards_inquire_bind]
  refine ⟨trivial, fun reply => ?_⟩
  cases reply with
  | none => simp [Keeps]
  | some state =>
    simp only
    split
    next userID accepted _ =>
      split_ifs with other
      · simp
      · rw [guards_inquire_bind]
        refine ⟨trivial, fun now => ?_⟩
        have activated : Guards (Keeps bounds req)
            (fun later row => ∀ activated, row = .ok activated →
              ∃ id, ⟨Ask.credential id, Except.ok activated⟩ ∈ later)
            (past ++ [⟨.pollEnrollment enrollment.id, some state⟩] ++ [⟨.clock, now⟩])
            (Store.activateCredential pending.id now
              (hoursDuration (activationHours pending state))) := by
          have warranted : Activation bounds req
              (past ++ [⟨.pollEnrollment enrollment.id, some state⟩] ++ [⟨.clock, now⟩])
              hours cred enrollment pending state :=
            ⟨(possession.later _).later _, by simp, accepted⟩
          unfold Store.activateCredential
          rw [guards_inquire_bind]
          refine ⟨⟨hours, cred, enrollment, pending, state, warranted, rfl, rfl⟩, fun done => ?_⟩
          cases done with
          | error err => simp
          | ok =>
            refine (guards_inquire (Ask.credential pending.id)).2
              ⟨trivial, fun row activated found => ⟨pending.id, ?_⟩⟩
            simp [found]
        apply activated.bind
        intro later row readBack
        cases row with
        | error err => simp
        | ok activated =>
          obtain ⟨id, held⟩ := readBack activated rfl
          simp only [guards_inquire_bind]
          refine ⟨trivial, fun reply => ?_⟩
          cases reply with
          | none => simp [Keeps]
          | some decision =>
            apply persistent_admit_guards
            exact .user (List.mem_append_left _ held) (by simp)
    next => simp [Keeps]

theorem activate_guards (a : PersistentAuthenticator) {hours : Int} {cred : StoredCredential}
    (enrolled : Enrolled bounds req past hours cred enrollment) (text token : String) :
    Guards (Keeps bounds req) (Approved req)
      (past ++ [⟨.promptSecret "persistent_activation" text, some token⟩])
      (a.activate req enrollment token) := by
  unfold activate
  split
  next => simp
  next parsed parses =>
    rw [guards_inquire_bind]
    refine ⟨trivial, fun row => ?_⟩
    cases row with
    | error err => simp
    | ok pending =>
      simp only
      split_ifs with other
      · simp
      · split
        next => simp
        next verifier _ =>
          split_ifs with verified
          · have isPending : pending.state = .pending := by
              simpa using (not_or.1 other).1
            have found : ⟨Ask.credential parsed.id, Except.ok pending⟩ ∈ past ++
                [⟨Ask.promptSecret "persistent_activation" text, some token⟩] ++
                [(⟨Ask.credential parsed.id, Except.ok pending⟩ : Exchange Reply)] := by simp
            exact activatePending_guards ⟨⟨past, [⟨.credential parsed.id, .ok pending⟩], text,
              token, parsed, by simp, enrolled, parses, found⟩, isPending⟩
          · simp

theorem enroll_guards (a : PersistentAuthenticator) :
    Guards (Keeps a.durationBounds req) (Approved req) past (a.enroll req) := by
  unfold enroll
  apply (askDuration_guards a).bind
  intro later answer within
  cases answer with
  | error outcome => exact (guards_pure _).2 (approved_of_refusal within)
  | ok hours =>
    apply newPersistentCredential_guards.bind
    intro later minted _
    cases minted with
    | none => simp
    | some credential =>
      simp only
      split
      next => simp
      next verifier _ =>
        unfold enrollCredential
        rw [guards_inquire_bind]
        refine ⟨trivial, fun row => ?_⟩
        cases row with
        | error err => simp [Keeps]
        | ok cached =>
          simp only [guards_inquire_bind]
          refine ⟨trivial, fun now => ⟨trivial, fun stored => ?_⟩⟩
          cases stored with
          | error err => simp
          | ok =>
            simp only [guards_inquire_bind]
            refine ⟨trivial, fun reply => ?_⟩
            cases reply with
            | none => simp [Keeps]
            | some enrollment =>
              simp only [guards_inquire_bind]
              refine ⟨trivial, fun pasted => ?_⟩
              cases pasted with
              | none => simp
              | some token =>
                apply activate_guards
                apply Enrolled.mk within.1 within.2 (List.mem_append_left _
                  (List.mem_append_right _ (List.mem_singleton.2 rfl))) rfl
                exact ⟨_, List.mem_append_right _ (List.mem_singleton.2 rfl), rfl, rfl⟩

theorem activeCredential_guards :
    Guards (Keeps bounds req) (fun _ _ => True) past (activeCredential req) := by
  unfold activeCredential
  rw [guards_inquire_bind]
  refine ⟨trivial, fun row => ?_⟩
  rcases row with err | cred
  · cases err <;> simp
  · simp only [guards_inquire_bind]
    refine ⟨trivial, fun now => ?_⟩
    split_ifs <;> simp [Keeps]

theorem existingCredentialPrompt_guards (cred : StoredCredential) :
    Guards (Keeps bounds req) (fun _ _ => True) past (existingCredentialPrompt cred) := by
  unfold existingCredentialPrompt
  cases cred.expiresAt <;> simp [Keeps]

theorem authenticate_guards (a : PersistentAuthenticator) :
    Guards (Keeps a.durationBounds req) (Approved req) past (a.authenticate req) := by
  unfold authenticate
  apply activeCredential_guards.bind
  intro later found _
  rcases found with err | _ | existing
  · simp
  · exact enroll_guards a
  · apply (existingCredentialPrompt_guards existing).bind
    intro later text _
    rw [guards_inquire_bind]
    refine ⟨trivial, fun reply => ?_⟩
    cases reply with
    | none => simp
    | some choice =>
      simp only
      split_ifs with use rotates back
      · exact login_guards a
      · unfold rotate
        rw [guards_inquire_bind]
        refine ⟨trivial, fun revoked => ?_⟩
        cases revoked with
        | error err => simp
        | ok => exact enroll_guards a
      · simp
      · simp [Keeps]

end PersistentAuthenticator

/-! ### Approval -/

/-- No run of the online or the persistent method ends with an approval unless
the cloud, asked in that run, let in exactly the account of the request. -/
theorem approve_decided (a : MethodAuthenticator) (rounds : ℕ) (req : Request) {method : Method}
    (asksCloud : method ≠ .offline) {impl : Dialog Outcome}
    (chosen : a.implementation rounds req method = some impl) {past : History}
    {outcome : Outcome} (ended : impl.Reaches past (.result outcome))
    (approved : outcome.status = .approved) :
    ∃ decision, Decided past decision ∧ decision.Admits req := by
  have guards : ∃ bounds, Guards (Keeps bounds req) (Approved req) [] impl := by
    cases method with
    | online =>
      obtain rfl : a.online.authenticate rounds req = impl := by
        simpa [MethodAuthenticator.implementation] using chosen
      exact ⟨(0, 0), online_guards a.online rounds⟩
    | offline => exact absurd rfl asksCloud
    | persistent =>
      obtain ⟨persistent, -, rfl⟩ : ∃ persistent, a.persistent = some persistent ∧
          persistent.authenticate req = impl := by
        simpa [MethodAuthenticator.implementation] using chosen
      exact ⟨_, PersistentAuthenticator.authenticate_guards persistent⟩
  obtain ⟨bounds, guards⟩ := guards
  have settled := guards.reaches ended
  rw [guards_result] at settled
  simpa using settled approved

/-- Alice at a device. -/
def aliceRequest : Request :=
  { username := "alice", deviceID := "device-1", uid := 200001 }

/-- The cloud lets alice in. -/
def aliceDecision : Decision :=
  { allowed := true, linuxUID := some 200001, policyVersion := 7
    scopes := [deviceLoginScope], username := some "alice", userID := some "user-1" }

/-- Alice signs in on the second poll and the store works. -/
def aliceSignsIn (past : History) : (question : Ask) → Reply question
  | .startDeviceAuth => some
      { deviceCode := "code", userCode := "ABCD-EFGH", verificationURI := "https://helix-kit.com"
        verificationURIComplete := "", interval := 0 }
  | .pollDeviceAuth _ =>
    if past.length < 3 then some ⟨.pending, ""⟩ else some ⟨.approved, "token"⟩
  | .authorizeSession _ => some aliceDecision
  | .prompt _ _ => some ""
  | .putCachedUser _ => .ok ()
  | .contextEndedBeforeTick _ => false
  | .clock => 0
  | .pollEnrollment _ | .createEnrollment _ | .authorizeUser _ | .promptSecret _ _
  | .readRandom _ => none
  | .cachedUser _ | .putPendingCredential _ | .activateCredential _ _ _ | .credential _
  | .activeCredential _ | .revokeCredential _ | .expireCredential _ => .error .failed
  | .warn _ => ()
  | .contextEnded => false

theorem approve_decided_alice :
    ∃ decision, Decided (run aliceSignsIn [] (OnlineAuthenticator.authenticate {} 3 aliceRequest)).2
      decision ∧ decision.Admits aliceRequest :=
  approve_decided { online := {}, offline := none, persistent := none } 3 aliceRequest
    (show Method.online ≠ .offline by decide) rfl
    (run_reaches (show (run aliceSignsIn [] (OnlineAuthenticator.authenticate {} 3
      aliceRequest)).1 = some approve by decide)) rfl

end HelixKit.Authd
