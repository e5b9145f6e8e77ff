/-
Purpose: Credentials becoming active over whole runs of the daemon: each active row goes back to an
  enrollment the cloud approved for that very credential, as long as every user pastes the
  credential of their own login.
Trusted boundary: none
Main exports: active_credentials_warranted
-/
import HelixKit.Authd.Store

namespace HelixKit.Authd

open HelixKit.Dialogue Program World

variable {a : MethodAuthenticator} {daemon : Daemon}

/-- What a step must be like for credentials to stay with their enrollments. -/
structure Genuine (bounds : Int × Int) (before : List (ℕ × Exchange Reply)) (i : ℕ)
    (exchange : Exchange Reply) : Prop where
  fresh : ∀ cred, exchange = ⟨.putPendingCredential cred, .ok ()⟩ →
    ∀ j other, (j, ⟨.putPendingCredential other, .ok ()⟩) ∈ before → other.id ≠ cred.id
  own : ∀ text token parsed,
    exchange = ⟨.promptSecret "persistent_activation" text, some token⟩ →
    parseCredential token = some parsed → ∀ request enrollment,
    ⟨.createEnrollment request, some enrollment⟩ ∈ history before i →
    parsed.id = request.credentialID
  bounded : ∀ id state hours, exchange = ⟨.pollEnrollment id, some state⟩ →
    state.approvedDurationHours = some hours → bounds.1 ≤ hours ∧ hours ≤ bounds.2

/-- The cloud approved an enrollment opened for the credential of this row, and
the row lives for the duration approved, which is within the bounds. -/
def Warranted (bounds : Int × Int) (log : List (ℕ × Exchange Reply)) (row : StoredCredential) :
    Prop :=
  ∃ i request enrollment state activatedAt,
    (i, ⟨.createEnrollment request, some enrollment⟩) ∈ log ∧ request.credentialID = row.id ∧
    (i, ⟨.pollEnrollment enrollment.id, some state⟩) ∈ log ∧ state.approved = true ∧
    bounds.1 ≤ state.approvedDurationHours.getD request.durationHours ∧
    state.approvedDurationHours.getD request.durationHours ≤ bounds.2 ∧
    row.activatedAt = some activatedAt ∧
    row.expiresAt =
      some (activatedAt + state.approvedDurationHours.getD request.durationHours * hour)

theorem Warranted.later {bounds : Int × Int} {log : List (ℕ × Exchange Reply)}
    {row : StoredCredential} (warranted : Warranted bounds log row)
    (event : ℕ × Exchange Reply) : Warranted bounds (log ++ [event]) row := by
  obtain ⟨i, request, enrollment, state, activatedAt, created, named, polled, rest⟩ := warranted
  exact ⟨i, request, enrollment, state, activatedAt, List.mem_append_left _ created, named,
    List.mem_append_left _ polled, rest⟩

/-- A row that a logged enrollment put there. -/
def Recorded (log : List (ℕ × Exchange Reply)) (row : StoredCredential) : Prop :=
  ∃ j cred, (j, ⟨.putPendingCredential cred, .ok ()⟩) ∈ log ∧ row.id = cred.id ∧
    row.durationSec = cred.durationSec

theorem Daemon.recorded (run : Daemon.Run a daemon) {row : StoredCredential}
    (held : row ∈ daemon.shared.credentials) : Recorded daemon.log row := by
  induction run generalizing row with
  | start => simp at held
  | next earlier step ih =>
    cases step with
    | start => exact ih held
    | @answer i info question next reply after asking answered =>
      rcases (Store.answer_effect answered).credentials held with
        ⟨cred, said, rfl⟩ | ⟨old, found, sameID, sameDuration, -⟩
      · exact ⟨i, cred, by simp [said], rfl, rfl⟩
      · obtain ⟨j, cred, logged, id, duration⟩ := ih found
        exact ⟨j, cred, List.mem_append_left _ logged, sameID.trans id,
          sameDuration.trans duration⟩

/-- A credential read was recorded before, under the id it was asked for. -/
theorem Daemon.credentials_recorded (run : Daemon.Run a daemon) :
    Throughout (fun before _ exchange => ∀ id row, exchange = ⟨.credential id, .ok row⟩ →
      row.id = id ∧ Recorded before row) daemon.log := by
  induction run with
  | start => exact throughout_nil
  | next earlier step ih =>
    cases step with
    | start => exact ih
    | @answer i info question next reply after asking answered =>
      refine throughout_concat.2 ⟨ih, ?_⟩
      intro id row said
      cases said
      obtain ⟨held, named⟩ :=
        Store.findCredential_eq ((Store.read_eq answered).2 row rfl)
      exact ⟨named, Daemon.recorded earlier held⟩

/-- Fresh ids name one enrollment each. -/
theorem recorded_once {bounds : Int × Int} {log : List (ℕ × Exchange Reply)}
    (genuine : Throughout (Genuine bounds) log) {i j : ℕ} {cred other : StoredCredential}
    (first : (i, ⟨.putPendingCredential cred, .ok ()⟩) ∈ log)
    (second : (j, ⟨.putPendingCredential other, .ok ()⟩) ∈ log) (sameID : cred.id = other.id) :
    cred = other := by
  obtain ⟨before, after, rfl⟩ := List.append_of_mem first
  rcases List.mem_append.1 second with earlier | later
  · have fresh := (genuine before i _ after rfl).fresh cred rfl j other earlier
    exact absurd sameID.symm fresh
  · rcases List.mem_cons.1 later with same | later
    · cases same
      rfl
    · obtain ⟨between, rest, rfl⟩ := List.append_of_mem later
      have fresh := (genuine (before ++ (i, ⟨.putPendingCredential cred, .ok ()⟩) :: between) j _
        rest (by simp)).fresh other rfl i cred (by simp)
      exact absurd sameID fresh

/-! ### Activation -/

theorem wrap64_of_bounds {n : Int} (least : -(2 ^ 63) ≤ n) (most : n < 2 ^ 63) : wrap64 n = n := by
  unfold wrap64
  rw [Int.bmod_def]
  omega

/-- The longest duration in hours whose nanoseconds fit 64 bits. -/
def longestHours : Int := 2562047

theorem bounds_nonneg (a : MethodAuthenticator) : 0 ≤ a.bounds.1 := by
  unfold MethodAuthenticator.bounds
  cases a.persistent with
  | none => simp
  | some persistent =>
    simp only [Option.map_some, Option.getD_some, PersistentAuthenticator.durationBounds,
      defaultMinDurationHours]
    split_ifs <;> omega

theorem hoursDuration_eq {hours : Int} (least : 0 ≤ hours) (most : hours ≤ longestHours) :
    PersistentAuthenticator.hoursDuration hours = hours * hour := by
  have span : hour = 3600000000000 := by decide
  unfold longestHours at most
  unfold PersistentAuthenticator.hoursDuration
  rw [span]
  apply wrap64_of_bounds <;> omega

/-- What the login knew when it made a credential active. -/
theorem Daemon.activation_warranted (run : Daemon.Run a daemon)
    (genuine : Throughout (Genuine a.bounds) daemon.log) (longest : a.bounds.2 ≤ longestHours)
    {before after : List (ℕ × Exchange Reply)} {i : ℕ} {id : String} {now : Time}
    {lifetime : Duration}
    (logged : daemon.log = before ++ (i, ⟨.activateCredential id now lifetime, .ok ()⟩) :: after) :
    ∃ request enrollment state,
      (i, ⟨.createEnrollment request, some enrollment⟩) ∈ before ∧ request.credentialID = id ∧
      (i, ⟨.pollEnrollment enrollment.id, some state⟩) ∈ before ∧ state.approved = true ∧
      a.bounds.1 ≤ state.approvedDurationHours.getD request.durationHours ∧
      state.approvedDurationHours.getD request.durationHours ≤ a.bounds.2 ∧
      lifetime = state.approvedDurationHours.getD request.durationHours * hour := by
  obtain ⟨attempt, -, hours, cred, enrollment, pending, state, activation, rfl, lives⟩ :=
    World.Run.answered a.serve_keeps run logged
  obtain ⟨earlier, later, text, token, parsed, split, enrolled, parses, found⟩ :=
    activation.possession.pasted
  obtain ⟨request, created, named, asked⟩ := enrolled.created
  rw [logged] at genuine
  have genuineBefore := genuine.of_append
  have readsBefore : Throughout _ before :=
    Throughout.of_append (logged ▸ Daemon.credentials_recorded run)
  -- The paste named the credential this login enrolled.
  obtain ⟨logBefore, logAfter, logSplit, sameHistory⟩ := history_split split
  have pasted := genuineBefore logBefore i _ logAfter logSplit
  have own : parsed.id = cred.id := by
    rw [← named]
    exact pasted.own text token parsed rfl parses request enrollment (sameHistory ▸ created)
  -- So the row found pending is the one this login recorded.
  obtain ⟨readBefore, readAfter, readSplit, read⟩ := readsBefore.of_mem (mem_history.1 found)
  obtain ⟨pendingID, j, other, put, otherID, otherDuration⟩ := read _ pending rfl
  have recordedFirst : (i, ⟨.putPendingCredential cred, .ok ()⟩) ∈ before := by
    have early := mem_history.1 (sameHistory ▸ enrolled.recorded)
    simp [logSplit, early]
  have recordedSecond : (j, ⟨.putPendingCredential other, .ok ()⟩) ∈ before := by
    simp [readSplit, put]
  have sameCred : cred = other := by
    apply recorded_once genuineBefore recordedFirst recordedSecond
    rw [← own, ← pendingID, otherID]
  subst sameCred
  have duration : pending.durationSec = hours * secondsPerHour := by
    have least := enrolled.least
    have most := enrolled.most
    have positive := bounds_nonneg a
    rw [otherDuration, enrolled.lifetime]
    unfold longestHours at longest
    unfold secondsPerHour
    apply wrap64_of_bounds <;> omega
  -- And its duration is the one approved, or the one asked for.
  have chosen : PersistentAuthenticator.activationHours pending state =
      state.approvedDurationHours.getD request.durationHours := by
    unfold PersistentAuthenticator.activationHours
    rw [duration, asked, Int.mul_tdiv_cancel _ (by decide)]
  have within : a.bounds.1 ≤ state.approvedDurationHours.getD request.durationHours ∧
      state.approvedDurationHours.getD request.durationHours ≤ a.bounds.2 := by
    cases approved : state.approvedDurationHours with
    | none => exact asked ▸ ⟨enrolled.least, enrolled.most⟩
    | some approvedHours =>
      obtain ⟨pollBefore, _, _, polled⟩ := genuineBefore.of_mem (mem_history.1 activation.polled)
      exact polled.bounded _ state approvedHours rfl approved
  refine ⟨request, enrollment, state, ?_, ?_, mem_history.1 activation.polled,
    activation.approved, within.1, within.2, ?_⟩
  · have early := mem_history.1 (sameHistory ▸ created)
    simp [logSplit, early]
  · rw [named, ← own, ← pendingID]
  · rw [lives, chosen]
    exact hoursDuration_eq (Int.le_trans (bounds_nonneg a) within.1)
      (Int.le_trans within.2 longest)

theorem stored_add (now : Time) (hours : Int) :
    (now + hours * hour : Time).stored = now.stored + hours * hour := by
  have span : hour = 3600000000000 := by decide
  have rounds (n : Int) : (n + hours * 3600000000000) / 1000000000 * 1000000000 =
      n / 1000000000 * 1000000000 + hours * 3600000000000 := by omega
  rw [span]
  exact rounds now

/-- In every run whose steps are genuine, every active credential is warranted. -/
theorem active_credentials_warranted {a : MethodAuthenticator}
    (longest : a.bounds.2 ≤ longestHours) {daemon : Daemon} (run : Daemon.Run a daemon)
    (genuine : Throughout (Genuine a.bounds) daemon.log) {row : StoredCredential}
    (held : row ∈ daemon.shared.credentials) (active : row.state = .active) :
    Warranted a.bounds daemon.log row := by
  induction run generalizing row with
  | start => simp at held
  | @next world after earlier step ih =>
    cases step with
    | start => exact ih genuine held active
    | @answer i info question next reply after asking answered =>
      have genuineBefore := (throughout_concat.1 genuine).1
      rcases (Store.answer_effect answered).credentials held with
        ⟨cred, -, rfl⟩ | ⟨old, found, sameID, -, becomes⟩
      · cases active
      · rcases becomes active with rfl | ⟨now, lifetime, said, activatedAt, expiresAt⟩
        · exact (ih genuineBefore found active).later _
        · have runNow := earlier.next (.answer asking answered)
          obtain ⟨request, enrollment, state, created, named, polled, approved, least, most,
            lives⟩ := Daemon.activation_warranted runNow genuine longest
              (show _ = world.log ++ (i, _) :: [] by rw [said])
          refine ⟨i, request, enrollment, state, now.stored, List.mem_append_left _ created,
            named.trans sameID.symm, List.mem_append_left _ polled, approved, least, most,
            activatedAt, ?_⟩
          rw [expiresAt, lives, stored_add]

/-! ### Two enrollments of alice -/

/-- A device with the persistent method. -/
def alicePersistent : PersistentAuthenticator :=
  { hmac := fun _ message =>
      if message.getLast? = some 1 then
        [0xb3, 0xb7, 0x32, 0x7d, 0xee, 0x24, 0x58, 0xc1, 0xff, 0xe4, 0x7d, 0xf1, 0xee, 0x3e, 0xd6,
          0x8e, 0x3b, 0xc2, 0xe3, 0x7b, 0x94, 0x4f, 0xf1, 0x32, 0xde, 0x1a, 0xb2, 0x11, 0x53, 0xa8,
          0xe6, 0x9a]
      else
        [0x19, 0xfb, 0x94, 0x98, 0xdf, 0x73, 0x1a, 0x3b, 0xa4, 0x3b, 0x6c, 0x1e, 0x08, 0xc4, 0x47,
          0x7b, 0x5f, 0x61, 0x92, 0x33, 0x46, 0xd5, 0xf9, 0xcf, 0xcd, 0xb9, 0x2e, 0x31, 0xf2, 0x49,
          0x5d, 0x34]
    deviceKey := List.replicate 32 0x6b }

def enrollingDevice : MethodAuthenticator :=
  { online := {}, offline := none, persistent := some alicePersistent }

/-- The credential whose random bytes all come from `key`. -/
def keyedCredential (key : UInt8) : PersistentCredential :=
  { id := (encodeCode [0, 0, 0, 0, key]).getD "", secret := List.replicate 32 key }

/-- The replies to an enrollment when a line is typed: every enrollment the
device asks for is approved for one hour. -/
def enrollReplies (typed : String) (key : UInt8) (s : Store) :
    (question : Ask) → Option (Reply question)
  | .promptSecret _ _ => some (some typed)
  | .readRandom size =>
    some (some (if size = 5 then [0, 0, 0, 0, key] else List.replicate 32 key))
  | .putPendingCredential _ => some (.ok ())
  | .createEnrollment request => some (some
      { id := request.credentialID, userCode := "", status := "pending", userID := none
        approvedDurationHours := none, verificationURI := "" })
  | .pollEnrollment id => some (some
      { id, userCode := "", status := "approved", userID := some "user-1"
        approvedDurationHours := some 1, verificationURI := "" })
  | .credential id => some (s.findCredential id)
  | .activeCredential username => some (s.findActive username)
  | .activateCredential _ _ _ => some (.ok ())
  | .authorizeUser _ => some (some aliceDecision)
  | question => aliceReplies typed 0 s question

/-- Login `i` enrolls a credential, up to the prompt for it. -/
def enrolling (i : ℕ) (key : UInt8) : List (Turn Store Reply Login) :=
  [.start ⟨aliceRequest, 0⟩, .answer i (enrollReplies "persistent" key)] ++
    List.replicate 8 (.answer i (enrollReplies "1" key))

/-- Alice signs in online, and login 1 enrolls a credential; then the script may
go on before the credential of `key` is pasted into login 1. -/
def pasting (between : List (Turn Store Reply Login)) (key : UInt8) :
    List (Turn Store Reply Login) :=
  .start ⟨aliceRequest, 1⟩ :: List.replicate 7 (.answer 0 (aliceReplies "online" 0)) ++
    enrolling 1 1 ++ between ++
    List.replicate 5 (.answer 1 (enrollReplies (keyedCredential key).string key))

def genuineCheck (bounds : Int × Int) (before : List (ℕ × Exchange Reply)) (i : ℕ)
    (exchange : Exchange Reply) : Bool :=
  match exchange with
  | ⟨.putPendingCredential cred, .ok ()⟩ => before.all fun event =>
    match event with
    | (_, ⟨.putPendingCredential other, .ok ()⟩) => other.id ≠ cred.id
    | _ => true
  | ⟨.promptSecret _ _, some token⟩ => (parseCredential token).all fun parsed =>
    (history before i).all fun said =>
      match said with
      | ⟨.createEnrollment request, some _⟩ => parsed.id = request.credentialID
      | _ => true
  | ⟨.pollEnrollment _, some state⟩ => state.approvedDurationHours.all fun hours =>
    bounds.1 ≤ hours && hours ≤ bounds.2
  | _ => true

theorem genuine_of_check {bounds : Int × Int} {before : List (ℕ × Exchange Reply)} {i : ℕ}
    {exchange : Exchange Reply} (checked : genuineCheck bounds before i exchange = true) :
    Genuine bounds before i exchange where
  fresh := by
    rintro cred rfl j other put
    simpa [genuineCheck] using List.all_eq_true.1 checked _ put
  own := by
    rintro text token parsed rfl parses request enrollment created
    simp only [genuineCheck, parses, Option.all_some] at checked
    simpa using List.all_eq_true.1 checked _ created
  bounded := by
    rintro id state hours rfl approved
    simpa [genuineCheck, approved] using checked

/-- Alice pastes the credential her only login enrolled. -/
theorem active_credentials_warranted_alice : ∃ daemon row, Daemon.Run enrollingDevice daemon ∧
    row ∈ daemon.shared.credentials ∧ row.state = .active ∧
    Warranted enrollingDevice.bounds daemon.log row := by
  have played : ((World.play enrollingDevice.serve storeAnswer { shared := {} } (pasting [] 1)).any
      fun daemon => daemon.shared.credentials.any (fun row => row.state = .active) &&
        (List.range daemon.log.length).all fun k => daemon.log[k]?.all fun event =>
          genuineCheck enrollingDevice.bounds (daemon.log.take k) event.1 event.2) = true := by
    decide +kernel
  obtain ⟨daemon, ends, checked⟩ := (Option.any_eq_true _ _).1 played
  obtain ⟨someActive, genuine⟩ := Bool.and_eq_true_iff.1 checked
  obtain ⟨row, held, active⟩ := List.any_eq_true.1 someActive
  have isActive : row.state = .active := by simpa using active
  have run : Daemon.Run enrollingDevice daemon := World.Run.play .start ends
  exact ⟨daemon, row, run, held, isActive, active_credentials_warranted (by decide) run
    (.of_check (fun _ _ _ => genuine_of_check) genuine) held isActive⟩

/-- The credential is created for login 2 only, and only login 1 polls its enrollment. -/
def otherLogin (id : String) (event : ℕ × Exchange Reply) : Bool :=
  match event with
  | (i, ⟨.createEnrollment request, some _⟩) => request.credentialID ≠ id || i = 2
  | (i, ⟨.pollEnrollment _, some _⟩) => i = 1
  | _ => true

/-- Login 2 enrolls another credential before login 1 is given one.  Pasted into
login 1, the second credential becomes active on the approval of the first. -/
theorem active_credential_unwarranted : ∃ daemon row, Daemon.Run enrollingDevice daemon ∧
    row ∈ daemon.shared.credentials ∧ row.state = .active ∧
    ¬Warranted enrollingDevice.bounds daemon.log row := by
  have played : ((World.play enrollingDevice.serve storeAnswer { shared := {} }
      (pasting (enrolling 2 2) 2)).any fun daemon => daemon.shared.credentials.any fun row =>
        row.state = .active && daemon.log.all (otherLogin row.id)) = true := by
    decide +kernel
  obtain ⟨daemon, ends, checked⟩ := (Option.any_eq_true _ _).1 played
  obtain ⟨row, held, properties⟩ := List.any_eq_true.1 checked
  obtain ⟨active, logged⟩ := Bool.and_eq_true_iff.1 properties
  refine ⟨daemon, row, World.Run.play .start ends, held, by simpa using active, ?_⟩
  rintro ⟨i, request, enrollment, state, -, created, named, polled, -⟩
  have second : i = 2 := by
    simpa [otherLogin, named] using List.all_eq_true.1 logged _ created
  have first : i = 1 := by simpa [otherLogin] using List.all_eq_true.1 logged _ polled
  omega

end HelixKit.Authd
