/-
Purpose: Offline logins over whole runs of the daemon: the row an offline
  attempt acts on was written by an earlier login the cloud allowed for the same
  account, and the attempt is sound exactly when the clock it checks the row's
  age by has not gone back behind the row.
Trusted boundary: none
Main exports: offline_login
-/
import HelixKit.Authd.Store

namespace HelixKit.Authd

open HelixKit.Dialogue Program World

/-- A login wrote the row after the cloud had decided, in that login, to let in
the account of the request. -/
def CloudConfirmed (log : List (ℕ × Exchange Reply)) (req : Request) (row : CachedUser) : Prop :=
  ∃ earlier j user later decision,
    log = earlier ++ (j, ⟨.putCachedUser user, .ok ()⟩) :: later ∧ row = Store.userRow user ∧
    Decided (history earlier j) decision ∧ decision.Admits req

variable {a : MethodAuthenticator} {daemon : Daemon}

/-- Whatever the cache gives out was written before. -/
theorem Daemon.reads_written (run : Daemon.Run a daemon) :
    Throughout (fun before _ exchange => ∀ username row,
      exchange = ⟨.cachedUser username, .ok row⟩ → row.username = username ∧
        ∃ j user, (j, ⟨.putCachedUser user, .ok ()⟩) ∈ before ∧ row = Store.userRow user)
      daemon.log := by
  induction run with
  | start => exact throughout_nil
  | next earlier step ih =>
    cases step with
    | start => exact ih
    | @answer i info question next reply after asking answered =>
      refine throughout_concat.2 ⟨ih, ?_⟩
      intro username row said
      cases said
      have found := (Store.read_eq answered).2 row rfl
      obtain ⟨held, named⟩ := Store.findUser_eq found
      exact ⟨named, Daemon.cached_written earlier held⟩

variable {req : Request} {row : CachedUser}

/-- A row read for the account of a request was confirmed by the cloud. -/
theorem Daemon.reads_confirmed (run : Daemon.Run a daemon)
    {before after : List (ℕ × Exchange Reply)} {i : ℕ}
    (read : daemon.log = before ++ (i, ⟨.cachedUser req.username, .ok row⟩) :: after)
    (sameUID : row.linuxUID = req.uid) : CloudConfirmed before req row := by
  obtain ⟨named, j, user, written, rfl⟩ := Daemon.reads_written run before i _ after read _ row rfl
  obtain ⟨earlier, later, rfl⟩ := List.append_of_mem written
  rw [List.append_assoc, List.cons_append] at read
  obtain ⟨attempt, -, remembered⟩ := World.Run.answered a.serve_keeps run read
  obtain ⟨decision, decided, admits⟩ := remembered.decision
  have username : attempt.info.request.username = req.username :=
    remembered.username.symm.trans named
  have linuxUID : attempt.info.request.uid = req.uid := remembered.linuxUID.symm.trans sameUID
  refine ⟨earlier, j, user, later, decision, rfl, rfl, decided, ?_⟩
  exact ⟨admits.allowed, admits.scope, username ▸ admits.username, linuxUID ▸ admits.linuxUID⟩

/-! ### One offline attempt -/

theorem sub_nonneg_iff (t u : Time) : 0 ≤ t.sub u ↔ u ≤ t := by
  have clamped (d : Int) : 0 ≤ max (-(2 ^ 63)) (min (2 ^ 63 - 1) d) ↔ 0 ≤ d := by omega
  exact (clamped (t - u)).trans Int.sub_nonneg

/-- The attempt of index `i` acts on this row: it is the requested user's, passes
every check with an age of at least zero, and the cloud stands behind it. -/
structure Usable (a : OfflineAuthenticator) (req : Request) (log : List (ℕ × Exchange Reply))
    (i : ℕ) (conversation : History) (row : CachedUser) (checkedAt : Time) : Prop where
  read : ∃ rest, conversation =
    ⟨.cachedUser req.username, .ok row⟩ :: ⟨.clock, checkedAt⟩ :: rest
  username : row.username = req.username
  eligible : Eligible a req row checkedAt
  notYetWritten : 0 ≤ checkedAt.sub row.refreshedAt
  confirmed : ∃ before after,
    log = before ++ (i, ⟨.cachedUser req.username, .ok row⟩) :: after ∧
    CloudConfirmed before req row

/-- The attempt prompts only on a usable row, and approves only on a usable row
and an answer to the challenge it drew. -/
structure OfflineSound (a : OfflineAuthenticator) (req : Request)
    (log : List (ℕ × Exchange Reply)) (i : ℕ) (conversation : History)
    (rest : Dialog Outcome) : Prop where
  shown : ∀ promptID text, Asked conversation rest (.prompt promptID text) →
    ∃ row checkedAt, Usable a req log i conversation row checkedAt
  approved : ∀ outcome, rest = .result outcome → outcome.status = .approved →
    ∃ row checkedAt, Usable a req log i conversation row checkedAt ∧
      Answered a req conversation row checkedAt

/-- What stands behind a challenge, once the clock is known not to have gone
back. -/
theorem Challenged.usable {offline : OfflineAuthenticator} {i : ℕ}
    {conversation past answers : History} {checkedAt deadline : Time}
    {expected : String} (challenged : Challenged offline req past row checkedAt expected deadline answers)
    (run : Daemon.Run a daemon) (said : past <+: conversation)
    (logged : ∀ exchange ∈ conversation, exchange ∈ history daemon.log i)
    (kept : ∀ more, conversation =
      ⟨.cachedUser req.username, .ok row⟩ :: ⟨.clock, checkedAt⟩ :: more →
      row.refreshedAt ≤ checkedAt) :
    Usable offline req daemon.log i conversation row checkedAt := by
  obtain ⟨raw, challenge, issuedAt, rfl, -⟩ := challenged.issued
  obtain ⟨more, rfl⟩ := said
  have read := mem_history.1 (logged ⟨.cachedUser req.username, .ok row⟩ (by simp))
  obtain ⟨before, after, split⟩ := List.append_of_mem read
  have named := (Daemon.reads_written run before i _ after split _ row rfl).1
  exact
    { read := ⟨_, rfl⟩
      username := named
      eligible := challenged.eligible
      notYetWritten := (sub_nonneg_iff _ _).2 (kept _ rfl)
      confirmed := ⟨before, after, split,
        Daemon.reads_confirmed run split challenged.eligible.linuxUID⟩ }

/-- In an attempt that shows a challenge, the clock read for the age of the row
is not behind the time the row was written with. -/
def ClockKept (conversation : History) (rest : Dialog Outcome) : Prop :=
  ∀ username row checkedAt more, conversation =
    ⟨.cachedUser username, .ok row⟩ :: ⟨.clock, checkedAt⟩ :: more →
    (∃ promptID text, Asked conversation rest (.prompt promptID text)) →
    row.refreshedAt ≤ checkedAt

theorem OfflineSound.clockKept {offline : OfflineAuthenticator}
    {log : List (ℕ × Exchange Reply)} {i : ℕ} {conversation : History} {rest : Dialog Outcome}
    (sound : OfflineSound offline req log i conversation rest) : ClockKept conversation rest := by
  rintro username row checkedAt more begins ⟨promptID, text, asked⟩
  obtain ⟨usedRow, usedAt, usable⟩ := sound.shown promptID text asked
  obtain ⟨others, read⟩ := usable.read
  rw [begins] at read
  obtain ⟨⟨rfl, sameRow⟩, rfl, -⟩ : (username = req.username ∧ row = usedRow) ∧
      checkedAt = usedAt ∧ more = others := by simpa using read
  subst sameRow
  exact (sub_nonneg_iff _ _).1 usable.notYetWritten

/-- An offline attempt is sound exactly when the clock was kept. -/
theorem offline_login {a : MethodAuthenticator} {offline : OfflineAuthenticator}
    (registered : a.offline = some offline) {daemon : Daemon} (run : Daemon.Run a daemon) {i : ℕ}
    {login : Login} {rest : Dialog Outcome}
    (attempt : daemon.attempts[i]? = some ⟨login, rest⟩) {answer : String}
    {conversation : History}
    (chose : history daemon.log i =
      ⟨.prompt "auth_method" methodPrompt, some answer⟩ :: conversation)
    (method : parseMethod answer = some .offline) :
    OfflineSound offline login.request daemon.log i conversation rest ↔
      ClockKept conversation rest := by
  have reaches : (offline.authenticate login.request).Reaches conversation rest := by
    have whole := run.reaches attempt
    rw [chose] at whole
    exact MethodAuthenticator.serve_reaches method
      (by simp [MethodAuthenticator.implementation, registered]) whole
  constructor
  · exact OfflineSound.clockKept
  · intro kept
    have guards : Guards (OfflineKeeps offline login.request) (OfflineEnds offline login.request) []
        (offline.authenticate login.request) := OfflineAuthenticator.offline_guards
    have logged : ∀ exchange ∈ conversation, exchange ∈ history daemon.log i := by
      intro exchange said
      rw [chose]
      exact List.mem_cons_of_mem _ said
    constructor
    · intro promptID text asked
      obtain ⟨past, said, row, checkedAt, expected, deadline, answers, challenged⟩ :=
        guards.asked reaches asked
      refine ⟨row, checkedAt, challenged.usable run said logged ?_⟩
      intro more begins
      exact kept _ row checkedAt more begins ⟨promptID, text, asked⟩
    · rintro outcome rfl approved
      have ends := guards.reaches reaches
      rw [List.nil_append, guards_result] at ends
      obtain ⟨row, checkedAt, answered⟩ := ends approved
      obtain ⟨expected, deadline, earlier, text, answer, now, challenged, -⟩ := answered.accepted
      refine ⟨row, checkedAt, challenged.usable run List.prefix_rfl logged ?_, answered⟩
      intro more begins
      apply kept _ row checkedAt more begins
      obtain ⟨raw, challenge, issuedAt, rfl, -⟩ := challenged.issued
      exact ⟨"offline_response", text, .inl ⟨some answer, by simp⟩⟩

/-! ### Two logins of alice -/

/-- A device with the offline method. -/
def aliceOffline : OfflineAuthenticator :=
  { hmac := fun _ _ => [0xa4, 0xdf, 0x8c, 0x2b, 0x86, 0xe8, 0x60, 0x24, 0x5f, 0xb1, 0xcc, 0x50, 0x00,
      0xc7, 0x91, 0x34, 0x63, 0x83, 0xa8, 0x71, 0x9e, 0xb2, 0xf9, 0x75, 0xd4, 0x0b, 0x30, 0x29,
      0xab, 0xc6, 0xad, 0x4c]
    secret := List.replicate 32 0x73
    verificationURI := "https://helix-kit.com/device/offline" }

def aliceDevice : MethodAuthenticator :=
  { online := {}, offline := some aliceOffline, persistent := none }

/-- Alice logs in online at one time and offline at another. -/
def aliceScript (onlineAt offlineAt : Time) : List (Turn Store Reply Login) :=
  .start ⟨aliceRequest, 1⟩ :: List.replicate 7 (.answer 0 (aliceReplies "online" onlineAt)) ++
  .start ⟨aliceRequest, 0⟩ :: .answer 1 (aliceReplies "offline" offlineAt) ::
    List.replicate 7 (.answer 1 (aliceReplies "wvr2-2l6g" offlineAt))

/-- Login 1 was approved in an offline conversation that began with the row and
the clock reading given. -/
def approvedOffline (daemon : Daemon) (row : CachedUser) (checkedAt : Time) : Bool :=
  daemon.attempts[1]?.any (fun attempt => attempt.info = ⟨aliceRequest, 0⟩ &&
    attempt.rest.value? = some approve) &&
  match history daemon.log 1 with
  | ⟨.prompt promptID text, some answer⟩ :: ⟨.cachedUser _, .ok read⟩ :: ⟨.clock, now⟩ :: rest =>
    promptID = "auth_method" && text = methodPrompt && answer = "offline" && read = row &&
    now = checkedAt && rest.any fun exchange => exchange.1.isPrompt
  | _ => false

theorem approvedOffline_eq {daemon : Daemon} {checkedAt : Time}
    (approved : approvedOffline daemon row checkedAt = true) :
    daemon.attempts[1]? = some ⟨⟨aliceRequest, 0⟩, .result approve⟩ ∧ ∃ username more,
      history daemon.log 1 = ⟨.prompt "auth_method" methodPrompt, some "offline"⟩ ::
        ⟨.cachedUser username, .ok row⟩ :: ⟨.clock, checkedAt⟩ :: more ∧
      ∃ promptID text reply, ⟨.prompt promptID text, reply⟩ ∈ more := by
  obtain ⟨attempted, conversed⟩ := Bool.and_eq_true_iff.1 approved
  obtain ⟨⟨info, rest⟩, attempt, ended⟩ := (Option.any_eq_true _ _).1 attempted
  simp only [Bool.and_eq_true, decide_eq_true_eq] at ended
  obtain ⟨rfl, ended⟩ := ended
  obtain rfl := value?_eq ended
  split at conversed
  next promptID text answer username read now more conversation =>
    simp only [Bool.and_eq_true, decide_eq_true_eq] at conversed
    obtain ⟨⟨⟨⟨⟨rfl, rfl⟩, rfl⟩, rfl⟩, rfl⟩, prompted⟩ := conversed
    refine ⟨attempt, username, more, conversation, ?_⟩
    obtain ⟨⟨question, reply⟩, said, isPrompt⟩ := List.any_eq_true.1 prompted
    cases question <;> simp only [Ask.isPrompt, Bool.false_eq_true] at isPrompt
    exact ⟨_, _, reply, said⟩
  next => cases conversed

theorem aliceScript_runs (onlineAt offlineAt : Time) (row : CachedUser) (checkedAt : Time)
    (played : ((World.play aliceDevice.serve storeAnswer { shared := {} }
      (aliceScript onlineAt offlineAt)).any
        fun daemon => approvedOffline daemon row checkedAt) = true) :
    ∃ daemon, Daemon.Run aliceDevice daemon ∧ approvedOffline daemon row checkedAt = true := by
  obtain ⟨daemon, ends, approved⟩ := (Option.any_eq_true _ _).1 played
  exact ⟨daemon, World.Run.play .start ends, approved⟩

/-- Alice's row, as the online login at a time leaves it. -/
def aliceRow (refreshedAt : Time) : CachedUser :=
  { userID := "user-1", username := "alice", linuxUID := 200001, scopes := [deviceLoginScope]
    policyVersion := 7, refreshedAt }

/-- An offline login an hour after an online one. -/
theorem offline_login_alice : ∃ daemon conversation, Daemon.Run aliceDevice daemon ∧
    daemon.attempts[1]? = some ⟨⟨aliceRequest, 0⟩, .result approve⟩ ∧
    OfflineSound aliceOffline aliceRequest daemon.log 1 conversation (.result approve) := by
  obtain ⟨daemon, run, approved⟩ := aliceScript_runs 0 hour (aliceRow 0) hour (by decide)
  obtain ⟨attempt, username, more, conversation, -⟩ := approvedOffline_eq approved
  refine ⟨daemon, _, run, attempt, (offline_login rfl run attempt conversation
    (by decide)).2 ?_⟩
  rintro name row checkedAt others begins -
  obtain ⟨⟨-, rfl⟩, rfl, -⟩ : (username = name ∧ aliceRow 0 = row) ∧ hour = checkedAt ∧
      more = others := by simpa using begins
  decide

/-- The clock goes back by a hundred hours between an online and an offline
login, and the offline one is let in. -/
theorem offline_login_after_clock_reset : ∃ daemon conversation, Daemon.Run aliceDevice daemon ∧
    daemon.attempts[1]? = some ⟨⟨aliceRequest, 0⟩, .result approve⟩ ∧
    history daemon.log 1 = ⟨.prompt "auth_method" methodPrompt, some "offline"⟩ :: conversation ∧
    ¬OfflineSound aliceOffline aliceRequest daemon.log 1 conversation (.result approve) := by
  obtain ⟨daemon, run, approved⟩ :=
    aliceScript_runs (100 * hour) 0 (aliceRow (100 * hour)) 0 (by decide)
  obtain ⟨attempt, username, more, conversation, promptID, text, reply, prompted⟩ :=
    approvedOffline_eq approved
  refine ⟨daemon, _, run, attempt, conversation, fun sound => ?_⟩
  have kept := sound.clockKept username (aliceRow (100 * hour)) 0 more rfl
    ⟨promptID, text, .inl ⟨reply, by simp [prompted]⟩⟩
  exact absurd kept (by decide)

end HelixKit.Authd
