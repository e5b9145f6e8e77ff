/-
Purpose: The state database of `helix-authd` (`state.go`,
  `credential_store.go`) and the daemon: any number of attempts running over one
  database, with arbitrary clouds, users, clocks and random bytes.
Trusted boundary: none
-/
import HelixKit.Authd.Approval
import HelixKit.Authd.Challenge

namespace HelixKit.Authd

open HelixKit.Dialogue Program

/-- The tables `cached_users`, keyed by user name, and `credentials`, keyed by
id. -/
structure Store where
  users : List CachedUser := []
  credentials : List StoredCredential := []
deriving DecidableEq, Repr

namespace Store

/-- The row of `cached_users` for a user. -/
def userRow (user : CachedUser) : CachedUser :=
  { user with refreshedAt := user.refreshedAt.stored }

def withCachedUser (s : Store) (user : CachedUser) : Store :=
  { s with users := s.users.filter (fun row => row.username ≠ user.username) ++ [userRow user] }

def findUser (s : Store) (username : String) : Except StoreErr CachedUser :=
  match s.users.find? fun row => row.username = username with
  | some row => .ok row
  | none => .error .noCachedUser

/-- The row of a credential just enrolled. -/
def pendingRow (cred : StoredCredential) : StoredCredential :=
  { cred with state := .pending, createdAt := cred.createdAt.stored
              activatedAt := none, expiresAt := none }

/-- `PutPendingCredential`: the user's earlier enrollment is dropped with it, and
an id that is taken rolls both back. -/
def withPending (s : Store) (cred : StoredCredential) : Except StoreErr Store :=
  let kept := s.credentials.filter fun row =>
    ¬(row.username = cred.username ∧ row.state = .pending)
  if kept.any fun row => row.id = cred.id then .error .failed
  else .ok { s with credentials := kept ++ [pendingRow cred] }

def findCredential (s : Store) (id : String) : Except StoreErr StoredCredential :=
  match s.credentials.find? fun row => row.id = id with
  | some row => .ok row
  | none => .error .noCredential

def findActive (s : Store) (username : String) : Except StoreErr StoredCredential :=
  match s.credentials.find? fun row => row.username = username ∧ row.state = .active with
  | some row => .ok row
  | none => .error .noCredential

/-- What `ActivateCredential` does to one row. -/
def activateRow (username id : String) (now : Time) (lifetime : Duration)
    (row : StoredCredential) : StoredCredential :=
  if row.id = id then
    { row with state := .active, activatedAt := some now.stored
               expiresAt := some (now + lifetime).stored }
  else if row.username = username ∧ row.state = .active then { row with state := .revoked }
  else row

/-- The transaction of `ActivateCredential`. -/
def withActive (s : Store) (id : String) (now : Time) (lifetime : Duration) :
    Except StoreErr Store :=
  match s.findCredential id with
  | .error err => .error err
  | .ok row =>
    if row.state ≠ .pending then .error .credentialNotPending
    else .ok { s with credentials :=
      s.credentials.map (activateRow row.username id now lifetime) }

/-- `RevokeCredential` and `ExpireCredential`: a credential that can still be
used ends in a state. -/
def withEnded (s : Store) (id : String) (state : CredentialState) : Store :=
  { s with credentials := s.credentials.map fun row =>
      if row.id = id ∧ (row.state = .active ∨ row.state = .pending) then { row with state }
      else row }

/-- A transaction that reads: it gives what the tables hold, or fails. -/
def read {α : Type} [DecidableEq α] (s : Store) (held reply : Except StoreErr α) : Option Store :=
  match reply, held with
  | .ok row, .ok row' => if row = row' then some s else none
  | .error .failed, _ => some s
  | .error err, .error err' => if err = err' then some s else none
  | _, _ => none

/-- A transaction that writes: it commits, or fails and leaves the tables. -/
def write (s : Store) (held : Except StoreErr Store) (reply : Except StoreErr Unit) :
    Option Store :=
  match reply, held with
  | .ok _, .ok after => some after
  | .error .failed, _ => some s
  | .error err, .error err' => if err = err' then some s else none
  | _, _ => none

/-- The store after a reply, if it can give that reply.  The cloud, the user, the
clock and the random source are not the store's and may reply anything. -/
def answer (s : Store) : (question : Ask) → Reply question → Option Store
  | .putCachedUser user, reply => s.write (.ok (s.withCachedUser user)) reply
  | .cachedUser username, reply => s.read (s.findUser username) reply
  | .putPendingCredential cred, reply => s.write (s.withPending cred) reply
  | .activateCredential id now lifetime, reply => s.write (s.withActive id now lifetime) reply
  | .credential id, reply => s.read (s.findCredential id) reply
  | .activeCredential username, reply => s.read (s.findActive username) reply
  | .revokeCredential id, reply => s.write (.ok (s.withEnded id .revoked)) reply
  | .expireCredential id, reply => s.write (.ok (s.withEnded id .expired)) reply
  | .readRandom size, reply => if reply.all fun raw => raw.length = size then some s else none
  | _, _ => some s

variable {s : Store}

theorem read_eq {α : Type} [DecidableEq α] {after : Store} {held reply : Except StoreErr α}
    (answered : s.read held reply = some after) :
    after = s ∧ ∀ row, reply = .ok row → held = .ok row := by
  unfold read at answered
  split at answered
  next row row' =>
    split_ifs at answered with same
    subst same
    exact ⟨(Option.some.inj answered).symm, fun _ ok => ok⟩
  next => exact ⟨(Option.some.inj answered).symm, fun _ ok => nomatch ok⟩
  next =>
    split_ifs at answered
    exact ⟨(Option.some.inj answered).symm, fun _ ok => nomatch ok⟩
  next => cases answered

theorem write_eq {after : Store} {held : Except StoreErr Store} {reply : Except StoreErr Unit}
    (answered : s.write held reply = some after) :
    after = s ∨ reply = .ok () ∧ held = .ok after := by
  unfold write at answered
  split at answered
  next => exact .inr ⟨rfl, by simpa using answered⟩
  next => exact .inl (Option.some.inj answered).symm
  next =>
    split_ifs at answered
    exact .inl (Option.some.inj answered).symm
  next => cases answered

/-! ### Rows -/

variable {row : CachedUser}

theorem findUser_eq {username : String}
    (found : s.findUser username = .ok row) : row ∈ s.users ∧ row.username = username := by
  unfold findUser at found
  split at found
  next other search =>
    obtain rfl : other = row := by simpa using found
    exact ⟨List.mem_of_find?_eq_some search, by simpa using List.find?_some search⟩
  next => cases found

theorem mem_withCachedUser {user : CachedUser}
    (held : row ∈ (s.withCachedUser user).users) : row ∈ s.users ∨ row = userRow user := by
  rcases List.mem_append.1 held with old | new
  · exact .inl (List.mem_filter.1 old).1
  · exact .inr (List.mem_singleton.1 new)

theorem findCredential_eq {id : String} {row : StoredCredential}
    (found : s.findCredential id = .ok row) : row ∈ s.credentials ∧ row.id = id := by
  unfold findCredential at found
  split at found
  next other search =>
    obtain rfl : other = row := by simpa using found
    exact ⟨List.mem_of_find?_eq_some search, by simpa using List.find?_some search⟩
  next => cases found

/-- All a reply can do to the tables. -/
inductive Effect (s after : Store) (exchange : Exchange Reply) : Prop where
  | unchanged (same : after = s)
  | putUser (user : CachedUser) (said : exchange = ⟨.putCachedUser user, .ok ()⟩)
      (stored : after = s.withCachedUser user)
  | putPending (cred : StoredCredential) (said : exchange = ⟨.putPendingCredential cred, .ok ()⟩)
      (stored : s.withPending cred = .ok after)
  | activated (id : String) (now : Time) (lifetime : Duration)
      (said : exchange = ⟨.activateCredential id now lifetime, .ok ()⟩)
      (stored : s.withActive id now lifetime = .ok after)
  | ended (id : String) (state : CredentialState) (terminal : state = .revoked ∨ state = .expired)
      (stored : after = s.withEnded id state)

theorem answer_effect {after : Store} {question : Ask} {reply : Reply question}
    (answered : s.answer question reply = some after) : Effect s after ⟨question, reply⟩ := by
  cases question
  case putCachedUser user =>
    rcases write_eq answered with same | ⟨rfl, stored⟩
    · exact .unchanged same
    · exact .putUser user rfl (Except.ok.inj stored).symm
  case putPendingCredential cred =>
    rcases write_eq answered with same | ⟨rfl, stored⟩
    · exact .unchanged same
    · exact .putPending cred rfl stored
  case activateCredential id now lifetime =>
    rcases write_eq answered with same | ⟨rfl, stored⟩
    · exact .unchanged same
    · exact .activated id now lifetime rfl stored
  case revokeCredential id =>
    rcases write_eq answered with same | ⟨-, stored⟩
    · exact .unchanged same
    · exact .ended id .revoked (.inl rfl) (Except.ok.inj stored).symm
  case expireCredential id =>
    rcases write_eq answered with same | ⟨-, stored⟩
    · exact .unchanged same
    · exact .ended id .expired (.inr rfl) (Except.ok.inj stored).symm
  case cachedUser username => exact .unchanged (read_eq answered).1
  case credential id => exact .unchanged (read_eq answered).1
  case activeCredential username => exact .unchanged (read_eq answered).1
  case readRandom size =>
    simp only [answer] at answered
    split_ifs at answered
    exact .unchanged (Option.some.inj answered).symm
  all_goals exact .unchanged (Option.some.inj answered).symm

theorem withPending_eq {after : Store} {cred : StoredCredential}
    (stored : s.withPending cred = .ok after) : after.users = s.users ∧
      ∀ row ∈ after.credentials, row ∈ s.credentials ∨ row = pendingRow cred := by
  simp only [withPending] at stored
  split_ifs at stored
  obtain rfl := Except.ok.inj stored
  refine ⟨rfl, fun row held => ?_⟩
  rcases List.mem_append.1 held with old | new
  · exact .inl (List.mem_filter.1 old).1
  · exact .inr (List.mem_singleton.1 new)

theorem withActive_eq {after : Store} {id : String} {now : Time} {lifetime : Duration}
    (stored : s.withActive id now lifetime = .ok after) :
    ∃ held ∈ s.credentials, held.id = id ∧ held.state = .pending ∧ after =
      { s with credentials := s.credentials.map (activateRow held.username id now lifetime) } := by
  unfold withActive at stored
  split at stored
  next => cases stored
  next row found =>
    split_ifs at stored with isPending
    obtain ⟨held, named⟩ := findCredential_eq found
    exact ⟨row, held, named, not_not.1 isPending, (Except.ok.inj stored).symm⟩

/-- Rows of users come from `PutCachedUser` alone. -/
theorem Effect.users {after : Store} {exchange : Exchange Reply}
    (effect : Effect s after exchange) (held : row ∈ after.users) :
    row ∈ s.users ∨
      ∃ user, exchange = ⟨.putCachedUser user, .ok ()⟩ ∧ row = userRow user := by
  cases effect with
  | unchanged same => exact .inl (same ▸ held)
  | putUser user said stored =>
    subst stored
    rcases mem_withCachedUser held with old | new
    · exact .inl old
    · exact .inr ⟨user, said, new⟩
  | putPending cred said stored => exact .inl ((withPending_eq stored).1 ▸ held)
  | activated id now lifetime said stored =>
    obtain ⟨first, _, _, _, rfl⟩ := withActive_eq stored
    exact .inl held
  | ended id state terminal stored =>
    subst stored
    exact .inl held

/-- Rows of credentials come from `PutPendingCredential`, keep their id and the
duration asked for, and become active through `ActivateCredential` alone. -/
theorem Effect.credentials {after : Store} {exchange : Exchange Reply}
    (effect : Effect s after exchange) {row : StoredCredential} (held : row ∈ after.credentials) :
    (∃ cred, exchange = ⟨.putPendingCredential cred, .ok ()⟩ ∧ row = pendingRow cred) ∨
      ∃ old ∈ s.credentials, row.id = old.id ∧ row.durationSec = old.durationSec ∧
        (row.state = .active → row = old ∨ ∃ now lifetime,
          exchange = ⟨.activateCredential old.id now lifetime, .ok ()⟩ ∧
          row.activatedAt = some now.stored ∧ row.expiresAt = some (now + lifetime).stored) := by
  have kept : ∀ old ∈ s.credentials, row = old →
      ∃ old ∈ s.credentials, row.id = old.id ∧ row.durationSec = old.durationSec ∧
        (row.state = .active → row = old ∨ ∃ now lifetime,
          exchange = ⟨.activateCredential old.id now lifetime, .ok ()⟩ ∧
          row.activatedAt = some now.stored ∧ row.expiresAt = some (now + lifetime).stored) := by
    rintro old found rfl
    exact ⟨row, found, rfl, rfl, fun _ => .inl rfl⟩
  cases effect with
  | unchanged same => exact .inr (kept row (same ▸ held) rfl)
  | putUser user said stored =>
    subst stored
    exact .inr (kept row held rfl)
  | putPending cred said stored =>
    rcases (withPending_eq stored).2 row held with old | new
    · exact .inr (kept row old rfl)
    · exact .inl ⟨cred, said, new⟩
  | activated id now lifetime said stored =>
    obtain ⟨first, _, _, _, rfl⟩ := withActive_eq stored
    obtain ⟨old, found, rfl⟩ := List.mem_map.1 held
    refine .inr ⟨old, found, ?_⟩
    unfold activateRow
    split_ifs with named others
    · subst named
      exact ⟨rfl, rfl, fun _ => .inr ⟨now, lifetime, said, rfl, rfl⟩⟩
    · exact ⟨rfl, rfl, fun active => nomatch active⟩
    · exact ⟨rfl, rfl, fun _ => .inl rfl⟩
  | ended id state terminal stored =>
    subst stored
    obtain ⟨old, found, rfl⟩ := List.mem_map.1 held
    refine .inr ⟨old, found, ?_⟩
    split_ifs
    · refine ⟨rfl, rfl, fun active => ?_⟩
      rcases terminal with rfl | rfl <;> cases active
    · exact ⟨rfl, rfl, fun _ => .inl rfl⟩

end Store

/-! ### The daemon -/

/-- A login at the device; `rounds` cuts off its polling of the cloud. -/
structure Login where
  request : Request
  rounds : ℕ
deriving DecidableEq, Repr

/-- The database, every login so far, and all they asked and were told. -/
abbrev Daemon : Type := World Store Reply Login Outcome

/-- The bounds of the persistent method, where it is registered. -/
def MethodAuthenticator.bounds (a : MethodAuthenticator) : Int × Int :=
  (a.persistent.map PersistentAuthenticator.durationBounds).getD (0, 0)

def MethodAuthenticator.serve (a : MethodAuthenticator) (login : Login) : Dialog Outcome :=
  a.authenticate login.rounds login.request

/-- Any replies the database can give; every failure of it and everything else
is up to the environment. -/
def storeAnswer (_ : List (ℕ × Exchange Reply)) (s : Store) (_ : ℕ) (question : Ask)
    (reply : Reply question) : Option Store := s.answer question reply

/-- The runs of the daemon from an empty database. -/
abbrev Daemon.Run (a : MethodAuthenticator) : Daemon → Prop :=
  World.Run a.serve (.computed storeAnswer) {}

theorem OfflineAuthenticator.keeps (a : OfflineAuthenticator) {bounds : Int × Int}
    {req : Request} {past : History} :
    Guards (Keeps bounds req) (fun _ _ => True) past (a.authenticate req) := by
  rw [← List.append_nil past]
  apply OfflineAuthenticator.offline_guards.shift past
  · intro later question allowed
    cases question <;> first | exact allowed.elim | exact trivial
  · intro later outcome _
    trivial

/-- Every login keeps to what the cloud has said in it. -/
theorem MethodAuthenticator.serve_keeps (a : MethodAuthenticator) (login : Login) :
    Guards (Keeps a.bounds login.request) (fun _ _ => True) [] (a.serve login) := by
  unfold serve authenticate
  rw [guards_inquire_bind]
  refine ⟨trivial, fun reply => ?_⟩
  cases reply with
  | none => simp
  | some answer =>
    simp only
    split
    next => simp [Keeps]
    next method _ =>
      cases method with
      | online =>
        exact (online_guards a.online login.rounds).mono fun _ _ _ => trivial
      | offline =>
        simp only [implementation]
        cases a.offline with
        | none => simp [Keeps]
        | some offline => exact offline.keeps
      | persistent =>
        simp only [implementation, bounds]
        cases a.persistent with
        | none => simp [Keeps]
        | some persistent =>
          exact (PersistentAuthenticator.authenticate_guards persistent).mono
            fun _ _ _ => trivial

/-- A login whose user chose a method runs that method's authenticator. -/
theorem MethodAuthenticator.serve_reaches {a : MethodAuthenticator} {login : Login}
    {answer : String} {method : Method} {impl rest : Dialog Outcome} {past : History}
    (chose : parseMethod answer = some method)
    (registered : a.implementation login.rounds login.request method = some impl)
    (reaches : (a.serve login).Reaches
      (⟨.prompt "auth_method" methodPrompt, some answer⟩ :: past) rest) :
    impl.Reaches past rest := by
  have conversed := Reaches.of_inquire_bind reaches
  simp only [chose, registered] at conversed
  exact conversed

/-- A cached row was written earlier in the run, by a login. -/
theorem Daemon.cached_written {a : MethodAuthenticator} {daemon : Daemon}
    (run : Daemon.Run a daemon) {row : CachedUser} (held : row ∈ daemon.shared.users) :
    ∃ j user, (j, ⟨.putCachedUser user, .ok ()⟩) ∈ daemon.log ∧ row = Store.userRow user := by
  induction run with
  | start => simp at held
  | next earlier step ih =>
    cases step with
    | start => exact ih held
    | @answer i info question next reply after asking answered =>
      rcases (Store.answer_effect answered).users held with old | ⟨user, said, rfl⟩
      · obtain ⟨j, user, logged, written⟩ := ih old
        exact ⟨j, user, List.mem_append_left _ logged, written⟩
      · exact ⟨i, user, by simp [said], rfl⟩

/-- The replies when a line is typed, at a time, with the store working and the
cloud letting alice in. -/
def aliceReplies (typed : String) (now : Time) (s : Store) :
    (question : Ask) → Option (Reply question)
  | .startDeviceAuth => some (some
      { deviceCode := "code", userCode := "ABCD-EFGH", verificationURI := "https://helix-kit.com"
        verificationURIComplete := "", interval := 0 })
  | .pollDeviceAuth _ => some (some ⟨.approved, "token"⟩)
  | .authorizeSession _ => some (some aliceDecision)
  | .prompt _ _ => some (some typed)
  | .clock => some now
  | .putCachedUser _ => some (.ok ())
  | .cachedUser username => some (s.findUser username)
  | .readRandom _ => some (some [0x01, 0x23, 0x45, 0x67, 0x89])
  | .contextEnded => some false
  | _ => none

end HelixKit.Authd
