/-
Purpose: The rows of the `credentials` table through any calls of the store, any of
  which may fail.
Trusted boundary: none
Main exports: credentials_sound
-/
import HelixKit.Authd.Store
import HelixKit.Lib.Runs
import Mathlib.Data.List.Nodup

namespace HelixKit.Authd.CredentialStore

open HelixKit.Runs

/-- `PurgeStalePending` -/
def withoutStale (s : Store) (olderThan : Time) : Store :=
  { s with credentials := s.credentials.filter fun row =>
      ¬(row.state = .pending ∧
        row.createdAt / nanosecondsPerSecond < olderThan / nanosecondsPerSecond) }

/-- The calls of the store. `fails` says whether a statement or the commit fails, which rolls the
transaction back, and `readFails` whether the read after the activation does. -/
inductive Call where
  | putPendingCredential (cred : StoredCredential) (fails : Bool)
  | activateCredential (id : String) (now : Time) (lifetime : Duration) (fails readFails : Bool)
  | revokeCredential (id : String) (fails : Bool)
  | expireCredential (id : String) (fails : Bool)
  | purgeStalePending (olderThan : Time) (fails : Bool)
deriving Repr, DecidableEq

/-- What a transaction leaves, if it can commit. -/
def transaction (fails : Bool) (held : Except StoreErr Store) : Except StoreErr Store :=
  if fails then .error .failed else held

/-- The call that is one transaction. -/
def single (s : Store) (fails : Bool) (held : Except StoreErr Store) :
    Store × Except StoreErr (Option StoredCredential) :=
  match transaction fails held with
  | .ok after => (after, .ok none)
  | .error err => (s, .error err)

/-- The store after a call, and what the call returns. -/
def Call.run (s : Store) : Call → Store × Except StoreErr (Option StoredCredential)
  | .putPendingCredential cred fails => single s fails (s.withPending cred)
  | .activateCredential id now lifetime fails readFails =>
    match transaction fails (s.withActive id now lifetime) with
    | .error err => (s, .error err)
    | .ok after =>
      if readFails then (after, .error .failed)
      else (after, (after.findCredential id).map some)
  | .revokeCredential id fails => single s fails (.ok (s.withEnded id .revoked))
  | .expireCredential id fails => single s fails (.ok (s.withEnded id .expired))
  | .purgeStalePending olderThan fails => single s fails (.ok (withoutStale s olderThan))

def step (s : Store) (call : Call) : Store := (call.run s).1

/-- The ids are a key, and two rows of a user are not both active, nor both pending. -/
structure Disciplined (s : Store) : Prop where
  keyed : (s.credentials.map StoredCredential.id).Nodup
  active : ∀ row ∈ s.credentials, ∀ other ∈ s.credentials, row.username = other.username →
    row.state = .active → other.state = .active → row = other
  pending : ∀ row ∈ s.credentials, ∀ other ∈ s.credentials, row.username = other.username →
    row.state = .pending → other.state = .pending → row = other

/-- The credential ran out of time, or was withdrawn. -/
def Terminal (row : StoredCredential) : Prop :=
  row.state = .expired ∨ row.state = .revoked

/-- What every call should do: it leaves one active and one pending row a user at most, it keeps
the rows that are terminal as they are, and if it returns an error it keeps them all. -/
structure Sound (s : Store) (call : Call) : Prop where
  disciplined : Disciplined (call.run s).1
  terminal : ∀ row ∈ s.credentials, Terminal row → row ∈ (call.run s).1.credentials
  unchanged : ∀ err, (call.run s).2 = .error err → (call.run s).1.credentials = s.credentials

/-- The read that follows a committed activation does not fail. -/
def ReadBack (s : Store) : Call → Prop
  | .activateCredential id now lifetime fails readFails =>
    readFails = true → fails = true ∨ ∀ after, s.withActive id now lifetime ≠ .ok after
  | _ => True

/-! ## What the transactions keep -/

/-- Rows with one id are one row. -/
theorem Disciplined.same {s : Store} (disciplined : Disciplined s) {row other : StoredCredential}
    (held : row ∈ s.credentials) (found : other ∈ s.credentials) (same : row.id = other.id) :
    row = other :=
  List.inj_on_of_nodup_map disciplined.keyed held found same

theorem Disciplined.start : Disciplined {} := by
  constructor
  · exact List.nodup_nil
  · simp
  · simp

/-- Some rows are taken out. -/
theorem Disciplined.filter {s : Store} (disciplined : Disciplined s)
    (keep : StoredCredential → Bool) :
    Disciplined { s with credentials := s.credentials.filter keep } := by
  constructor
  · exact disciplined.keyed.sublist (List.filter_sublist.map _)
  · intro row held other found
    exact disciplined.active row (List.mem_filter.mp held).1 other (List.mem_filter.mp found).1
  · intro row held other found
    exact disciplined.pending row (List.mem_filter.mp held).1 other (List.mem_filter.mp found).1

theorem Disciplined.withPending {s after : Store} (disciplined : Disciplined s)
    {cred : StoredCredential} (stored : s.withPending cred = .ok after) : Disciplined after := by
  simp only [Store.withPending] at stored
  split at stored
  · cases stored
  next free =>
    obtain rfl := Except.ok.inj stored
    have kept := disciplined.filter fun row =>
      decide ¬(row.username = cred.username ∧ row.state = .pending)
    have pending : (Store.pendingRow cred).state = .pending := rfl
    constructor
    · rw [List.map_append, List.nodup_append]
      refine ⟨kept.keyed, List.nodup_singleton _, ?_⟩
      intro id member other new same
      obtain ⟨row, held, rfl⟩ := List.mem_map.mp member
      rw [List.map_singleton, List.mem_singleton] at new
      apply free
      rw [List.any_eq_true]
      exact ⟨row, held, decide_eq_true (same.trans new)⟩
    · intro row held other found same rowActive otherActive
      rcases List.mem_append.mp held with old | new
      · rcases List.mem_append.mp found with older | newer
        · exact kept.active row old other older same rowActive otherActive
        · rw [List.mem_singleton.mp newer, pending] at otherActive
          cases otherActive
      · rw [List.mem_singleton.mp new, pending] at rowActive
        cases rowActive
    · intro row held other found same rowPending otherPending
      have gone : ∀ row ∈ s.credentials.filter fun row =>
          decide ¬(row.username = cred.username ∧ row.state = .pending),
          row.username = cred.username → row.state ≠ .pending := by
        intro row inside named isPending
        have out := of_decide_eq_true (List.mem_filter.mp inside).2
        exact out ⟨named, isPending⟩
      rcases List.mem_append.mp held with old | new
      · rcases List.mem_append.mp found with older | newer
        · exact kept.pending row old other older same rowPending otherPending
        · rw [List.mem_singleton.mp newer] at same
          exact absurd rowPending (gone row old same)
      · rcases List.mem_append.mp found with older | newer
        · rw [List.mem_singleton.mp new] at same
          exact absurd otherPending (gone other older same.symm)
        · rw [List.mem_singleton.mp new, List.mem_singleton.mp newer]

/-- A change of the rows that makes none active or pending but one that it turns active. -/
theorem Disciplined.map {s : Store} (disciplined : Disciplined s)
    {change : StoredCredential → StoredCredential} (ids : ∀ row, (change row).id = row.id)
    (names : ∀ row, (change row).username = row.username)
    (pending : ∀ row ∈ s.credentials, (change row).state = .pending → change row = row)
    (active : ∀ row ∈ s.credentials, ∀ other ∈ s.credentials, row.username = other.username →
      (change row).state = .active → (change other).state = .active → row = other) :
    Disciplined { s with credentials := s.credentials.map change } := by
  constructor
  · have same : (s.credentials.map change).map StoredCredential.id =
        s.credentials.map StoredCredential.id := by
      rw [List.map_map]
      exact List.map_congr_left fun row _ => ids row
    rw [same]
    exact disciplined.keyed
  · intro row held other found same rowActive otherActive
    obtain ⟨first, inside, rfl⟩ := List.mem_map.mp held
    obtain ⟨second, within, rfl⟩ := List.mem_map.mp found
    rw [names, names] at same
    rw [active first inside second within same rowActive otherActive]
  · intro row held other found same rowPending otherPending
    obtain ⟨first, inside, rfl⟩ := List.mem_map.mp held
    obtain ⟨second, within, rfl⟩ := List.mem_map.mp found
    rw [names, names] at same
    have left := pending first inside rowPending
    have right := pending second within otherPending
    rw [left] at rowPending
    rw [right] at otherPending
    rw [disciplined.pending first inside second within same rowPending otherPending]

section Activate

variable (username id : String) (now : Time) (lifetime : Duration) (row : StoredCredential)

theorem activateRow_id : (Store.activateRow username id now lifetime row).id = row.id := by
  unfold Store.activateRow
  split_ifs <;> rfl

theorem activateRow_username :
    (Store.activateRow username id now lifetime row).username = row.username := by
  unfold Store.activateRow
  split_ifs <;> rfl

/-- An active row is the one that was activated, or a row of another user. -/
theorem activateRow_active (active : (Store.activateRow username id now lifetime row).state = .active) :
    row.id = id ∨ row.id ≠ id ∧ row.username ≠ username ∧ row.state = .active := by
  unfold Store.activateRow at active
  split_ifs at active with named others
  · exact .inl named
  · exact .inr ⟨named, fun same => others ⟨same, active⟩, active⟩

theorem activateRow_eq (other : row.id ≠ id) (inactive : row.state ≠ .active) :
    Store.activateRow username id now lifetime row = row := by
  unfold Store.activateRow
  rw [if_neg other, if_neg fun both => inactive both.2]

theorem activateRow_pending
    (pending : (Store.activateRow username id now lifetime row).state = .pending) :
    Store.activateRow username id now lifetime row = row := by
  unfold Store.activateRow at pending ⊢
  split_ifs at pending ⊢
  · rfl

end Activate

theorem Disciplined.withActive {s after : Store} (disciplined : Disciplined s) {id : String}
    {now : Time} {lifetime : Duration} (stored : s.withActive id now lifetime = .ok after) :
    Disciplined after := by
  obtain ⟨held, inside, rfl, -, rfl⟩ := Store.withActive_eq stored
  apply disciplined.map
  · exact activateRow_id _ _ _ _
  · exact activateRow_username _ _ _ _
  · intro row _ pending
    exact activateRow_pending _ _ _ _ row pending
  · intro row first other second same rowActive otherActive
    rcases activateRow_active _ _ _ _ row rowActive with named | ⟨-, apart, isActive⟩
    · rcases activateRow_active _ _ _ _ other otherActive with also | ⟨-, apart, -⟩
      · exact disciplined.same first second (named.trans also.symm)
      · have owner := disciplined.same first inside named
        rw [owner] at same
        exact absurd same.symm apart
    · rcases activateRow_active _ _ _ _ other otherActive with named | ⟨-, -, alsoActive⟩
      · have owner := disciplined.same second inside named
        rw [owner] at same
        exact absurd same apart
      · exact disciplined.active row first other second same isActive alsoActive

theorem Disciplined.withEnded {s : Store} (disciplined : Disciplined s) (id : String)
    {state : CredentialState} (ends : state = .revoked ∨ state = .expired) :
    Disciplined (s.withEnded id state) := by
  have kept : ∀ row : StoredCredential,
      (if row.id = id ∧ (row.state = .active ∨ row.state = .pending) then { row with state }
        else row).state = .active ∨
      (if row.id = id ∧ (row.state = .active ∨ row.state = .pending) then { row with state }
        else row).state = .pending →
      (if row.id = id ∧ (row.state = .active ∨ row.state = .pending) then { row with state }
        else row) = row := by
    intro row usable
    split_ifs at usable ⊢
    · rcases ends with rfl | rfl <;> simp at usable
    · rfl
  apply disciplined.map
  · intro row
    split_ifs <;> rfl
  · intro row
    split_ifs <;> rfl
  · intro row _ pending
    exact kept row (.inr pending)
  · intro row first other second same rowActive otherActive
    rw [kept row (.inl rowActive)] at rowActive
    rw [kept other (.inl otherActive)] at otherActive
    exact disciplined.active row first other second same rowActive otherActive

/-! ## What the calls do -/

theorem Terminal.not_pending {row : StoredCredential} (terminal : Terminal row) :
    row.state ≠ .pending := by
  rcases terminal with expired | revoked
  · simp [expired]
  · simp [revoked]

theorem Terminal.not_active {row : StoredCredential} (terminal : Terminal row) :
    row.state ≠ .active := by
  rcases terminal with expired | revoked
  · simp [expired]
  · simp [revoked]

theorem transaction_ok {fails : Bool} {held : Except StoreErr Store} {after : Store}
    (committed : transaction fails held = .ok after) : fails ≠ true ∧ held = .ok after := by
  unfold transaction at committed
  split_ifs at committed with failing
  exact ⟨failing, committed⟩

/-- A transaction that does not commit has failed or cannot. -/
theorem transaction_error {fails : Bool} {held : Except StoreErr Store} {err : StoreErr}
    (refused : transaction fails held = .error err) : fails = true ∨ ∀ after, held ≠ .ok after := by
  unfold transaction at refused
  split_ifs at refused with failing
  · exact .inl failing
  · right
    intro after stored
    rw [stored] at refused
    cases refused

/-- A call of one transaction: what it commits keeps the terminal rows, and an error the tables. -/
theorem single_sound {s : Store} (disciplined : Disciplined s) (fails : Bool)
    {held : Except StoreErr Store}
    (keeps : ∀ after, held = .ok after → Disciplined after ∧
      ∀ row ∈ s.credentials, Terminal row → row ∈ after.credentials) :
    Disciplined (single s fails held).1 ∧
      (∀ row ∈ s.credentials, Terminal row → row ∈ (single s fails held).1.credentials) ∧
      ∀ err, (single s fails held).2 = .error err →
        (single s fails held).1.credentials = s.credentials := by
  simp only [single]
  cases result : transaction fails held with
  | error err => exact ⟨disciplined, fun row inside _ => inside, fun _ _ => rfl⟩
  | ok after =>
    obtain ⟨left, terminal⟩ := keeps after (transaction_ok result).2
    refine ⟨left, terminal, ?_⟩
    intro err failed
    cases failed

theorem withPending_terminal {s after : Store} {cred : StoredCredential}
    (stored : s.withPending cred = .ok after) :
    ∀ row ∈ s.credentials, Terminal row → row ∈ after.credentials := by
  intro row inside terminal
  simp only [Store.withPending] at stored
  split at stored
  · cases stored
  · obtain rfl := Except.ok.inj stored
    apply List.mem_append_left
    apply List.mem_filter.mpr
    exact ⟨inside, decide_eq_true fun both => terminal.not_pending both.2⟩

theorem withActive_terminal {s after : Store} (disciplined : Disciplined s) {id : String}
    {now : Time} {lifetime : Duration} (stored : s.withActive id now lifetime = .ok after) :
    ∀ row ∈ s.credentials, Terminal row → row ∈ after.credentials := by
  intro row inside terminal
  obtain ⟨held, found, rfl, pending, rfl⟩ := Store.withActive_eq stored
  have other : row.id ≠ held.id := by
    intro same
    rw [disciplined.same inside found same] at terminal
    exact terminal.not_pending pending
  apply List.mem_map.mpr
  exact ⟨row, inside, activateRow_eq _ _ _ _ row other terminal.not_active⟩

theorem withEnded_terminal (s : Store) (id : String) (state : CredentialState) :
    ∀ row ∈ s.credentials, Terminal row → row ∈ (s.withEnded id state).credentials := by
  intro row inside terminal
  apply List.mem_map.mpr
  refine ⟨row, inside, if_neg ?_⟩
  rintro ⟨-, active | pending⟩
  · exact terminal.not_active active
  · exact terminal.not_pending pending

theorem withoutStale_terminal (s : Store) (olderThan : Time) :
    ∀ row ∈ s.credentials, Terminal row → row ∈ (withoutStale s olderThan).credentials := by
  intro row inside terminal
  apply List.mem_filter.mpr
  exact ⟨inside, decide_eq_true fun both => terminal.not_pending both.1⟩

/-- The row that was activated can be read. -/
theorem withActive_found {s after : Store} {id : String} {now : Time} {lifetime : Duration}
    (stored : s.withActive id now lifetime = .ok after) :
    ∃ row, after.findCredential id = .ok row := by
  obtain ⟨held, found, named, -, rfl⟩ := Store.withActive_eq stored
  cases search : (s.credentials.map (Store.activateRow held.username id now lifetime)).find?
      (fun row => row.id = id) with
  | some row => exact ⟨row, by simp only [Store.findCredential, search]⟩
  | none =>
    have absent := List.find?_eq_none.mp search _ (List.mem_map_of_mem found)
    rw [activateRow_id] at absent
    exact absurd (decide_eq_true named) absent

/-- An activation changes the row that was pending. -/
theorem withActive_changes {s after : Store} {id : String} {now : Time} {lifetime : Duration}
    (stored : s.withActive id now lifetime = .ok after) : after.credentials ≠ s.credentials := by
  obtain ⟨held, found, named, pending, rfl⟩ := Store.withActive_eq stored
  intro same
  have inside : held ∈ s.credentials.map (Store.activateRow held.username id now lifetime) := by
    simp only at same
    rw [same]
    exact found
  obtain ⟨row, -, changed⟩ := List.mem_map.mp inside
  have state := congrArg StoredCredential.state changed
  have ids := congrArg StoredCredential.id changed
  rw [activateRow_id, named] at ids
  rw [Store.activateRow, if_pos ids, pending] at state
  cases state

section Activation

variable {s : Store} {id : String} {now : Time} {lifetime : Duration} {fails readFails : Bool}

/-- The rows of an activation that does not commit stay. -/
theorem activate_rolled (disciplined : Disciplined s) {err : StoreErr}
    (refused : transaction fails (s.withActive id now lifetime) = .error err) :
    Sound s (.activateCredential id now lifetime fails readFails) := by
  have ran : Call.run s (.activateCredential id now lifetime fails readFails) =
      (s, .error err) := by
    simp only [Call.run, refused]
  constructor
  · rw [ran]
    exact disciplined
  · rw [ran]
    exact fun row inside _ => inside
  · rw [ran]
    exact fun _ _ => rfl

/-- An activation that has committed returns an error if its read fails. -/
theorem activate_unread {after : Store}
    (committed : transaction fails (s.withActive id now lifetime) = .ok after) :
    ¬Sound s (.activateCredential id now lifetime fails true) := by
  have ran : Call.run s (.activateCredential id now lifetime fails true) =
      (after, .error .failed) := by
    simp only [Call.run, committed, if_true]
  intro sound
  have same := sound.unchanged .failed (by rw [ran])
  rw [ran] at same
  exact withActive_changes (transaction_ok committed).2 same

theorem activate_read (disciplined : Disciplined s) {after : Store}
    (committed : transaction fails (s.withActive id now lifetime) = .ok after) :
    Sound s (.activateCredential id now lifetime fails false) := by
  have active := (transaction_ok committed).2
  obtain ⟨row, found⟩ := withActive_found active
  have ran : Call.run s (.activateCredential id now lifetime fails false) =
      (after, .ok (some row)) := by
    simp only [Call.run, committed, Bool.false_eq_true, if_false, found]
    rfl
  constructor
  · rw [ran]
    exact disciplined.withActive active
  · rw [ran]
    exact withActive_terminal disciplined active
  · rw [ran]
    intro err failed
    cases failed

/-- The activation is sound exactly if its read does not fail after it has committed. -/
theorem activate_sound (disciplined : Disciplined s) :
    Sound s (.activateCredential id now lifetime fails readFails) ↔
      ReadBack s (.activateCredential id now lifetime fails readFails) := by
  cases result : transaction fails (s.withActive id now lifetime) with
  | error err =>
    apply iff_of_true (activate_rolled disciplined result)
    exact fun _ => transaction_error result
  | ok after =>
    cases readFails with
    | true =>
      apply iff_of_false (activate_unread result)
      intro readBack
      obtain ⟨working, active⟩ := transaction_ok result
      rcases readBack rfl with failing | never
      · exact working failing
      · exact never after active
    | false =>
      apply iff_of_true (activate_read disciplined result)
      intro failing
      cases failing

end Activation

/-- In a disciplined store, each call is sound exactly if it is not an activation whose read fails
after it has committed. -/
theorem sound_iff {s : Store} (disciplined : Disciplined s) (call : Call) :
    Sound s call ↔ ReadBack s call := by
  cases call with
  | putPendingCredential cred fails =>
    obtain ⟨left, terminal, unchanged⟩ := single_sound disciplined fails
      fun after stored => ⟨disciplined.withPending stored, withPending_terminal stored⟩
    exact iff_of_true ⟨left, terminal, unchanged⟩ trivial
  | activateCredential id now lifetime fails readFails =>
    exact activate_sound disciplined
  | revokeCredential id fails =>
    have keeps : ∀ after : Store, (.ok (s.withEnded id .revoked) : Except StoreErr Store) = .ok after →
        Disciplined after ∧ ∀ row ∈ s.credentials, Terminal row → row ∈ after.credentials := by
      rintro after ⟨⟩
      exact ⟨disciplined.withEnded id (.inl rfl), withEnded_terminal s id .revoked⟩
    obtain ⟨left, terminal, unchanged⟩ := single_sound disciplined fails keeps
    exact iff_of_true ⟨left, terminal, unchanged⟩ trivial
  | expireCredential id fails =>
    have keeps : ∀ after : Store, (.ok (s.withEnded id .expired) : Except StoreErr Store) = .ok after →
        Disciplined after ∧ ∀ row ∈ s.credentials, Terminal row → row ∈ after.credentials := by
      rintro after ⟨⟩
      exact ⟨disciplined.withEnded id (.inr rfl), withEnded_terminal s id .expired⟩
    obtain ⟨left, terminal, unchanged⟩ := single_sound disciplined fails keeps
    exact iff_of_true ⟨left, terminal, unchanged⟩ trivial
  | purgeStalePending olderThan fails =>
    have keeps : ∀ after : Store, (.ok (withoutStale s olderThan) : Except StoreErr Store) = .ok after →
        Disciplined after ∧ ∀ row ∈ s.credentials, Terminal row → row ∈ after.credentials := by
      rintro after ⟨⟩
      exact ⟨disciplined.filter _, withoutStale_terminal s olderThan⟩
    obtain ⟨left, terminal, unchanged⟩ := single_sound disciplined fails keeps
    exact iff_of_true ⟨left, terminal, unchanged⟩ trivial

/-- Whatever fails, a call leaves the store disciplined. -/
theorem Disciplined.step {s : Store} (disciplined : Disciplined s) (call : Call) :
    Disciplined (step s call) := by
  cases call with
  | activateCredential id now lifetime fails readFails =>
    simp only [CredentialStore.step, Call.run]
    cases result : transaction fails (s.withActive id now lifetime) with
    | error err => exact disciplined
    | ok after =>
      have left := disciplined.withActive (transaction_ok result).2
      cases readFails with
      | true => exact left
      | false => exact left
  | putPendingCredential | revokeCredential | expireCredential | purgeStalePending =>
    refine Sound.disciplined ?_
    rw [sound_iff disciplined]
    trivial

/-- In every run of the store, every call is sound exactly if no read after a committed activation
fails. -/
theorem credentials_sound (calls : List Call) :
    Along step Sound {} calls ↔ Along step ReadBack {} calls := by
  have keeps : ∀ s call, Disciplined s → Disciplined (step s call) :=
    fun s call disciplined => disciplined.step call
  constructor
  · intro sound
    apply sound.always Disciplined _ _ Disciplined.start
    · intro s call disciplined _
      exact keeps s call disciplined
    · intro s call disciplined here
      exact (sound_iff disciplined call).mp here
  · intro readBack
    apply readBack.always Disciplined _ _ Disciplined.start
    · intro s call disciplined _
      exact keeps s call disciplined
    · intro s call disciplined here
      exact (sound_iff disciplined call).mpr here

/-- A credential just enrolled. -/
def enrolled : StoredCredential where
  id := "D7K4P9QX"
  username := "alice"
  userID := "user_alice"
  linuxUID := 200001
  verifier := "v"
  durationSec := 86400
  createdAt := 0

/-- Its activation is committed, and the read after it fails. -/
theorem activation_unread :
    ¬ ∀ calls : List Call, Along step Sound {} calls := by
  intro all
  obtain ⟨-, sound, -⟩ := all [.putPendingCredential enrolled false,
    .activateCredential "D7K4P9QX" 0 0 false true]
  have same := sound.unchanged .failed (by decide)
  revert same
  decide

end HelixKit.Authd.CredentialStore
