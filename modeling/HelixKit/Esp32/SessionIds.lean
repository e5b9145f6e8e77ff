/-
Purpose: Which session a message of the file service reaches, with ids that are counted in 16 bits
  and read from JSON numbers.
Trusted boundary: none
Main exports: addressed_iff
-/
import HelixKit.Esp32.FileCommits
import Mathlib.Data.Rat.Floor

namespace HelixKit.Esp32.FileService

open HelixKit.Runs

/-! ### Messages -/

/-- The `valuedouble` of a JSON number, which is infinite when the number is too large. -/
inductive Double where
  | finite (value : ℚ)
  | infinite (negative : Bool)
deriving DecidableEq

/-- The unsigned integer that a double is converted to. C leaves open what becomes of one that is
too large, so that `overflow` says it. -/
def toUInt32 (overflow : Double → UInt32) : Double → UInt32
  | .finite value =>
    if ⌊value⌋ < 2 ^ 32 then UInt32.ofNat ⌊value⌋.toNat else overflow (.finite value)
  | .infinite negative => overflow (.infinite negative)

def Double.negative : Double → Bool
  | .finite value => decide (value < 0)
  | .infinite negative => negative

/-- `none` is a member that is missing, or no number, or negative. -/
def json_uint (overflow : Double → UInt32) (item : Option Double) : Option UInt32 :=
  item.bind fun value => if value.negative then none else some (toUInt32 overflow value)

/-- What clients send. The id of a chunk has 16 bits in its frame. -/
inductive Message where
  | start (dest : Option Text) (size : Option Double) (sha256 : Option Text) (opens : Bool)
  | chunk (session : UInt16) (offset : UInt32) (data : Bytes) (seeks : Bool) (written : Nat)
  | commit (session : Option Double) (sha256 : Option Text) (closes : Bool)
  | abort (session : Option Double)

def Message.op (overflow : Double → UInt32) : Message → Op
  | .start dest size sha256 opens => .start dest ((json_uint overflow size).getD 0) sha256 opens
  | .chunk session offset data seeks written => .chunk session offset data seeks written
  | .commit session sha256 closes => .commit (json_uint overflow session) sha256 closes
  | .abort session => .abort (json_uint overflow session)

/-- The message is about this id. -/
def Message.Names (id : UInt16) : Message → Prop
  | .start .. => False
  | .chunk session .. => session = id
  | .commit session .. | .abort session => session = some (.finite id.toNat)

/-! ### Who has which id -/

variable {File : Type} [DecidableEq File]

/-- The service, and the slot of the session that each id was last given for. -/
structure Given (File : Type) where
  service : Service File
  given : UInt16 → Option Nat := fun _ => none

variable (platform : Platform File) (overflow : Double → UInt32)

namespace Given

def step (s : Given File) (message : Message) : Given File :=
  let (service, answer) := handle platform s.service (message.op overflow)
  { service
    given := match answer with
      | .begun id => Function.update s.given id (s.service.alloc_session platform)
      | _ => s.given }

def start (storage : Storage File) : Given File := { service := { storage } }

variable (s : Given File)

/-- No two open sessions have one id. -/
def Distinct : Prop :=
  ∀ slot session slot' session', s.service.sessions slot = some session →
    s.service.sessions slot' = some session' → session.id = session'.id → slot = slot'

/-- The ids stay distinct, and a session that the message changes is the one that the id in the
message was given for. -/
structure Addressed (message : Message) : Prop where
  distinct : (s.step platform overflow message).Distinct
  named : ∀ slot session, s.service.sessions slot = some session →
    (s.step platform overflow message).service.sessions slot ≠ some session →
      message.Names session.id ∧ s.given session.id = some slot

/-- The id of the next session. -/
def nextId : UInt16 := if s.service.next_id = 0 then 1 else s.service.next_id

/-- A `begin` that opens a session. -/
def Begins (dest : Option Text) (sha256 : Option Text) (opens : Bool) : Prop :=
  (∃ name, dest = some name ∧ (fsPath name).isSome = true) ∧ sha256.all (·.length = shaHexLen) ∧
    opens = true ∧ (s.service.alloc_session platform).isSome = true

/-- The number names an id as it stands, or none that is open. -/
def Exact (session : Option Double) : Prop :=
  (∃ id : UInt16, session = some (.finite id.toNat)) ∨
    ∀ id, json_uint overflow session = some id →
      s.service.find_session platform id.toUInt16 = none

/-- The next id is free when a session begins, and ids in messages are whole numbers below 2^16
unless they come to no open session. -/
def InTime : Message → Prop
  | .start dest _ sha256 opens => s.Begins platform dest sha256 opens →
      ∀ slot session, s.service.sessions slot = some session → session.id ≠ s.nextId
  | .chunk .. => True
  | .commit session .. | .abort session => s.Exact platform overflow session

/-- Each open session is the one that its id was last given for. -/
def Own : Prop :=
  ∀ slot session, s.service.sessions slot = some session → s.given session.id = some slot

end Given

/-! ### What each message does to the sessions -/

section Sessions

variable (platform : Platform File) (s : Service File)

omit [DecidableEq File] in
theorem find_session_some {id : UInt16} {slot : Nat}
    (found : s.find_session platform id = some slot) :
    ∃ session, s.sessions slot = some session ∧ session.id = id := by
  have held := List.find?_some found
  cases there : s.sessions slot with
  | none => simp [there] at held
  | some session => exact ⟨session, rfl, by simpa [there] using held⟩

/-- A chunk changes one session, of its id, and not the id. -/
theorem chunk_sessions (id : UInt16) (offset : UInt32) (data : Bytes) (seeks : Bool)
    (written : Nat) :
    (file_service_ingest_chunk platform s id offset data seeks written).1.sessions = s.sessions ∨
      ∃ slot session after, s.sessions slot = some session ∧ session.id = id ∧ after.id = id ∧
        (file_service_ingest_chunk platform s id offset data seeks written).1.sessions =
          Function.update s.sessions slot (some after) := by
  unfold file_service_ingest_chunk
  cases found : s.find_session platform id with
  | none => exact .inl rfl
  | some slot =>
    obtain ⟨session, there, own⟩ := find_session_some _ _ found
    simp only [there]
    split
    · exact .inl rfl
    · right
      split
      next storage sink _ =>
        exact ⟨slot, session, { session with sink }, there, own, own, rfl⟩
      next storage sink _ =>
        exact ⟨slot, session,
          { session with
            sink
            sha := session.sha ++ data
            received := session.received + UInt32.ofNat data.length },
          there, own, own, rfl⟩

/-- A commit closes the session that its id comes to, whatever is answered. -/
theorem commit_sessions (session : Option UInt32) (sha256 : Option Text) (closes : Bool) :
    (handle_commit platform s session sha256 closes).1.sessions =
      match session.bind fun id => s.find_session platform id.toUInt16 with
      | none => s.sessions
      | some slot => Function.update s.sessions slot none := by
  cases session with
  | none => rfl
  | some id =>
    simp only [handle_commit, Option.bind_some]
    cases found : s.find_session platform id.toUInt16 with
    | none => rfl
    | some slot =>
      obtain ⟨session, there, -⟩ := find_session_some _ _ found
      simp only [there]
      split
      · rfl
      · split <;> rfl

theorem abort_sessions (session : Option UInt32) :
    (handle_abort platform s session).1.sessions =
      match session.bind fun id => s.find_session platform id.toUInt16 with
      | none => s.sessions
      | some slot => Function.update s.sessions slot none := by
  cases session with
  | none => rfl
  | some id =>
    simp only [handle_abort, Option.bind_some]
    cases found : s.find_session platform id.toUInt16 with
    | none => rfl
    | some slot =>
      obtain ⟨session, there, -⟩ := find_session_some _ _ found
      simp only [there]
      rfl

/-- What answers a chunk, a commit or an abort gives no id. -/
theorem given_handle (message : Message) (overflow : Double → UInt32) {id : UInt16}
    (begun : (handle platform s (message.op overflow)).2 = .begun id) :
    ∃ dest size sha256 opens, message = .start dest size sha256 opens := by
  cases message with
  | start dest size sha256 opens => exact ⟨dest, size, sha256, opens, rfl⟩
  | chunk =>
    simp only [Message.op, handle, file_service_ingest_chunk] at begun
    repeat' split at begun
    all_goals cases begun
  | commit =>
    simp only [Message.op, handle, handle_commit] at begun
    repeat' split at begun
    all_goals cases begun
  | abort =>
    simp only [Message.op, handle, handle_abort] at begun
    repeat' split at begun
    all_goals cases begun

end Sessions

namespace Given

variable (platform : Platform File) (overflow : Double → UInt32) {s : Given File}

variable {dest sha256 : Option Text}

/-- A `begin` that opens a session opens it in a free slot, and the answer gives its id. -/
theorem begins (size : Option Double) {opens : Bool} (goes : s.Begins platform dest sha256 opens) :
    ∃ slot session, s.service.alloc_session platform = some slot ∧ session.id = s.nextId ∧
      (s.step platform overflow (.start dest size sha256 opens)).service.sessions =
        Function.update s.service.sessions slot (some session) ∧
      (s.step platform overflow (.start dest size sha256 opens)).given =
        Function.update s.given s.nextId (some slot) := by
  obtain ⟨⟨name, rfl, path⟩, long, rfl, free⟩ := goes
  obtain ⟨path, found⟩ := Option.isSome_iff_exists.mp path
  obtain ⟨slot, free⟩ := Option.isSome_iff_exists.mp free
  have fits : ¬ sha256.any (·.length ≠ shaHexLen) = true := by
    cases sha256 with
    | none => simp
    | some text => simpa using long
  have begun : (handle_begin platform s.service (some name) ((json_uint overflow size).getD 0)
      sha256 true).2 = .begun s.nextId := by
    simp only [handle_begin, if_neg fits, free, open_sink, found, if_true]
    rfl
  refine ⟨slot,
    { id := s.nextId, sink := { file := platform.file path, fp := some 0 },
      declared_size := (json_uint overflow size).getD 0, expected_sha := sha256 },
    free, rfl, ?_, ?_⟩
  · simp only [step, handle, Message.op, handle_begin, if_neg fits, free, open_sink, found, if_true]
    rfl
  · simp only [step, handle, Message.op, begun, free]

/-- Otherwise nothing is opened. -/
theorem refused (size : Option Double) {opens : Bool}
    (stays : ¬ s.Begins platform dest sha256 opens) :
    (s.step platform overflow (.start dest size sha256 opens)).service.sessions =
        s.service.sessions ∧
      (s.step platform overflow (.start dest size sha256 opens)).given = s.given := by
  have fails : ∃ message, handle_begin platform s.service dest ((json_uint overflow size).getD 0)
      sha256 opens = (s.service, .fail message) := by
    unfold handle_begin
    cases dest with
    | none => exact ⟨_, rfl⟩
    | some name =>
      simp only
      split
      · exact ⟨_, rfl⟩
      next fits =>
        cases free : s.service.alloc_session platform with
        | none => exact ⟨_, rfl⟩
        | some slot =>
          simp only [open_sink]
          cases found : fsPath name with
          | none => exact ⟨_, rfl⟩
          | some path =>
            cases opens with
            | false => exact ⟨_, rfl⟩
            | true =>
              have long : sha256.all (·.length = shaHexLen) := by
                cases sha256 with
                | none => simp
                | some text => simpa using fits
              have goes : s.Begins platform (some name) sha256 true :=
                ⟨⟨name, rfl, found ▸ rfl⟩, long, rfl, free ▸ rfl⟩
              exact absurd goes stays
  obtain ⟨message, fails⟩ := fails
  simp [step, handle, Message.op, fails]

/-- Only `begin` gives ids. -/
theorem given_kept {message : Message}
    (later : ∀ dest size sha256 opens, message ≠ .start dest size sha256 opens) :
    (s.step platform overflow message).given = s.given := by
  unfold step
  simp only
  split
  next id begun =>
    obtain ⟨dest, size, sha256, opens, same⟩ :=
      given_handle platform s.service message overflow begun
    exact absurd same (later dest size sha256 opens)
  next => rfl

omit [DecidableEq File] in
/-- Sessions that their ids were given for are told apart by them. -/
theorem Own.distinct (own : s.Own) : s.Distinct := by
  intro slot session slot' session' there there' same
  have first := own slot session there
  rw [same, own slot' session' there'] at first
  exact (Option.some.inj first).symm

omit [DecidableEq File] in
/-- Sessions may close and change, as long as they keep their ids. -/
theorem Own.of_kept {after : Given File} (own : s.Own) (given : after.given = s.given)
    (kept : ∀ slot session, after.service.sessions slot = some session →
      ∃ old, s.service.sessions slot = some old ∧ old.id = session.id) : after.Own := by
  intro slot session there
  obtain ⟨old, before, same⟩ := kept slot session there
  rw [given, ← same]
  exact own slot old before

/-! ### Closing -/

/-- The slot that a number in a message comes to. -/
def target (s : Given File) (session : Option Double) : Option Nat :=
  (json_uint overflow session).bind fun id => s.service.find_session platform id.toUInt16

theorem json_uint_id (overflow : Double → UInt32) (id : UInt16) :
    json_uint overflow (some (.finite id.toNat)) = some id.toUInt32 := by
  have small : ((id.toNat : Nat) : Int) < 2 ^ 32 := by
    have bound := id.toNat_lt
    omega
  have positive : ¬ ((id.toNat : Nat) : ℚ) < 0 := not_lt.mpr (Nat.cast_nonneg _)
  have whole : ⌊((id.toNat : Nat) : ℚ)⌋ = id.toNat := Int.floor_natCast _
  simp only [json_uint, Option.bind_some, Double.negative, decide_eq_true_eq, if_neg positive,
    toUInt32, whole, if_pos small, Int.toNat_natCast]
  have bound : id.toNat < 2 ^ 32 := by omega
  have same : UInt32.ofNat id.toNat = id.toUInt32 :=
    UInt32.toNat_inj.mp ((UInt32.toNat_ofNat_of_lt bound).trans (UInt16.toNat_toUInt32 id).symm)
  rw [same]

omit [DecidableEq File] in
/-- A number is exact if it is the id of the session that it comes to. -/
theorem exact_iff {session : Option Double} :
    s.Exact platform overflow session ↔
      ∀ slot old, s.target platform overflow session = some slot →
        s.service.sessions slot = some old → session = some (.finite old.id.toNat) := by
  constructor
  · rintro (⟨id, rfl⟩ | missing) slot old reached there
    · rw [target, json_uint_id, Option.bind_some, UInt16.toUInt16_toUInt32] at reached
      obtain ⟨again, there', own⟩ := find_session_some _ _ reached
      cases there.symm.trans there'
      rw [own]
    · obtain ⟨id, read, found⟩ := Option.bind_eq_some_iff.mp reached
      rw [missing id read] at found
      cases found
  · intro named
    cases reached : s.target platform overflow session with
    | none =>
      refine .inr fun id read => ?_
      rw [target, read, Option.bind_some] at reached
      exact reached
    | some slot =>
      obtain ⟨id, -, found⟩ := Option.bind_eq_some_iff.mp reached
      obtain ⟨old, there, -⟩ := find_session_some _ _ found
      exact .inl ⟨old.id, named slot old reached there⟩

/-- The message closes what its number comes to. -/
theorem closing (own : s.Own) {session : Option Double} (message : Message)
    (names : ∀ id : UInt16, message.Names id ↔ session = some (.finite id.toNat))
    (given : (s.step platform overflow message).given = s.given)
    (closes : (s.step platform overflow message).service.sessions =
      match s.target platform overflow session with
      | none => s.service.sessions
      | some slot => Function.update s.service.sessions slot none) :
    (s.Addressed platform overflow message ↔ s.Exact platform overflow session) ∧
      (s.step platform overflow message).Own := by
  have kept : ∀ slot old, (s.step platform overflow message).service.sessions slot = some old →
      s.service.sessions slot = some old := by
    intro slot old there
    rw [closes] at there
    split at there
    · exact there
    next closed _ =>
      by_cases same : slot = closed
      · rw [same, Function.update_self] at there
        cases there
      · rwa [Function.update_of_ne same] at there
  have owned : (s.step platform overflow message).Own :=
    own.of_kept given fun slot old there => ⟨old, kept slot old there, rfl⟩
  refine ⟨?_, owned⟩
  rw [exact_iff]
  constructor
  · intro addressed slot old reached there
    have gone : (s.step platform overflow message).service.sessions slot ≠ some old := by
      rw [closes, reached]
      simp
    exact (names old.id).mp (addressed.named slot old there gone).1
  · intro exact_
    refine ⟨owned.distinct, fun slot old there gone => ⟨?_, own slot old there⟩⟩
    rw [closes] at gone
    split at gone
    · exact absurd there gone
    next closed reached =>
      by_cases same : slot = closed
      · exact (names old.id).mpr (exact_ slot old (same ▸ reached) there)
      · rw [Function.update_of_ne same] at gone
        exact absurd there gone

/-! ### Every message -/

/-- A session that begins has an id of its own exactly when the next id is free. -/
theorem begin_iff (own : s.Own) (size : Option Double)
    {opens : Bool} (goes : s.Begins platform dest sha256 opens) :
    (s.Addressed platform overflow (.start dest size sha256 opens) ↔
      ∀ slot session, s.service.sessions slot = some session → session.id ≠ s.nextId) ∧
    ((∀ slot session, s.service.sessions slot = some session → session.id ≠ s.nextId) →
      (s.step platform overflow (.start dest size sha256 opens)).Own) := by
  obtain ⟨slot, session, free, id, sessions, given⟩ := begins platform overflow size goes
  have empty := alloc_session_some free
  have other : ∀ slot' session', s.service.sessions slot' = some session' → slot' ≠ slot := by
    intro slot' session' there same
    rw [same, empty] at there
    cases there
  have owned : (∀ slot session, s.service.sessions slot = some session → session.id ≠ s.nextId) →
      (s.step platform overflow (.start dest size sha256 opens)).Own := by
    intro fresh slot' session' there
    rw [sessions] at there
    rw [given]
    by_cases same : slot' = slot
    · rw [same, Function.update_self] at there
      cases there
      rw [id, Function.update_self, same]
    · rw [Function.update_of_ne same] at there
      rw [Function.update_of_ne (fresh slot' session' there)]
      exact own slot' session' there
  refine ⟨⟨fun addressed slot' session' there taken => ?_, fun fresh => ?_⟩, owned⟩
  · have apart := other slot' session' there
    refine apart (addressed.distinct slot' session' slot session ?_ ?_ (taken.trans id.symm))
    · rw [sessions, Function.update_of_ne apart, there]
    · rw [sessions, Function.update_self]
  · refine ⟨(owned fresh).distinct, fun slot' session' there changed => ?_⟩
    rw [sessions, Function.update_of_ne (other slot' session' there)] at changed
    exact absurd there changed

/-- A chunk reaches the session of its id. -/
theorem chunk_addressed (own : s.Own) (id : UInt16) (offset : UInt32) (data : Bytes) (seeks : Bool)
    (written : Nat) :
    s.Addressed platform overflow (.chunk id offset data seeks written) ∧
      (s.step platform overflow (.chunk id offset data seeks written)).Own := by
  have given : (s.step platform overflow (.chunk id offset data seeks written)).given = s.given :=
    given_kept platform overflow fun _ _ _ _ => nofun
  have sessions :
      (s.step platform overflow (.chunk id offset data seeks written)).service.sessions =
      (file_service_ingest_chunk platform s.service id offset data seeks written).1.sessions := rfl
  rcases chunk_sessions platform s.service id offset data seeks written with
    same | ⟨slot, session, after, there, named, kept, same⟩
  · have owned := own.of_kept given fun slot old held =>
      ⟨old, by rwa [sessions, same] at held, rfl⟩
    refine ⟨⟨owned.distinct, fun slot old before changed => ?_⟩, owned⟩
    rw [sessions, same] at changed
    exact absurd before changed
  · have owned : (s.step platform overflow (.chunk id offset data seeks written)).Own := by
      refine own.of_kept given fun slot' old held => ?_
      rw [sessions, same] at held
      by_cases own_ : slot' = slot
      · rw [own_, Function.update_self] at held
        cases held
        exact ⟨session, own_ ▸ there, named.trans kept.symm⟩
      · rw [Function.update_of_ne own_] at held
        exact ⟨old, held, rfl⟩
    refine ⟨⟨owned.distinct, fun slot' old before changed => ?_⟩, owned⟩
    rw [sessions, same] at changed
    by_cases own_ : slot' = slot
    · rw [own_] at before
      cases before.symm.trans there
      exact ⟨named.symm, own_ ▸ own slot session there⟩
    · rw [Function.update_of_ne own_] at changed
      exact absurd before changed

/-- A message goes where its id belongs exactly when it is in time; and then the sessions still
are their ids' own. -/
theorem addressed_step (own : s.Own) (message : Message) :
    (s.Addressed platform overflow message ↔ s.InTime platform overflow message) ∧
      (s.InTime platform overflow message → (s.step platform overflow message).Own) := by
  cases message with
  | start dest size sha256 opens =>
    by_cases goes : s.Begins platform dest sha256 opens
    · obtain ⟨iff, owned⟩ := begin_iff platform overflow own size goes
      exact ⟨iff.trans ⟨fun fresh _ => fresh, fun fresh => fresh goes⟩, fun fresh =>
        owned (fresh goes)⟩
    · obtain ⟨sessions, given⟩ := refused platform overflow size goes
      have owned := own.of_kept given fun slot old held =>
        ⟨old, by rwa [sessions] at held, rfl⟩
      refine ⟨⟨fun _ begins => absurd begins goes, fun _ => ⟨owned.distinct, ?_⟩⟩, fun _ => owned⟩
      intro slot old before changed
      rw [sessions] at changed
      exact absurd before changed
  | chunk id offset data seeks written =>
    obtain ⟨addressed, owned⟩ := chunk_addressed platform overflow own id offset data seeks
      written
    exact ⟨⟨fun _ => trivial, fun _ => addressed⟩, fun _ => owned⟩
  | commit session sha256 closes =>
    obtain ⟨iff, owned⟩ := closing platform overflow own (.commit session sha256 closes)
      (fun _ => Iff.rfl) (given_kept platform overflow fun _ _ _ _ => nofun)
      (commit_sessions platform s.service _ sha256 closes)
    exact ⟨iff, fun _ => owned⟩
  | abort session =>
    obtain ⟨iff, owned⟩ := closing platform overflow own (.abort session) (fun _ => Iff.rfl)
      (given_kept platform overflow fun _ _ _ _ => nofun) (abort_sessions platform s.service _)
    exact ⟨iff, fun _ => owned⟩

omit [DecidableEq File] in
theorem own_start (storage : Storage File) : (start storage).Own := fun _ _ there => nomatch there

/-- In a run, every message goes where its id belongs exactly when every message is in time. -/
theorem addressed_iff (storage : Storage File) (messages : List Message) :
    (∀ before message after, messages = before ++ message :: after →
      (run (step platform overflow) (start storage) before).Addressed platform overflow message) ↔
    Along (step platform overflow) (InTime platform overflow) (start storage) messages := by
  rw [← along_iff_prefix]
  refine (Along.congr Own (fun s message own inTime => ?_) (fun s message own => ?_)
    (own_start storage)).symm
  · exact (addressed_step platform overflow own message).2 inTime
  · exact (addressed_step platform overflow own message).1.symm

end Given

/-- One session is open, with id 1. -/
def oneOpen : Given Text :=
  run (Given.step plain fun _ => 0) (Given.start fun _ => none)
    [.start (some ['f', 's', ':', 'a']) none none true]

/-- A message that names another id closes it. -/
theorem id_narrowed :
    (oneOpen.service.sessions 0).map Session.id = some 1 ∧
    (oneOpen.step plain (fun _ => 0) (.abort (some (.finite 65537)))).service.sessions 0 = none ∧
    ¬ oneOpen.Addressed plain (fun _ => 0) (.abort (some (.finite 65537))) := by
  have there : (oneOpen.service.sessions 0).map Session.id = some 1 := by decide
  have closed : (oneOpen.step plain (fun _ => 0)
      (.abort (some (.finite 65537)))).service.sessions 0 = none := by decide
  refine ⟨there, closed, fun addressed => ?_⟩
  obtain ⟨session, held, id⟩ := Option.map_eq_some_iff.mp there
  have named := (addressed.named 0 session held (by simp [closed])).1
  rw [id] at named
  have numbers := Double.finite.inj (Option.some.inj named)
  exact absurd numbers (by decide)

end HelixKit.Esp32.FileService
