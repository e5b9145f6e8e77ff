/-
Purpose: One session of `helix-authd`: the start frame, the conversation of the authenticator with
  the user, and the result frame (`internal/authd/session.go`).
Trusted boundary: none
Main exports: settled_iff
-/
import HelixKit.Authd.Codes
import HelixKit.Authproto.Conn

namespace HelixKit.Authd.Session

open HelixKit.GoJson HelixKit.Authproto

/-! ### Requests and outcomes -/

structure Request where
  requestID : Bytes
  username : Bytes
  pamService : Bytes
  rhost : Bytes
  deviceID : Bytes
  uid : UInt32
  gid : UInt32
  home : Bytes
  shell : Bytes
deriving DecidableEq

/-- What a name resolves to. -/
structure Identity where
  uid : UInt32
  gid : UInt32
  home : Bytes
  shell : Bytes

structure Outcome where
  status : Bytes := []
  reason : Bytes := []
deriving DecidableEq

def statusApproved : Bytes := asciiBytes "approved"
def statusDenied : Bytes := asciiBytes "denied"
def statusProtocolError : Bytes := asciiBytes "protocol_error"

def deny (reason : String) : Outcome := { status := statusDenied, reason := asciiBytes reason }

def protocolError (reason : String) : Outcome :=
  { status := statusProtocolError, reason := asciiBytes reason }

def protocolFailure : ReadError → Outcome
  | .eof => protocolError "client_disconnected"
  | .invalid (.badVersion _) => protocolError "unsupported_version"
  | .tooLarge => protocolError "message_too_large"
  | .failed | .malformed | .invalid _ => protocolError "malformed_message"

/-! ### Messages -/

def displayMessage (level text : Bytes) : Message := { type := typeDisplay, level, text }

def promptMessage (promptID text : Bytes) (secret : Bool) : Message :=
  { type := typePrompt, promptID, text, secret }

def resultMessage (outcome : Outcome) : Message :=
  { type := typeResult, status := outcome.status, reason := outcome.reason }

/-! ### The conversation -/

inductive ConvError where
  /-- `ctx.Err()` -/
  | cancelled
  | tooLarge
  /-- An error of the socket. -/
  | socket
  | read (error : ReadError)
  | unexpected (type : Bytes)
  | mismatched (promptID : Bytes)

/-- What an authenticator does next, and after each reply. -/
inductive Behaviour where
  | returns (outcome : Outcome)
  | display (level text : Bytes) (next : Except ConvError Unit → Behaviour)
  | ask (promptID text : Bytes) (secret : Bool) (next : Except ConvError Bytes → Behaviour)

/-- Whether the socket takes the frame with this number, and whether the context is cancelled when a
prompt is asked. -/
structure Surroundings where
  takes : Nat → Bool := fun _ => true
  cancelled : Nat → Bool := fun _ => false

/-- The answer to a prompt: the frame that was read with this number. -/
structure Answer where
  promptID : Bytes
  index : Nat
  frame : Message

/-- The connection: how often it was read from, the frames handed to the socket, and the prompts
asked and answered. -/
structure Wire where
  conn : Conn
  reads : Nat := 0
  handed : List Message := []
  asks : Nat := 0
  answers : List Answer := []

variable (around : Surroundings)

def Wire.write (w : Wire) (m : Message) : Wire × Except ConvError Unit :=
  match Authproto.write m with
  | .error .tooLarge => (w, .error .tooLarge)
  | .ok _ =>
    ({ w with handed := w.handed ++ [m.stamped] },
      if around.takes w.handed.length then .ok () else .error .socket)

def Wire.read (w : Wire) : Wire × Except ReadError Message :=
  ({ w with conn := w.conn.read.2, reads := w.reads + 1 }, w.conn.read.1)

def Wire.ask (w : Wire) (promptID text : Bytes) (secret : Bool) : Wire × Except ConvError Bytes :=
  let asked := { w with asks := w.asks + 1 }
  if around.cancelled w.asks then (asked, .error .cancelled)
  else
    match asked.write around (promptMessage promptID text secret) with
    | (w, .error error) => (w, .error error)
    | (w, .ok ()) =>
      match w.read with
      | (w, .error error) => (w, .error (.read error))
      | (after, .ok m) =>
        if m.type ≠ typePromptResponse then (after, .error (.unexpected m.type))
        else if m.promptID ≠ promptID then (after, .error (.mismatched m.promptID))
        else
          ({ after with answers := after.answers ++ [⟨promptID, w.reads, m⟩] }, .ok m.value)

/-- The authenticator has the conversation that it wants, and returns. -/
def authenticate : Behaviour → Wire → Wire × Outcome
  | .returns outcome, w => (w, outcome)
  | .display level text next, w =>
    let (w, reply) := w.write around (displayMessage level text)
    authenticate (next reply) w
  | .ask promptID text secret next, w =>
    let (w, reply) := w.ask around promptID text secret
    authenticate (next reply) w

/-! ### The session -/

def requestOf (deviceID : Bytes) (m : Message) (id : Identity) : Request :=
  { requestID := m.requestID, username := m.username, pamService := m.pamService, rhost := m.rhost
    deviceID, uid := id.uid, gid := id.gid, home := id.home, shell := id.shell }

/-- Reads the start frame, and resolves the name in it. -/
def begin_ (identity : Bytes → Option Identity) (deviceID : Bytes) (w : Wire) :
    Wire × Except Outcome Request :=
  match w.read with
  | (w, .error error) => (w, .error (protocolFailure error))
  | (w, .ok m) =>
    if m.type ≠ typeStart then (w, .error (protocolError "expected_start"))
    else
      match identity m.username with
      | none => (w, .error (deny "unknown_user"))
      | some id => (w, .ok (requestOf deviceID m id))

/-- An authenticator that returned nothing denies. -/
def decided (outcome : Outcome) : Outcome :=
  if outcome.status = [] then deny "no_decision" else outcome

/-- An error of the write is only logged. -/
def finish (w : Wire) (outcome : Outcome) : Wire := (w.write around (resultMessage outcome)).1

/-- Returns also what the authenticator returned, if it was called. -/
def run (identity : Bytes → Option Identity) (deviceID : Bytes) (auth : Request → Behaviour)
    (conn : Conn) : Wire × Option Outcome :=
  match begin_ identity deviceID { conn } with
  | (w, .error outcome) => (finish around w outcome, none)
  | (w, .ok req) =>
    let (w, outcome) := authenticate around (auth req) w
    (finish around w (decided outcome), some outcome)

/-! ### What a session has to do -/

/-- The connection after this many reads. -/
def connAfter (conn : Conn) : Nat → Conn
  | 0 => conn
  | n + 1 => (connAfter conn n).read.2

/-- The start frame names a user, and the authenticator approved the request made of it. -/
def Approves (identity : Bytes → Option Identity) (deviceID : Bytes) (auth : Request → Behaviour)
    (conn : Conn) : Prop :=
  ∃ start id, conn.read.1 = .ok start ∧ start.type = typeStart ∧
    identity start.username = some id ∧
    (authenticate around (auth (requestOf deviceID start id))
      { conn := conn.read.2, reads := 1 }).2.status = statusApproved

/-- Each answer is a frame that was read, of the id of its prompt, and no frame answers two. -/
structure Answered (conn : Conn) (answers : List Answer) : Prop where
  own : ∀ answer ∈ answers, (connAfter conn answer.index).read.1 = .ok answer.frame ∧
    answer.frame.type = typePromptResponse ∧ answer.frame.promptID = answer.promptID
  once : answers.Pairwise (·.index < ·.index)

/-- A session ends with its only result frame, which says approved only if the authenticator did,
and every answer goes to its own prompt. -/
structure Settled (identity : Bytes → Option Identity) (deviceID : Bytes)
    (auth : Request → Behaviour) (conn : Conn) (handed : List Message) (answers : List Answer) :
    Prop where
  result : ∃ earlier result, handed = earlier ++ [result] ∧ result.type = typeResult ∧
    ∀ m ∈ earlier, m.type ≠ typeResult
  approved : ∀ m ∈ handed, m.type = typeResult → m.status = statusApproved →
    Approves around identity deviceID auth conn
  answered : Answered conn answers

/-- The result frame is within the limit. -/
def Fits (outcome : Outcome) : Prop :=
  (resultMessage outcome).stamped.marshal.length + 1 ≤ maxMessageBytes

instance (outcome : Outcome) : Decidable (Fits outcome) := inferInstanceAs (Decidable (_ ≤ _))

/-! ### The conversation sends no result -/

/-- What holds of a session as long as it has no result. -/
structure Talking (start : Conn) (w : Wire) : Prop where
  conn : w.conn = connAfter start w.reads
  quiet : ∀ m ∈ w.handed, m.type ≠ typeResult
  answered : Answered start w.answers
  earlier : ∀ answer ∈ w.answers, answer.index < w.reads

section Talking

variable {around} {start : Conn} {w : Wire}

/-- A frame is handed to the socket or is too large. -/
theorem write_cases (w : Wire) (m : Message) :
    (m.stamped.marshal.length + 1 ≤ maxMessageBytes ∧
        (w.write around m).1 = { w with handed := w.handed ++ [m.stamped] }) ∨
      ¬ m.stamped.marshal.length + 1 ≤ maxMessageBytes ∧ (w.write around m).1 = w := by
  unfold Wire.write Authproto.write
  dsimp only
  by_cases long : m.stamped.marshal.length + 1 > maxMessageBytes
  · rw [if_pos long]
    exact .inr ⟨by omega, rfl⟩
  · rw [if_neg long]
    exact .inl ⟨by omega, rfl⟩

theorem Talking.write (talking : Talking start w) {m : Message} (quiet : m.type ≠ typeResult) :
    Talking start (w.write around m).1 := by
  rcases @write_cases around w m with ⟨-, same⟩ | ⟨-, same⟩
  · rw [same]
    refine ⟨talking.conn, fun sent member => ?_, talking.answered, talking.earlier⟩
    rcases List.mem_append.1 member with before | last
    · exact talking.quiet sent before
    · rw [List.mem_singleton.1 last]
      exact quiet
  · rw [same]
    exact talking

theorem Talking.read (talking : Talking start w) : Talking start w.read.1 where
  conn := congrArg (fun conn : Conn => conn.read.2) talking.conn
  quiet := talking.quiet
  answered := talking.answered
  earlier := fun answer member => Nat.lt_succ_of_lt (talking.earlier answer member)

/-- A prompt takes an answer only from the frame that it reads. -/
theorem Talking.ask (talking : Talking start w) (promptID text : Bytes) (secret : Bool) :
    Talking start (w.ask around promptID text secret).1 := by
  have asked : Talking start { w with asks := w.asks + 1 } :=
    ⟨talking.conn, talking.quiet, talking.answered, talking.earlier⟩
  unfold Wire.ask
  dsimp only
  split
  · exact asked
  · have sent := @Talking.write around _ _ asked (promptMessage promptID text secret)
      (show typePrompt ≠ typeResult by decide)
    split
    next after error wrote =>
      rw [wrote] at sent
      exact sent
    next after wrote =>
      rw [wrote] at sent
      dsimp only at sent
      have got := sent.read
      split
      next last error read =>
        rw [read] at got
        exact got
      next last m read =>
        obtain ⟨rfl, frame⟩ := Prod.mk.inj read
        split
        · exact got
        next answers =>
          split
          · exact got
          next own =>
            have taken : (connAfter start after.reads).read.1 = .ok m := by
              rw [← sent.conn]
              exact frame
            refine ⟨got.conn, got.quiet, ⟨fun answer member => ?_, ?_⟩, fun answer member => ?_⟩
            · rcases List.mem_append.1 member with before | last
              · exact got.answered.own answer before
              · rw [List.mem_singleton.1 last]
                exact ⟨taken, not_not.1 answers, not_not.1 own⟩
            · refine List.pairwise_append.2 ⟨got.answered.once, List.pairwise_singleton _ _, ?_⟩
              intro answer member last same
              rw [List.mem_singleton.1 same]
              exact sent.earlier answer member
            · rcases List.mem_append.1 member with before | last
              · exact got.earlier answer before
              · rw [List.mem_singleton.1 last]
                exact Nat.lt_succ_self _

theorem Talking.authenticate (talking : Talking start w) (behaviour : Behaviour) :
    Talking start (authenticate around behaviour w).1 := by
  induction behaviour generalizing w with
  | returns outcome => exact talking
  | display level text next ih =>
    exact ih _ (talking.write (show typeDisplay ≠ typeResult by decide))
  | ask promptID text secret next ih => exact ih _ (talking.ask promptID text secret)

end Talking

/-! ### The session ends with a result -/

theorem fits_protocolFailure (error : ReadError) : Fits (protocolFailure error) := by
  have gone : Fits (protocolError "client_disconnected") := by decide
  have version : Fits (protocolError "unsupported_version") := by decide
  have large : Fits (protocolError "message_too_large") := by decide
  have malformed : Fits (protocolError "malformed_message") := by decide
  cases error with
  | eof => exact gone
  | failed => exact malformed
  | tooLarge => exact large
  | malformed => exact malformed
  | invalid reason =>
    cases reason with
    | badVersion found => exact version
    | noUsername => exact malformed
    | noPromptID => exact malformed
    | unknownType type => exact malformed

theorem status_protocolFailure (error : ReadError) :
    (protocolFailure error).status = statusProtocolError := by
  cases error with
  | eof | failed | tooLarge | malformed => rfl
  | invalid reason => cases reason <;> rfl

section Run

variable {around} {identity : Bytes → Option Identity} {deviceID : Bytes}
  {auth : Request → Behaviour} {conn : Conn}

/-- How a session goes: the authenticator is not called, for a reason that is reported; or it is,
for the request of the start frame. -/
theorem run_cases (around : Surroundings) (identity : Bytes → Option Identity) (deviceID : Bytes)
    (auth : Request → Behaviour) (conn : Conn) :
    (∃ outcome, run around identity deviceID auth conn =
        (finish around { conn := conn.read.2, reads := 1 } outcome, none) ∧ Fits outcome ∧
          outcome.status ≠ statusApproved) ∨
      ∃ start id, conn.read.1 = .ok start ∧ start.type = typeStart ∧
        identity start.username = some id ∧
        run around identity deviceID auth conn =
          (finish around
              (authenticate around (auth (requestOf deviceID start id))
                { conn := conn.read.2, reads := 1 }).1
              (decided (authenticate around (auth (requestOf deviceID start id))
                { conn := conn.read.2, reads := 1 }).2),
            some (authenticate around (auth (requestOf deviceID start id))
              { conn := conn.read.2, reads := 1 }).2) := by
  unfold run begin_ Wire.read
  dsimp only
  cases read : conn.read.1 with
  | error error =>
    refine .inl ⟨protocolFailure error, rfl, fits_protocolFailure error, ?_⟩
    rw [status_protocolFailure]
    decide
  | ok m =>
    dsimp only
    by_cases starts : m.type = typeStart
    · rw [if_neg (not_not.2 starts)]
      cases resolved : identity m.username with
      | none => exact .inl ⟨deny "unknown_user", rfl, by decide, by decide⟩
      | some id => exact .inr ⟨m, id, rfl, starts, resolved, rfl⟩
    · rw [if_pos starts]
      exact .inl ⟨protocolError "expected_start", rfl, by decide, by decide⟩

/-- A session that has no result ends with one, or without one when it is too large. -/
theorem settled_finish {w : Wire} (talking : Talking conn w) {outcome : Outcome}
    (approves : outcome.status = statusApproved → Approves around identity deviceID auth conn) :
    Settled around identity deviceID auth conn (finish around w outcome).handed
        (finish around w outcome).answers ↔ Fits outcome := by
  unfold finish
  rcases @write_cases around w (resultMessage outcome) with ⟨fits, same⟩ | ⟨long, same⟩
  · rw [same]
    refine iff_of_true ⟨⟨w.handed, _, rfl, rfl, talking.quiet⟩, fun m member result => ?_,
      talking.answered⟩ fits
    rcases List.mem_append.1 member with before | last
    · exact absurd result (talking.quiet m before)
    · rw [List.mem_singleton.1 last]
      exact approves
  · rw [same]
    refine iff_of_false (fun settled => ?_) long
    obtain ⟨earlier, result, handed, typed, -⟩ := settled.result
    exact talking.quiet result (handed ▸ List.mem_append_right _ List.mem_cons_self) typed

/-- The session settles exactly when the frame with the outcome that the authenticator returns, if
it is called, is within the limit. -/
theorem settled_iff (around : Surroundings) (identity : Bytes → Option Identity)
    (deviceID : Bytes) (auth : Request → Behaviour) (chunks : List Bytes) (ending : Ending) :
    Settled around identity deviceID auth (.new chunks ending)
        (run around identity deviceID auth (.new chunks ending)).1.handed
        (run around identity deviceID auth (.new chunks ending)).1.answers ↔
      ∀ outcome, (run around identity deviceID auth (.new chunks ending)).2 = some outcome →
        Fits (decided outcome) := by
  generalize Conn.new chunks ending = conn
  have first : Talking conn { conn := conn.read.2, reads := 1 } :=
    { conn := rfl
      quiet := fun m member => absurd member List.not_mem_nil
      answered := ⟨fun answer member => absurd member List.not_mem_nil, .nil⟩
      earlier := fun answer member => absurd member List.not_mem_nil }
  rcases run_cases around identity deviceID auth conn with
    ⟨outcome, same, fits, refused⟩ | ⟨start, id, read, starts, resolved, same⟩
  · rw [same]
    exact iff_of_true ((settled_finish first fun approved => absurd approved refused).2 fits) nofun
  · rw [same]
    simp only [Option.some.injEq, forall_eq']
    refine settled_finish (first.authenticate _) fun approved =>
      ⟨start, id, read, starts, resolved, ?_⟩
    unfold decided at approved
    split at approved
    · exact absurd approved (by decide)
    · exact approved

end Run

/-! ### A reason over the limit -/

def longReason : Bytes := List.replicate maxMessageBytes (ch 'x')

theorem length_le_moreMembers {list : List (Bytes × Bytes)} {m : Bytes × Bytes}
    (member : m ∈ list) : m.2.length ≤ (moreMembers list).length := by
  obtain ⟨before, after, rfl⟩ := List.append_of_mem member
  simp only [moreMembers, List.flatMap_append, List.flatMap_cons, GoJson.member, List.length_append,
    List.length_cons]
  omega

theorem le_length_quote_replicate (n : Nat) :
    n ≤ (quote (List.replicate n (ch 'x'))).length := by
  have escape : (Rune.ascii (ch 'x')).escape = [ch 'x'] := by decide
  rw [quote, runes_replicate (by decide), List.flatMap_replicate]
  simp [escape]
  omega

theorem longReason_long (status : Bytes) : ¬ Fits { status, reason := longReason } := by
  have quoted : maxMessageBytes ≤ (quote longReason).length :=
    le_length_quote_replicate maxMessageBytes
  have some_ : longReason ≠ [] := by
    rw [longReason, Ne, List.replicate_eq_nil_iff]
    decide
  obtain ⟨first, more, marshal, member⟩ : ∃ first more,
      (resultMessage ⟨status, longReason⟩).stamped.marshal = objectText first more ∧
        (asciiBytes Field.reason.name, quote longReason) ∈ more := by
    refine ⟨_, _, rfl, List.mem_cons_of_mem _ (List.mem_append_right _ ?_)⟩
    refine List.mem_flatMap.2 ⟨.reason, by decide, ?_⟩
    have reason : (resultMessage ⟨status, longReason⟩).stamped.get .reason = longReason := rfl
    rw [textMember, reason, if_neg some_]
    exact List.mem_singleton_self _
  have long : (quote longReason).length ≤ (moreMembers more).length :=
    length_le_moreMembers member
  intro fits
  rw [Fits, marshal, objectText, List.length_cons, List.length_append, List.length_append] at fits
  omega

def startText : Bytes :=
  asciiBytes "\x7b\"version\":1,\"type\":\"start\",\"username\":\"alice\"\x7d\n"

/-- An authenticator that denies, with this reason. -/
def verbose : Request → Behaviour := fun _ => .returns ⟨statusDenied, longReason⟩

/-- The session sends nothing at all. -/
theorem result_too_large :
    ¬ Settled {} (fun _ => some ⟨0, 0, [], []⟩) [] verbose (.new [startText] .eof)
      (run {} (fun _ => some ⟨0, 0, [], []⟩) [] verbose (.new [startText] .eof)).1.handed
      (run {} (fun _ => some ⟨0, 0, [], []⟩) [] verbose (.new [startText] .eof)).1.answers := by
  have read : (Conn.new [startText] .eof).read.1 =
      .ok { version := 1, type := typeStart, username := asciiBytes "alice" } := by
    rw [startText, asciiBytes_ofList]
    decide
  have undecided : decided ⟨statusDenied, longReason⟩ = ⟨statusDenied, longReason⟩ :=
    if_neg (by decide)
  have ran : (run {} (fun _ => some ⟨0, 0, [], []⟩) [] verbose (.new [startText] .eof)).1 =
      finish {} { conn := (Conn.new [startText] .eof).read.2, reads := 1 }
        ⟨statusDenied, longReason⟩ := by
    unfold run begin_ Wire.read
    dsimp only
    rw [read]
    dsimp only
    rw [if_neg (not_not.2 rfl)]
    simp only [verbose, authenticate, undecided]
  have nothing : (finish {} { conn := (Conn.new [startText] .eof).read.2, reads := 1 }
      ⟨statusDenied, longReason⟩).handed = [] := by
    rcases @write_cases {} { conn := (Conn.new [startText] .eof).read.2, reads := 1 }
      (resultMessage ⟨statusDenied, longReason⟩) with ⟨fits, -⟩ | ⟨-, same⟩
    · exact absurd fits (longReason_long statusDenied)
    · rw [finish, same]
  intro settled
  obtain ⟨earlier, result, handed, -⟩ := settled.result
  rw [ran, nothing] at handed
  simp at handed

end HelixKit.Authd.Session
