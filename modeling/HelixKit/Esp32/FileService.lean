/-
Purpose: The file service of the ESP32 platform: its sessions, the sink that writes
  to a file, and the files, with writes that may come up short.
Trusted boundary: none
-/
import HelixKit.Lib.Runs
import Mathlib.Algebra.GroupWithZero.Nat
import Mathlib.Algebra.Ring.Int.Defs
import Mathlib.Logic.Function.Basic

namespace HelixKit.Esp32.FileService

open HelixKit.Runs

abbrev Bytes := List UInt8

/-- A C string without its NUL. -/
abbrev Text := List Char

/-! ### Files -/

/-- The content after `data` was written at `position`; a gap reads as zeros. -/
def writeAt (content : Bytes) (position : Nat) (data : Bytes) : Bytes :=
  if data = [] then content
  else
    content.take position ++ List.replicate (position - content.length) 0 ++ data ++
      content.drop (position + data.length)

/-- What the storage holds: the content of each file that is there.  `File` stands for
the files that paths name. -/
abbrev Storage (File : Type) := File → Option Bytes

variable {File : Type} [DecidableEq File]

/-- `fwrite` gets this many of the bytes into an open file; one that was removed stays so. -/
def fwrite (storage : Storage File) (file : File) (position : Nat) (data : Bytes) :
    Storage File :=
  Function.update storage file ((storage file).map (writeAt · position data))

/-! ### The sink -/

/-- `fs_sink_t`: `fp` is the position of the open stream. -/
structure FsSink (File : Type) where
  file : File
  fp : Option Nat
  pos : UInt32 := 0
deriving Repr, DecidableEq

/-- `fs_write`, with whether a seek works and how many bytes `fwrite` gets done. -/
def fs_write (storage : Storage File) (sink : FsSink File) (offset : UInt32) (data : Bytes)
    (seeks : Bool) (written : Nat) : Storage File × FsSink File × Bool :=
  match sink.fp with
  | none => (storage, sink, false)
  | some position =>
    if offset ≠ sink.pos ∧ !seeks then (storage, sink, false)
    else
      let position := if offset ≠ sink.pos then offset.toNat else position
      let done := data.take written
      let storage := fwrite storage sink.file position done
      let sink := { sink with fp := some (position + done.length), pos := offset }
      if done.length ≠ data.length then (storage, sink, false)
      else (storage, { sink with pos := offset + UInt32.ofNat data.length }, true)

/-- `fs_commit`, with whether the stream can be flushed and closed. -/
def fs_commit (sink : FsSink File) (closes : Bool) : FsSink File × Bool :=
  match sink.fp with
  | none => (sink, false)
  | some _ => ({ sink with fp := none }, closes)

/-- `fs_abort` removes the file. -/
def fs_abort (storage : Storage File) (sink : FsSink File) : Storage File :=
  Function.update storage sink.file none

/-! ### The service -/

/-- `file_session_t`.  `sha` is the data that the hash context was fed. -/
structure Session (File : Type) where
  id : UInt16
  sink : FsSink File
  sha : Bytes := []
  received : UInt32 := 0
  declared_size : UInt32
  expected_sha : Option Text
deriving Repr, DecidableEq

/-- The outside of the service: how many sessions it has, which file a path names, and
SHA-256. -/
structure Platform (File : Type) where
  maxSessions : Nat
  file : Text → File
  sha256 : Bytes → Bytes

/-- The service and the storage.  `accepted` keeps the chunks that were accepted for the
session in a slot. -/
structure Service (File : Type) where
  storage : Storage File
  sessions : Nat → Option (Session File) := fun _ => none
  next_id : UInt16 := 1
  accepted : Nat → List Bytes := fun _ => []

inductive Op where
  /-- `begin`, with whether the destination can be opened. -/
  | start (dest : Option Text) (size : UInt32) (sha256 : Option Text) (opens : Bool)
  | chunk (session : UInt16) (offset : UInt32) (data : Bytes) (seeks : Bool) (written : Nat)
  | commit (session : Option UInt32) (sha256 : Option Text) (closes : Bool)
  | abort (session : Option UInt32)
deriving Repr, DecidableEq

/-- What the service answers: `file-begin`, `file-commit`, `file-abort`, a failure, or, to
a chunk, its error. -/
inductive Answer where
  | begun (session : UInt16)
  | committed (session : UInt32) (size : UInt32) (sha256 : Text)
  | aborted (session : UInt32)
  | chunk (ok : Bool)
  | fail (message : String)
deriving Repr, DecidableEq

def hexDigit (nibble : Nat) : Char :=
  "0123456789abcdef".toList.getD nibble '0'

def to_hex (digest : Bytes) : Text :=
  digest.flatMap fun byte => [hexDigit (byte.toNat / 16), hexDigit (byte.toNat % 16)]

def strcasecmp (a b : Text) : Bool :=
  a.map Char.toLower = b.map Char.toLower

def shaHexLen : Nat := 64

/-- `match_scheme` for `fs`, and the slashes that `helix_fs_sink_open` skips. -/
def fsPath (dest : Text) : Option Text :=
  match dest with
  | 'f' :: 's' :: ':' :: rest => if rest = [] then none else some (rest.dropWhile (· = '/'))
  | _ => none

variable (platform : Platform File)

def Service.find_session (s : Service File) (id : UInt16) : Option Nat :=
  (List.range platform.maxSessions).find? fun slot =>
    (s.sessions slot).any fun session => session.id = id

def Service.alloc_session (s : Service File) : Option Nat :=
  (List.range platform.maxSessions).find? fun slot => (s.sessions slot).isNone

def Service.setSession (s : Service File) (slot : Nat) (session : Session File) : Service File :=
  { s with sessions := Function.update s.sessions slot (some session) }

def Service.release_session (s : Service File) (slot : Nat) : Service File :=
  { s with sessions := Function.update s.sessions slot none }

/-- `helix_xfer_sink_open` creates the file, or empties it. -/
def open_sink (storage : Storage File) (dest : Text) (opens : Bool) :
    Option (Storage File × FsSink File) :=
  match fsPath dest with
  | none => none
  | some path =>
    if opens then
      let file := platform.file path
      some (Function.update storage file (some []), { file, fp := some 0 })
    else none

def handle_begin (s : Service File) (dest : Option Text) (size : UInt32) (sha256 : Option Text)
    (opens : Bool) : Service File × Answer :=
  match dest with
  | none => (s, .fail "begin requires dest")
  | some dest =>
    if sha256.any (·.length ≠ shaHexLen) then (s, .fail "sha256 must be 64 hex chars")
    else
      match s.alloc_session platform with
      | none => (s, .fail "no free transfer session")
      | some slot =>
        match open_sink platform s.storage dest opens with
        | none => (s, .fail "failed to open destination")
        | some (storage, sink) =>
          let id := if s.next_id = 0 then 1 else s.next_id
          let session : Session File :=
            { id, sink, declared_size := size, expected_sha := sha256 }
          ({ s with
              storage := storage
              sessions := Function.update s.sessions slot (some session)
              next_id := id + 1
              accepted := Function.update s.accepted slot [] }, .begun id)

def file_service_ingest_chunk (s : Service File) (session_id : UInt16) (offset : UInt32)
    (data : Bytes) (seeks : Bool) (written : Nat) : Service File × Answer :=
  match s.find_session platform session_id with
  | none => (s, .chunk false)
  | some slot =>
    match s.sessions slot with
    | none => (s, .chunk false)
    | some session =>
      if offset ≠ session.received then (s, .chunk false)
      else
        match fs_write s.storage session.sink offset data seeks written with
        | (storage, sink, false) =>
          ({ s.setSession slot { session with sink } with storage := storage }, .chunk false)
        | (storage, sink, true) =>
          ({ s.setSession slot { session with
                sink
                sha := session.sha ++ data
                received := session.received + UInt32.ofNat data.length } with
              storage := storage
              accepted := Function.update s.accepted slot (s.accepted slot ++ [data]) },
            .chunk true)

/-- Why a commit fails before it gets to the sink. -/
def Session.failure (session : Session File) (override_sha : Option Text) (computed : Text) :
    Option String :=
  if 0 < session.declared_size ∧ session.received ≠ session.declared_size then
    some "size mismatch"
  else
    match override_sha.or session.expected_sha with
    | some expected => if strcasecmp expected computed then none else some "sha256 mismatch"
    | none => none

/-- The session is given up: its file is removed. -/
def Service.giveUp (s : Service File) (slot : Nat) (session : Session File) : Service File :=
  { s.release_session slot with storage := fs_abort s.storage session.sink }

def handle_commit (s : Service File) (session : Option UInt32) (sha256 : Option Text)
    (closes : Bool) : Service File × Answer :=
  match session with
  | none => (s, .fail "commit requires session")
  | some id =>
    match s.find_session platform id.toUInt16 with
    | none => (s, .fail "unknown session")
    | some slot =>
      match s.sessions slot with
      | none => (s, .fail "unknown session")
      | some session =>
        let computed := to_hex (platform.sha256 session.sha)
        match session.failure sha256 computed with
        | some message => (s.giveUp slot session, .fail message)
        | none =>
          if (fs_commit session.sink closes).2 then
            (s.release_session slot, .committed id session.received computed)
          else (s.giveUp slot session, .fail "commit failed")

def handle_abort (s : Service File) (session : Option UInt32) : Service File × Answer :=
  match session with
  | none => (s, .fail "abort requires session")
  | some id =>
    match s.find_session platform id.toUInt16 with
    | none => (s, .aborted id)
    | some slot =>
      match s.sessions slot with
      | none => (s, .aborted id)
      | some session => (s.giveUp slot session, .aborted id)

def handle (s : Service File) : Op → Service File × Answer
  | .start dest size sha256 opens => handle_begin platform s dest size sha256 opens
  | .chunk session offset data seeks written =>
    file_service_ingest_chunk platform s session offset data seeks written
  | .commit session sha256 closes => handle_commit platform s session sha256 closes
  | .abort session => handle_abort platform s session

def step (s : Service File) (op : Op) : Service File :=
  (handle platform s op).1

def answer (s : Service File) (op : Op) : Answer :=
  (handle platform s op).2

/-- A file is opened that no session has, a write gets nothing done if not all, and the
bytes of a session can be counted. -/
def Careful (s : Service File) : Op → Prop
  | .start dest _ _ opens => opens = true → ∀ name path, dest = some name → fsPath name = some path →
      ∀ slot session, s.sessions slot = some session → session.sink.file ≠ platform.file path
  | .chunk id offset data _ written => ∀ slot session, s.find_session platform id = some slot →
      s.sessions slot = some session → offset = session.received →
        (written < data.length → written = 0) ∧
          (data.length ≤ written → session.received.toNat + data.length < 2 ^ 32)
  | .commit .. | .abort _ => True

/-- A commit that answers ok: the file holds the bytes of the accepted chunks, as many as
it says and with the hash that it says. -/
def Truthful (s : Service File) (op : Op) : Prop :=
  ∀ id sha256 closes size hash, op = .commit (some id) sha256 closes →
    answer platform s op = .committed id size hash → ∃ slot session,
      s.find_session platform id.toUInt16 = some slot ∧ s.sessions slot = some session ∧
        (step platform s op).storage session.sink.file = some (s.accepted slot).flatten ∧
        size.toNat = (s.accepted slot).flatten.length ∧
        hash = to_hex (platform.sha256 (s.accepted slot).flatten)

end HelixKit.Esp32.FileService
