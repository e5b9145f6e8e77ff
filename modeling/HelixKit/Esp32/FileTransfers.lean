/-
Purpose: What becomes of a file that a transfer was to replace, when the transfer ends without a
  commit (`embedded/esp32/platform/src/helix_fs_sink.c`).
Trusted boundary: none
Main exports: content_kept_iff
-/
import HelixKit.Esp32.SessionIds

namespace HelixKit.Esp32.FileService

open HelixKit.Runs

variable {File : Type} [DecidableEq File] (platform : Platform File)

/-! ### Transfers -/

/-- A transfer to a destination: the `begin`, the messages while it is at work, of other transfers
too, the one that ends it, and whether `remove` works then. -/
structure Transfer (File : Type) where
  before : Service File
  dest : Text
  size : UInt32 := 0
  sha256 : Option Text := none
  opens : Bool
  ops : List Op := []
  last : Op
  removes : Bool := true

namespace Transfer

variable (t : Transfer File)

def begun : Service File × Answer :=
  handle_begin platform t.before (some t.dest) t.size t.sha256 t.opens

def Refused : Prop := ∀ id, (t.begun platform).2 ≠ .begun id

/-- The service before the last message. -/
def atWork : Service File := run (step platform) (t.begun platform).1 t.ops

/-- The files at the end. What gives a transfer up does nothing to the files but to remove one. -/
def after : Storage File :=
  match (t.begun platform).2 with
  | .begun _ =>
    if t.removes then (step platform (t.atWork platform) t.last).storage
    else (t.atWork platform).storage
  | _ => (t.begun platform).1.storage

/-- The transfer is to the file, and is refused, or is open until the last message, which closes it
and is not answered by a commit. -/
structure Uncommitted (file : File) : Prop where
  names : ∃ path, fsPath t.dest = some path ∧ platform.file path = file
  fails : ¬ t.Refused platform → ∃ slot, t.before.alloc_session platform = some slot ∧
    Along (step platform) (fun s op => (step platform s op).sessions slot ≠ none)
      (t.begun platform).1 t.ops ∧
    (step platform (t.atWork platform) t.last).sessions slot = none ∧
    ∀ id size sha256, answer platform (t.atWork platform) t.last ≠ .committed id size sha256

end Transfer

/-! ### Steps -/

section Steps

variable {platform} {s : Service File} {file : File} {slot : Nat}

/-- The session in the slot writes to the file. -/
def WritesTo (s : Service File) (slot : Nat) (file : File) : Prop :=
  ∃ session, s.sessions slot = some session ∧ session.sink.file = file

/-- A `begin` is refused and leaves the service as it was, or opens the file, emptied, in a free
slot. -/
theorem handle_begin_cases (s : Service File) (dest : Option Text) (size : UInt32)
    (sha256 : Option Text) (opens : Bool) :
    (∃ message, handle_begin platform s dest size sha256 opens = (s, .fail message)) ∨
      ∃ name path slot id session, dest = some name ∧ fsPath name = some path ∧
        s.alloc_session platform = some slot ∧ session.sink.file = platform.file path ∧
        (handle_begin platform s dest size sha256 opens).2 = .begun id ∧
        (handle_begin platform s dest size sha256 opens).1.sessions =
          Function.update s.sessions slot (some session) ∧
        (handle_begin platform s dest size sha256 opens).1.storage =
          Function.update s.storage (platform.file path) (some []) := by
  unfold handle_begin
  cases dest with
  | none => exact .inl ⟨_, rfl⟩
  | some name =>
    dsimp only
    split
    · exact .inl ⟨_, rfl⟩
    · cases free : s.alloc_session platform with
      | none => exact .inl ⟨_, rfl⟩
      | some slot =>
        cases found : fsPath name with
        | none =>
          simp only [open_sink, found]
          exact .inl ⟨_, rfl⟩
        | some path =>
          cases opens with
          | false =>
            simp only [open_sink, found]
            exact .inl ⟨_, rfl⟩
          | true =>
            simp only [open_sink, found, if_true]
            exact .inr ⟨name, path, slot, _, _, rfl, found, rfl, rfl, rfl, rfl, rfl⟩

omit [DecidableEq File] in
theorem alloc_session_free (free : s.alloc_session platform = some slot) :
    s.sessions slot = none := by
  have held := List.find?_some free
  exact Option.isNone_iff_eq_none.1 held

theorem fs_write_file (storage : Storage File) (sink : FsSink File) (offset : UInt32)
    (data : Bytes) (seeks : Bool) (written : Nat) :
    (fs_write storage sink offset data seeks written).2.1.file = sink.file := by
  unfold fs_write
  split
  · rfl
  split
  · rfl
  · dsimp only
    split <;> rfl

/-- A chunk leaves a session the file that it writes to. -/
theorem writesTo_chunk (writes : WritesTo s slot file) (id : UInt16) (offset : UInt32)
    (data : Bytes) (seeks : Bool) (written : Nat) :
    WritesTo (file_service_ingest_chunk platform s id offset data seeks written).1 slot file := by
  obtain ⟨session, there, own⟩ := writes
  have kept : ∀ (other : Nat) (before changed : Session File), s.sessions other = some before →
      changed.sink.file = before.sink.file →
      ∃ now, Function.update s.sessions other (some changed) slot = some now ∧
        now.sink.file = file := by
    intro other before changed held same
    by_cases here : slot = other
    · subst here
      rw [there] at held
      cases held
      exact ⟨changed, Function.update_self _ _ _, same.trans own⟩
    · exact ⟨session, by rw [Function.update_of_ne here, there], own⟩
  unfold file_service_ingest_chunk
  split
  · exact ⟨session, there, own⟩
  next other _ =>
    split
    · exact ⟨session, there, own⟩
    next before held =>
      split
      · exact ⟨session, there, own⟩
      · have written := fs_write_file s.storage before.sink offset data seeks written
        split
        next storage sink wrote =>
          rw [wrote] at written
          exact kept other before _ held written
        next storage sink wrote =>
          rw [wrote] at written
          exact kept other before _ held written

/-- What a commit or an abort does: it comes to no session, or closes the one in a slot, and
removes its file unless it is committed. -/
theorem closing_cases (s : Service File) (op : Op)
    (closes : (∃ id sha256 closes, op = .commit id sha256 closes) ∨ ∃ id, op = .abort id) :
    step platform s op = s ∨ ∃ other session, s.sessions other = some session ∧
      (step platform s op).sessions = Function.update s.sessions other none ∧
      ((∃ id size sha256, answer platform s op = .committed id size sha256) ∨
        (step platform s op).storage = Function.update s.storage session.sink.file none) := by
  rcases closes with ⟨id, sha256, closes, rfl⟩ | ⟨id, rfl⟩
  · simp only [step, answer, handle, handle_commit]
    split
    · exact .inl rfl
    split
    · exact .inl rfl
    next other _ =>
      split
      · exact .inl rfl
      next session held =>
        right
        refine ⟨other, session, held, ?_⟩
        split
        · exact ⟨rfl, .inr rfl⟩
        split
        · exact ⟨rfl, .inl ⟨_, _, _, rfl⟩⟩
        · exact ⟨rfl, .inr rfl⟩
  · simp only [step, answer, handle, handle_abort]
    split
    · exact .inl rfl
    · split
      · exact .inl rfl
      next other _ =>
        split
        · exact .inl rfl
        next session held => exact .inr ⟨other, session, held, rfl, .inr rfl⟩

/-- What a message does to a session that writes to the file: it goes on doing so, or it is closed,
and the file removed unless the message commits it. -/
theorem writesTo_step (writes : WritesTo s slot file) (op : Op) :
    WritesTo (step platform s op) slot file ∨
      (step platform s op).sessions slot = none ∧
        ((∃ id size sha256, answer platform s op = .committed id size sha256) ∨
          (step platform s op).storage file = none) := by
  obtain ⟨session, there, own⟩ := writes
  have closing : ((∃ id sha256 closes, op = .commit id sha256 closes) ∨ ∃ id, op = .abort id) →
      WritesTo (step platform s op) slot file ∨
        (step platform s op).sessions slot = none ∧
          ((∃ id size sha256, answer platform s op = .committed id size sha256) ∨
            (step platform s op).storage file = none) := by
    intro closes
    rcases @closing_cases _ _ platform s op closes with
      same | ⟨other, held, was, sessions, ends⟩
    · exact .inl ⟨session, by rw [same, there], own⟩
    · by_cases here : slot = other
      · subst here
        rw [there] at was
        cases was
        refine .inr ⟨by rw [sessions, Function.update_self], ends.imp_right fun removed => ?_⟩
        rw [removed, own, Function.update_self]
      · exact .inl ⟨session, by rw [sessions, Function.update_of_ne here, there], own⟩
  cases op with
  | start dest size sha256 opens =>
    left
    rcases @handle_begin_cases _ _ platform s dest size sha256 opens with
      ⟨message, same⟩ | ⟨name, path, other, id, new, -, -, free, -, -, sessions, -⟩
    · exact ⟨session, by rw [step, handle, same, there], own⟩
    · have different : slot ≠ other := by
        rintro rfl
        rw [alloc_session_free free] at there
        cases there
      refine ⟨session, ?_, own⟩
      rw [step, handle, sessions, Function.update_of_ne different, there]
  | chunk id offset data seeks written =>
    exact .inl (writesTo_chunk ⟨session, there, own⟩ id offset data seeks written)
  | commit id sha256 closes => exact closing (.inl ⟨id, sha256, closes, rfl⟩)
  | abort id => exact closing (.inr ⟨id, rfl⟩)

end Steps

/-! ### What is left of the file -/

section Transfer

variable {platform} {t : Transfer File} {file : File}

/-- A transfer that is not refused ends with the file removed, if that works. -/
theorem Transfer.Uncommitted.removed (uncommitted : t.Uncommitted platform file)
    (begins : ¬ t.Refused platform) :
    (step platform (t.atWork platform) t.last).storage file = none := by
  obtain ⟨path, named, rfl⟩ := uncommitted.names
  obtain ⟨slot, free, along, closed, unanswered⟩ := uncommitted.fails begins
  have first : WritesTo (t.begun platform).1 slot (platform.file path) := by
    rcases @handle_begin_cases _ _ platform t.before (some t.dest) t.size t.sha256 t.opens with
      ⟨message, same⟩ | ⟨name, path', other, id, new, same, path, alloc, own, -, sessions, -⟩
    · refine absurd (fun id => ?_) begins
      rw [begun, same]
      exact nofun
    · cases same
      rw [named] at path
      cases path
      rw [free] at alloc
      cases alloc
      exact ⟨new, by rw [begun, sessions, Function.update_self], own⟩
  have writes : WritesTo (t.atWork platform) slot (platform.file path) := by
    refine along.invariant (fun s => WritesTo s slot (platform.file path)) ?_ first
    intro s op writes goesOn
    exact (writesTo_step writes op).resolve_right fun ends => goesOn ends.1
  rcases writesTo_step writes t.last with
    ⟨session, there, -⟩ | ⟨-, ⟨id, size, sha256, same⟩ | removed⟩
  · rw [closed] at there
    cases there
  · exact absurd same (unanswered id size sha256)
  · exact removed

theorem Transfer.after_refused (refused : t.Refused platform) :
    t.after platform = t.before.storage := by
  rcases @handle_begin_cases _ _ platform t.before (some t.dest) t.size t.sha256 t.opens
    with ⟨message, same⟩ | ⟨name, path, slot, id, new, -, -, -, -, begins, -, -⟩
  · rw [after, begun, same]
  · exact absurd begins (refused id)

theorem Transfer.after_begun (begins : ¬ t.Refused platform) :
    t.after platform =
      if t.removes then (step platform (t.atWork platform) t.last).storage
      else (t.atWork platform).storage := by
  obtain ⟨id, begins⟩ := not_forall_not.1 begins
  rw [after, begins]

/-- A file that was there before a transfer that ends without a commit has its content after it
exactly when there was none, or the transfer was refused, or the file cannot be removed and has the
content that it had. -/
theorem content_kept_iff (uncommitted : t.Uncommitted platform file) :
    (∀ content, t.before.storage file = some content → t.after platform file = some content) ↔
      t.before.storage file = none ∨ t.Refused platform ∨
        t.removes = false ∧ (t.atWork platform).storage file = t.before.storage file := by
  cases was : t.before.storage file with
  | none => exact iff_of_true nofun (.inl rfl)
  | some old =>
    simp only [Option.some.injEq, forall_eq', reduceCtorEq, false_or]
    by_cases refused : t.Refused platform
    · refine iff_of_true ?_ (.inl refused)
      rw [Transfer.after_refused refused, was]
    · rw [Transfer.after_begun refused, or_iff_right refused]
      cases removes : t.removes with
      | true => simp [uncommitted.removed refused]
      | false => simp

end Transfer

/-! ### An update that is aborted -/

def onePlatform : Platform Text where
  maxSessions := 4
  file := id
  sha256 := fun _ => []

/-- A file of one byte is there, and a transfer to it begins and is aborted. -/
def abortedUpdate : Transfer Text where
  before := { storage := fun file => if file = ['a'] then some [1] else none }
  dest := ['f', 's', ':', 'a']
  opens := true
  last := .abort (some 1)

theorem abortedUpdate_uncommitted : abortedUpdate.Uncommitted onePlatform ['a'] where
  names := ⟨['a'], rfl, rfl⟩
  fails := fun _ => ⟨0, rfl, trivial, rfl, fun _ _ _ => nofun⟩

theorem content_kept_iff_aborted :
    (∀ content, abortedUpdate.before.storage ['a'] = some content →
        abortedUpdate.after onePlatform ['a'] = some content) ↔
      abortedUpdate.before.storage ['a'] = none ∨ abortedUpdate.Refused onePlatform ∨
        abortedUpdate.removes = false ∧
          (abortedUpdate.atWork onePlatform).storage ['a'] = abortedUpdate.before.storage ['a'] :=
  content_kept_iff abortedUpdate_uncommitted

/-- The file is gone. -/
theorem old_content_lost :
    abortedUpdate.Uncommitted onePlatform ['a'] ∧
      ¬ ∀ content, abortedUpdate.before.storage ['a'] = some content →
        abortedUpdate.after onePlatform ['a'] = some content :=
  ⟨abortedUpdate_uncommitted, fun kept => nomatch kept [1] rfl⟩

end HelixKit.Esp32.FileService
