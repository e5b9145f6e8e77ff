/-
Purpose: What a commit of the file service that answers ok says about the file.
Trusted boundary: none
Main exports: commits_truthful
-/
import HelixKit.Esp32.FileService

namespace HelixKit.Esp32.FileService

open HelixKit.Runs

variable {File : Type} [DecidableEq File]

/-! ### Writes -/

@[simp] theorem writeAt_nil (content : Bytes) (position : Nat) : writeAt content position [] = content :=
  if_pos rfl

/-- A write at the end appends. -/
theorem writeAt_end (content data : Bytes) : writeAt content content.length data = content ++ data := by
  by_cases empty : data = []
  · simp [empty]
  · simp [writeAt, empty]

variable {storage : Storage File}

theorem fwrite_self {file : File} {content : Bytes}
    (there : storage file = some content) (data : Bytes) :
    fwrite storage file content.length data file = some (content ++ data) := by
  simp [fwrite, there, writeAt_end]

theorem fwrite_ne (storage : Storage File) {file other : File} (different : other ≠ file)
    (position : Nat) (data : Bytes) : fwrite storage file position data other = storage other :=
  Function.update_of_ne different ..

/-- At the position of the sink, a write that gets everything done appends the data. -/
theorem fs_write_done {sink : FsSink File} {position : Nat}
    (fp : sink.fp = some position) {data : Bytes} {written : Nat} (all : data.length ≤ written)
    (seeks : Bool) :
    fs_write storage sink sink.pos data seeks written =
      (fwrite storage sink.file position data,
        { sink with fp := some (position + data.length), pos := sink.pos + UInt32.ofNat data.length },
        true) := by
  simp [fs_write, fp, List.take_of_length_le all]

/-- One that gets nothing done fails and changes nothing. -/
theorem fs_write_nothing {sink : FsSink File} {position : Nat}
    (fp : sink.fp = some position) {data : Bytes} (some_data : 0 < data.length) (seeks : Bool) :
    fs_write storage sink sink.pos data seeks 0 = (storage, sink, false) := by
  have same : fwrite storage sink.file position [] = storage := by
    funext file
    by_cases own : file = sink.file
    · subst own
      simp [fwrite]
    · exact fwrite_ne storage own position []
  have nonempty : ¬ 0 = data.length := by omega
  simp only [fs_write, fp, List.take_zero, List.length_nil, ne_eq, not_true_eq_false, false_and,
    if_false, same, Nat.add_zero, nonempty, not_false_eq_true, if_true]
  rw [← fp]

/-! ### The invariant -/

/-- The counter, the hash, the position of the sink and the file agree on the chunks. -/
structure SessionOk (storage : Storage File) (chunks : List Bytes) (session : Session File) :
    Prop where
  sha : session.sha = chunks.flatten
  received : session.received.toNat = chunks.flatten.length
  pos : session.sink.pos = session.received
  fp : session.sink.fp = some chunks.flatten.length
  content : storage session.sink.file = some chunks.flatten

structure Inv (s : Service File) : Prop where
  sessions : ∀ {slot session}, s.sessions slot = some session →
    SessionOk s.storage (s.accepted slot) session
  apart : ∀ {slot other session another}, s.sessions slot = some session →
    s.sessions other = some another → session.sink.file = another.sink.file → slot = other

omit [DecidableEq File] in
theorem inv_start (storage : Storage File) : Inv ({ storage } : Service File) where
  sessions := by
    intro slot session found
    cases found
  apart := by
    intro slot other session another found
    cases found

variable {slot : Nat}

omit [DecidableEq File] in
theorem alloc_session_some {platform : Platform File} {s : Service File}
    (found : s.alloc_session platform = some slot) : s.sessions slot = none := by
  simpa using List.find?_some found

namespace Inv

variable {platform : Platform File} {s : Service File}

omit [DecidableEq File] in
/-- A session goes on, and its file with it; the others stay as they are. -/
theorem set (inv : Inv s) {old new : Session File} (accepted : Nat → List Bytes)
    (found : s.sessions slot = some old) (file : new.sink.file = old.sink.file)
    (elsewhere : ∀ other ≠ old.sink.file, storage other = s.storage other)
    (others : ∀ other ≠ slot, accepted other = s.accepted other)
    (ok : SessionOk storage (accepted slot) new) :
    Inv { s.setSession slot new with storage := storage, accepted := accepted } where
  sessions := by
    intro other session there
    by_cases same : other = slot
    · subst same
      simp only [Service.setSession, Function.update_self, Option.some.injEq] at there
      subst there
      exact ok
    · simp only [Service.setSession, Function.update_of_ne same] at there
      have kept := inv.sessions there
      have different : session.sink.file ≠ old.sink.file :=
        fun shared => same (inv.apart there found shared)
      rw [← others other same] at kept
      exact { kept with content := (elsewhere _ different).trans kept.content }
  apart := by
    have before : ∀ {other session}, (s.setSession slot new).sessions other = some session →
        ∃ was, s.sessions other = some was ∧ was.sink.file = session.sink.file := by
      intro other session there
      by_cases same : other = slot
      · subst same
        simp only [Service.setSession, Function.update_self, Option.some.injEq] at there
        subst there
        exact ⟨old, found, file.symm⟩
      · simp only [Service.setSession, Function.update_of_ne same] at there
        exact ⟨session, there, rfl⟩
    intro one other session another at_one at_other same
    obtain ⟨was, was_one, was_file⟩ := before at_one
    obtain ⟨wot, was_other, wot_file⟩ := before at_other
    exact inv.apart was_one was_other (by rw [was_file, wot_file, same])

omit [DecidableEq File] in
/-- A session that goes leaves the others as they are. -/
theorem release (inv : Inv s) {old : Session File} (found : s.sessions slot = some old)
    (elsewhere : ∀ other ≠ old.sink.file, storage other = s.storage other) :
    Inv { s.release_session slot with storage := storage } where
  sessions := by
    intro other session there
    by_cases same : other = slot
    · subst same
      simp [Service.release_session] at there
    · simp only [Service.release_session, Function.update_of_ne same] at there
      have kept := inv.sessions there
      have different : session.sink.file ≠ old.sink.file :=
        fun shared => same (inv.apart there found shared)
      exact { kept with content := (elsewhere _ different).trans kept.content }
  apart := by
    have before : ∀ {other session}, (s.release_session slot).sessions other = some session →
        s.sessions other = some session := by
      intro other session there
      by_cases same : other = slot
      · subst same
        simp [Service.release_session] at there
      · simpa only [Service.release_session, Function.update_of_ne same] using there
    intro one other session another at_one at_other same
    exact inv.apart (before at_one) (before at_other) same

theorem giveUp (inv : Inv s) {slot : Nat} {session : Session File}
    (found : s.sessions slot = some session) : Inv (s.giveUp slot session) :=
  inv.release found fun _ different => Function.update_of_ne different ..

theorem chunk (inv : Inv s) (id : UInt16) (offset : UInt32) (data : Bytes) (seeks : Bool)
    (written : Nat) (careful : Careful platform s (.chunk id offset data seeks written)) :
    Inv (step platform s (.chunk id offset data seeks written)) := by
  simp only [step, handle, file_service_ingest_chunk]
  split
  · exact inv
  next slot here =>
    split
    · exact inv
    next session found =>
      split
      · exact inv
      next expected =>
        have expected : offset = session.received := by simpa using expected
        obtain ⟨clean, counted⟩ := careful slot session here found expected
        have ok := inv.sessions found
        have at_pos : offset = session.sink.pos := expected.trans ok.pos.symm
        by_cases all : data.length ≤ written
        · have fits := counted all
          rw [ok.received] at fits
          rw [at_pos, fs_write_done ok.fp all]
          have flat : (s.accepted slot ++ [data]).flatten = (s.accepted slot).flatten ++ data := by
            simp
          apply inv.set (Function.update s.accepted slot (s.accepted slot ++ [data])) found
          · rfl
          · exact fun other different => fwrite_ne _ different _ _
          · exact fun other different => Function.update_of_ne different ..
          · rw [Function.update_self]
            constructor
            · rw [flat, ok.sha]
            · have small : data.length % 2 ^ 32 = data.length := Nat.mod_eq_of_lt (by omega)
              rw [flat, List.length_append, UInt32.toNat_add, ok.received, UInt32.toNat_ofNat', small,
                Nat.mod_eq_of_lt fits]
            · rw [ok.pos]
            · rw [flat, List.length_append]
            · rw [flat]
              exact fwrite_self ok.content data
        · have nothing := clean (by omega)
          rw [at_pos, nothing, fs_write_nothing ok.fp (by omega)]
          exact inv.set s.accepted found rfl (fun _ _ => rfl) (fun _ _ => rfl) { ok with }

theorem start (inv : Inv s) (dest : Option Text) (size : UInt32) (sha256 : Option Text) (opens : Bool)
    (careful : Careful platform s (.start dest size sha256 opens)) :
    Inv (step platform s (.start dest size sha256 opens)) := by
  simp only [step, handle, handle_begin]
  split
  · exact inv
  next name =>
    split
    · exact inv
    split
    · exact inv
    next slot free =>
      have empty := alloc_session_some free
      cases path : fsPath name with
      | none =>
        simp only [open_sink, path]
        exact inv
      | some file =>
        cases opens with
        | false =>
          simp only [open_sink, path, Bool.false_eq_true, if_false]
          exact inv
        | true =>
          have unshared := careful rfl name file rfl path
          simp only [open_sink, path, if_true]
          constructor
          · intro other session there
            by_cases same : other = slot
            · subst same
              simp only [Function.update_self, Option.some.injEq] at there ⊢
              subst there
              exact ⟨rfl, rfl, rfl, rfl, Function.update_self ..⟩
            simp only [Function.update_of_ne same] at there ⊢
            have kept := inv.sessions there
            exact { kept with
              content := (Function.update_of_ne (unshared other session there) ..).trans
                kept.content }
          · intro one other session another at_one at_other same
            by_cases first : one = slot
            · by_cases second : other = slot
              · rw [first, second]
              rw [first] at at_one
              simp only [Function.update_self, Option.some.injEq,
                Function.update_of_ne second] at at_one at_other
              subst at_one
              exact absurd same.symm (unshared other another at_other)
            · simp only [Function.update_of_ne first] at at_one
              by_cases second : other = slot
              · rw [second] at at_other
                simp only [Function.update_self, Option.some.injEq] at at_other
                subst at_other
                exact absurd same (unshared one session at_one)
              · simp only [Function.update_of_ne second] at at_other
                exact inv.apart at_one at_other same

/-- Every step under the condition keeps the invariant. -/
theorem step (inv : Inv s) (op : Op) (careful : Careful platform s op) :
    Inv (step platform s op) := by
  cases op with
  | start dest size sha256 opens => exact inv.start dest size sha256 opens careful
  | chunk id offset data seeks written => exact inv.chunk id offset data seeks written careful
  | commit session sha256 closes =>
    simp only [FileService.step, handle, handle_commit]
    split
    · exact inv
    split
    · exact inv
    next slot _ =>
      split
      · exact inv
      next session found =>
        split
        · exact inv.giveUp found
        split
        · exact inv.release found fun _ _ => rfl
        · exact inv.giveUp found
  | abort session =>
    simp only [FileService.step, handle, handle_abort]
    split
    · exact inv
    split
    · exact inv
    split
    · exact inv
    next session found => exact inv.giveUp found

end Inv

/-- A commit answers ok only for what the session has received. -/
theorem truthful (platform : Platform File) {s : Service File} (inv : Inv s) (op : Op) :
    Truthful platform s op := by
  rintro id sha256 closes size hash rfl answered
  simp only [answer, handle, handle_commit] at answered
  split at answered
  · cases answered
  next slot here =>
    split at answered
    · cases answered
    next session found =>
      have ok := inv.sessions found
      split at answered
      · cases answered
      next fine =>
        split at answered
        next closed =>
          cases answered
          have after : (step platform s (.commit (some id) sha256 closes)).storage = s.storage := by
            simp only [step, handle, handle_commit, here, found, fine, closed, if_true]
            rfl
          exact ⟨slot, session, here, found, by rw [after]; exact ok.content, ok.received,
            by rw [ok.sha]⟩
        · cases answered

/-- In every run under the condition, whatever a commit that answers ok says is so. -/
theorem commits_truthful (platform : Platform File) (storage : Storage File) (ops : List Op)
    (careful : Along (step platform) (Careful platform) { storage } ops) :
    Along (step platform) (Truthful platform) { storage } ops :=
  careful.always Inv (fun _ op inv now => inv.step op now) (fun _ op inv _ => truthful platform inv op)
    (inv_start storage)

/-- Two sessions; paths are files; the hash is not looked at. -/
def plain : Platform Text where
  maxSessions := 2
  file := fun path => path
  sha256 := fun bytes => bytes

theorem commits_truthful_one :
    Along (step plain) (Truthful plain) { storage := fun _ => none }
      [.start (some "fs:a".toList) 2 none true, .chunk 1 0 [1, 2] true 0, .chunk 1 0 [1, 2] true 2,
        .commit (some 1) none true] := by
  apply commits_truthful plain
  refine ⟨?_, ?_, ?_, trivial, trivial⟩
  · intro _ name path _ _ slot session found
    cases found
  · intro slot session _ _ _
    exact ⟨fun _ => rfl, by simp⟩
  · intro slot session _ _ begun
    refine ⟨by simp, fun _ => ?_⟩
    rw [← begun]
    decide

/-- A write that gets one of two bytes done, and the chunk once more. -/
def afterShortWrite : Service Text :=
  run (step plain) { storage := fun _ => none }
    [.start (some "fs:a".toList) 2 none true, .chunk 1 0 [1, 2] true 1, .chunk 1 0 [1, 2] true 2]

/-- Two sessions that name one file. -/
def afterSharing : Service Text :=
  run (step plain) { storage := fun _ => none }
    [.start (some "fs:a".toList) 1 none true, .start (some "fs:a".toList) 1 none true,
      .chunk 1 0 [1] true 1, .chunk 2 0 [2] true 1]

/-- The stream stands behind the byte that was written, so the file ends up longer; and the
second session writes over the file of the first. -/
theorem short_write_commits :
    ¬ Truthful plain afterShortWrite (.commit (some 1) none true) ∧
      ¬ Truthful plain afterSharing (.commit (some 1) none true) := by
  constructor
  · intro truthful
    obtain ⟨slot, session, here, found, content, -⟩ :=
      truthful 1 none true 2 (to_hex [1, 2]) rfl (by decide)
    have zero : afterShortWrite.find_session plain (UInt32.toUInt16 1) = some 0 := by decide
    cases here.symm.trans zero
    cases found
    revert content
    decide
  · intro truthful
    obtain ⟨slot, session, here, found, content, -⟩ :=
      truthful 1 none true 1 (to_hex [1]) rfl (by decide)
    have zero : afterSharing.find_session plain (UInt32.toUInt16 1) = some 0 := by decide
    cases here.symm.trans zero
    cases found
    revert content
    decide

end HelixKit.Esp32.FileService
