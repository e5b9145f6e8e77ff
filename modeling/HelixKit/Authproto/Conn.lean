/-
Purpose: A framed connection between the PAM module and `helix-authd`: a message a line, of a
  bounded size.
Trusted boundary: none
Main exports: frames_read_back
-/
import HelixKit.Authproto.Message
import HelixKit.Lib.LineReader

namespace HelixKit.Authproto

open HelixKit.GoJson HelixKit.LineReader

/-! ## Reading and writing -/

def maxMessageBytes : Nat := 16 <<< 10

def newline : UInt8 := ch '\n'

/-- How the stream ends: closed by the peer, or with another error. -/
inductive Ending where
  | eof
  | failed
deriving Repr, DecidableEq

inductive ReadError where
  | eof
  | failed
  | tooLarge
  /-- The error of `json.Unmarshal`, as `ErrMalformed`. -/
  | malformed
  | invalid (reason : Invalid)
deriving Repr, DecidableEq

def Ending.error : Ending → ReadError
  | .eof => .eof
  | .failed => .failed

/-- The side of a connection that is read from. -/
structure Conn where
  reader : Reader UInt8
  ending : Ending
deriving Repr, DecidableEq

/-- `NewConn`, on a stream that will arrive in these chunks. -/
def Conn.new (chunks : List Bytes) (ending : Ending) : Conn := ⟨⟨[], chunks⟩, ending⟩

/-- What a line is read as. -/
def accept (line : Bytes) : Except ReadError Message :=
  if line.length > maxMessageBytes then .error .tooLarge
  else
    match unmarshal line with
    | none => .error .malformed
    | some m =>
      match m.validate with
      | .error reason => .error (.invalid reason)
      | .ok () => .ok m

/-- `Read`, with one byte of headroom in the buffer. -/
def Conn.read (conn : Conn) : Except ReadError Message × Conn :=
  let result := readSlice newline (maxMessageBytes + 1) conn.reader.buffered conn.reader.chunks
  let after := { conn with reader := result.2 }
  match result.1 with
  | .full _ => (.error .tooLarge, after)
  | .line line => (accept line, after)
  | .ended line =>
    match conn.ending with
    | .failed => (.error .failed, after)
    | .eof => if line = [] then (.error .eof, after) else (accept line, after)

/-- The message as it is sent. -/
def Message.stamped (m : Message) : Message := { m with version := currentVersion }

inductive WriteError where
  | tooLarge
deriving Repr, DecidableEq

/-- `Write`, on a stream that takes what it is given. -/
def write (m : Message) : Except WriteError Bytes :=
  let encoded := m.stamped.marshal
  if encoded.length + 1 > maxMessageBytes then .error .tooLarge else .ok (encoded ++ [newline])

/-! ## Lines -/

/-- Reading until it fails returns these messages, and then this error. -/
inductive Conn.Reads : Conn → List Message → ReadError → Prop where
  | fails {conn : Conn} {error : ReadError} (failed : conn.read.1 = .error error) :
      Conn.Reads conn [] error
  | reads {conn : Conn} {m : Message} {rest : List Message} {error : ReadError}
      (ok : conn.read.1 = .ok m) (later : Conn.Reads conn.read.2 rest error) :
      Conn.Reads conn (m :: rest) error

/-- A line of the stream, whole or cut off by its end. -/
def acceptLine (ending : Ending) (line : Bytes) : Except ReadError Message :=
  if line.length > maxMessageBytes then .error .tooLarge
  else if line.getLast? ≠ some newline ∧ ending = .failed then .error .failed
  else accept line

/-- The messages that the lines are, up to the first one that is refused. -/
def receive (ending : Ending) : List Bytes → List Message × ReadError
  | [] => ([], ending.error)
  | line :: rest =>
    match acceptLine ending line with
    | .error error => ([], error)
    | .ok m => (m :: (receive ending rest).1, (receive ending rest).2)

/-- What a read does to the bytes that are left. -/
inductive ReadStep (ending : Ending) (pending : Bytes) : Except ReadError Message → Bytes → Prop where
  | ended (nothing : pending = []) : ReadStep ending pending (.error ending.error) []
  | line {line rest : Bytes} (whole : lines newline pending = line :: lines newline rest)
      (shorter : rest.length < pending.length) :
      ReadStep ending pending (acceptLine ending line) rest
  /-- A line that fills the buffer is refused, and what did not fit is left. -/
  | tooLong {line rest : Bytes} {more : List Bytes}
      (whole : lines newline pending = line :: more) (long : line.length > maxMessageBytes) :
      ReadStep ending pending (.error .tooLarge) rest

theorem acceptLine_line (ending : Ending) {body : Bytes} :
    acceptLine ending (body ++ [newline]) = accept (body ++ [newline]) := by
  have last : (body ++ [newline]).getLast? = some newline := List.getLast?_concat
  unfold acceptLine
  rw [last]
  split
  next long =>
    rw [accept, if_pos long]
  · simp

theorem Conn.read_step {conn : Conn} (fits : conn.reader.buffered.length ≤ maxMessageBytes + 1) :
    ReadStep conn.ending conn.reader.pending conn.read.1 conn.read.2.reader.pending ∧
      conn.read.2.ending = conn.ending ∧
        conn.read.2.reader.buffered.length ≤ maxMessageBytes + 1 := by
  obtain ⟨same, fitsAfter⟩ := readSlice_eq newline conn.reader.chunks fits
  change _ = slice newline (maxMessageBytes + 1) conn.reader.pending at same
  generalize conn.reader.pending = pending at same ⊢
  unfold Conn.read
  generalize readSlice newline (maxMessageBytes + 1) conn.reader.buffered conn.reader.chunks = result
    at same fitsAfter
  obtain ⟨found, reader⟩ := result
  dsimp only at same fitsAfter ⊢
  generalize conn.ending = ending
  have parts := List.take_append_drop (maxMessageBytes + 1) pending
  unfold slice at same
  cases cut : cutLine newline (pending.take (maxMessageBytes + 1)) with
  | some pair =>
    obtain ⟨line, rest⟩ := pair
    rw [cut] at same
    obtain ⟨rfl, left⟩ := Prod.mk.inj same
    have whole := cutLine_append (pending.drop (maxMessageBytes + 1)) cut
    rw [parts] at whole
    obtain ⟨body, -, rfl, shape⟩ := cutLine_eq_some.mp whole
    refine ⟨?_, rfl, fitsAfter⟩
    dsimp only
    rw [left, ← acceptLine_line ending]
    refine .line (lines_of_cutLine whole) ?_
    have lengths := congrArg List.length shape
    simp only [List.length_append, List.length_singleton] at lengths ⊢
    omega
  | none =>
    rw [cut] at same
    dsimp only at same
    split at same
    next long =>
      obtain ⟨rfl, left⟩ := Prod.mk.inj same
      refine ⟨?_, rfl, fitsAfter⟩
      have front : (pending.take (maxMessageBytes + 1)).length = maxMessageBytes + 1 := by
        rw [List.length_take]
        omega
      have open_ := cutLine_eq_none.mp cut
      have whole := cutLine_append_of_not_mem (pending.drop (maxMessageBytes + 1)) open_
      rw [parts] at whole
      cases after : cutLine newline (pending.drop (maxMessageBytes + 1)) with
      | none =>
        rw [after] at whole
        have some_ : pending ≠ [] := by
          rintro rfl
          simp at long
        exact .tooLong (lines_of_not_mem (cutLine_eq_none.mp whole) some_) (by omega)
      | some pair =>
        rw [after] at whole
        refine .tooLong (lines_of_cutLine whole) ?_
        rw [List.length_append, front]
        omega
    next short =>
      obtain ⟨rfl, left⟩ := Prod.mk.inj same
      have all : pending.take (maxMessageBytes + 1) = pending :=
        List.take_of_length_le (by omega)
      rw [all] at cut
      have open_ := cutLine_eq_none.mp cut
      by_cases empty : pending = []
      · subst empty
        cases ending with
        | eof => exact ⟨by dsimp only; rw [if_pos rfl, left]; exact .ended rfl, rfl, fitsAfter⟩
        | failed => exact ⟨by dsimp only; rw [left]; exact .ended rfl, rfl, fitsAfter⟩
      · have only : lines newline pending = pending :: lines newline [] :=
          lines_of_not_mem open_ empty
        have cutOff : pending.getLast? ≠ some newline := fun last =>
          open_ (List.mem_of_getLast? last)
        have shorter : ([] : Bytes).length < pending.length := List.length_pos_iff.mpr empty
        have step := @ReadStep.line ending pending pending [] only shorter
        have fits : ¬ pending.length > maxMessageBytes := by omega
        cases ending with
        | failed =>
          rw [acceptLine, if_neg fits, if_pos ⟨cutOff, rfl⟩] at step
          exact ⟨by dsimp only; rw [left]; exact step, rfl, fitsAfter⟩
        | eof =>
          rw [acceptLine, if_neg fits, if_neg (by simp)] at step
          dsimp only
          rw [if_neg empty]
          exact ⟨by rw [left]; exact step, rfl, fitsAfter⟩

/-- Up to its first error a connection returns the lines of its stream, whole and in order. A line
over the limit is such an error. -/
theorem reads_lines {conn : Conn} (fits : conn.reader.buffered.length ≤ maxMessageBytes + 1) :
    conn.Reads (receive conn.ending (lines newline conn.reader.pending)).1
      (receive conn.ending (lines newline conn.reader.pending)).2 := by
  generalize size : conn.reader.pending.length = n
  induction n using Nat.strong_induction_on generalizing conn with
  | _ n ih =>
    obtain ⟨step, ending, fitsAfter⟩ := conn.read_step fits
    generalize read : conn.read.1 = answer at step
    generalize left : conn.read.2.reader.pending = rest at step
    cases step with
    | ended nothing =>
      rw [nothing]
      exact .fails read
    | @tooLong line _ more whole long =>
      rw [whole, receive]
      have refused : acceptLine conn.ending line = .error .tooLarge := by
        rw [acceptLine, if_pos long]
      rw [refused]
      exact .fails read
    | @line line _ whole shorter =>
      rw [whole, receive]
      cases accepted : acceptLine conn.ending line with
      | error error =>
        rw [accepted] at read
        exact .fails read
      | ok m =>
        rw [accepted] at read
        have later := ih rest.length (size ▸ shorter) fitsAfter (by rw [left])
        rw [left, ending] at later
        exact .reads read later

variable {ms : List Message}

/-- What a connection returns until it fails is determined. -/
theorem Conn.Reads.unique {conn : Conn} {others : List Message} {error other : ReadError}
    (reads : conn.Reads ms error) (readsToo : conn.Reads others other) :
    ms = others ∧ error = other := by
  induction reads generalizing others with
  | fails failed =>
    cases readsToo with
    | fails failedToo => exact ⟨rfl, Except.error.inj (failed.symm.trans failedToo)⟩
    | reads ok => exact absurd (failed.symm.trans ok) (by simp)
  | reads ok later ih =>
    cases readsToo with
    | fails failed => exact absurd (failed.symm.trans ok) (by simp)
    | reads okToo laterToo =>
      obtain ⟨rfl, rfl⟩ := ih laterToo
      exact ⟨by rw [Except.ok.inj (ok.symm.trans okToo)], rfl⟩

/-! ## What is written is read back -/

/-- A message that the other side accepts, in valid UTF-8. -/
structure Message.Sound (m : Message) : Prop where
  validates : m.stamped.validate = .ok ()
  valid : m.Valid

variable {m : Message}

theorem Message.valid_stamped (valid : m.Valid) : m.stamped.Valid := by
  intro field
  have same : m.stamped.get field = m.get field := by
    cases field <;> rfl
  rw [same]
  exact valid field

theorem write_ok {frame : Bytes} (written : write m = .ok frame) :
    frame = m.stamped.marshal ++ [newline] ∧ frame.length ≤ maxMessageBytes := by
  unfold write at written
  dsimp only at written
  split at written
  · cases written
  next fits =>
    obtain rfl := Except.ok.inj written
    refine ⟨rfl, ?_⟩
    rw [List.length_append, List.length_singleton]
    omega

theorem newline_notMem_marshal (m : Message) : newline ∉ m.stamped.marshal := by
  intro inside
  have printable := marshal_printable (m := m.stamped) rfl inside
  exact absurd printable (by decide)

theorem acceptLine_frame {frame : Bytes} {ending : Ending}
    (written : write m = .ok frame) (sound : m.Sound) : acceptLine ending frame = .ok m.stamped := by
  obtain ⟨rfl, fits⟩ := write_ok written
  have same : m.stamped.clean = m.stamped :=
    Message.clean_of_valid (Message.valid_stamped sound.valid)
  have read : unmarshal (m.stamped.marshal ++ [newline]) = some m.stamped :=
    (unmarshal_marshal rfl).trans (congrArg some same)
  rw [acceptLine_line, accept, if_neg (Nat.not_lt.mpr fits), read]
  simp only [sound.validates]

theorem mapM_write_cons {frames : List Bytes} (written : (m :: ms).mapM write = .ok frames) :
    ∃ rest, write m = .ok (m.stamped.marshal ++ [newline]) ∧ ms.mapM write = .ok rest ∧
      frames = (m.stamped.marshal ++ [newline]) :: rest := by
  rw [List.mapM_cons] at written
  cases first : write m with
  | error error => simp [first, bind, Except.bind] at written
  | ok frame =>
    cases others : ms.mapM write with
    | error error => simp [first, others, bind, Except.bind] at written
    | ok rest =>
      obtain rfl : frame :: rest = frames := by
        simpa [first, others, bind, Except.bind, pure, Except.pure] using written
      obtain ⟨rfl, -⟩ := write_ok first
      exact ⟨rest, rfl, rfl, rfl⟩

theorem length_le_flatten {frames : List Bytes}
    (written : ms.mapM write = .ok frames) : ms.length ≤ frames.flatten.length := by
  induction ms generalizing frames with
  | nil => exact Nat.zero_le _
  | cons m ms ih =>
    obtain ⟨rest, -, later, rfl⟩ := mapM_write_cons written
    have shorter := ih later
    simp only [List.length_cons, List.flatten_cons, List.length_append, List.length_nil]
    omega

theorem lines_frames {frames : List Bytes}
    (written : ms.mapM write = .ok frames) : lines newline frames.flatten = frames := by
  obtain ⟨bodies, absent, rfl⟩ : ∃ bodies : List Bytes, (∀ body ∈ bodies, newline ∉ body) ∧
      frames = bodies.map (· ++ [newline]) := by
    induction ms generalizing frames with
    | nil =>
      obtain rfl := Except.ok.inj written
      exact ⟨[], by simp, rfl⟩
    | cons m ms ih =>
      obtain ⟨rest, -, others, rfl⟩ := mapM_write_cons written
      obtain ⟨bodies, absent, rfl⟩ := ih others
      refine ⟨m.stamped.marshal :: bodies, ?_, rfl⟩
      intro body member
      rcases List.mem_cons.mp member with rfl | later
      · exact newline_notMem_marshal m
      · exact absent body later
  exact lines_flatten absent

theorem receive_frames {frames : List Bytes} {ending : Ending}
    (written : ms.mapM write = .ok frames) (sound : ∀ m ∈ ms, m.Sound) :
    receive ending frames = (ms.map Message.stamped, ending.error) := by
  induction ms generalizing frames with
  | nil =>
    obtain rfl := Except.ok.inj written
    rfl
  | cons m ms ih =>
    obtain ⟨rest, first, others, rfl⟩ := mapM_write_cons written
    rw [receive, acceptLine_frame first (sound m List.mem_cons_self),
      ih others fun other member => sound other (List.mem_cons_of_mem m member)]
    rfl

/-- Messages that were written are read as they were sent, however the stream cuts them; and of any
stream the messages up to the first error are its lines, one each, with an error at the first line
over the limit. -/
theorem frames_read_back (ms : List Message) (frames : List Bytes)
    (written : ms.mapM write = .ok frames) (sound : ∀ m ∈ ms, m.Sound) :
    (∀ chunks ending, chunks.flatten = frames.flatten →
      (Conn.new chunks ending).Reads (ms.map Message.stamped) ending.error) ∧
    ∀ chunks ending, (Conn.new chunks ending).Reads
      (receive ending (lines newline chunks.flatten)).1
      (receive ending (lines newline chunks.flatten)).2 := by
  have any : ∀ chunks ending, (Conn.new chunks ending).Reads
      (receive ending (lines newline chunks.flatten)).1
      (receive ending (lines newline chunks.flatten)).2 := by
    intro chunks ending
    exact @reads_lines (.new chunks ending) (Nat.zero_le _)
  refine ⟨?_, any⟩
  intro chunks ending cut
  have reads := any chunks ending
  rw [cut, lines_frames written, receive_frames written sound] at reads
  exact reads

/-- The start of a session, and an answer. -/
def sampleMessages : List Message :=
  [{ type := typeStart, username := asciiBytes "alice" },
    { type := typePromptResponse, promptID := asciiBytes "p1", value := asciiBytes "12\"34" }]

def sampleFrames : List Bytes :=
  [asciiBytes "\x7b\"version\":1,\"type\":\"start\",\"username\":\"alice\"\x7d\n",
    asciiBytes "\x7b\"version\":1,\"type\":\"prompt_response\",\"prompt_id\":\"p1\",\"value\":\"12\\\"34\"\x7d\n"]

theorem written_sample : sampleMessages.mapM write = .ok sampleFrames := by
  decide +kernel

theorem sound_sample : ∀ m ∈ sampleMessages, m.Sound := by
  intro m member
  simp only [sampleMessages, List.mem_cons, List.not_mem_nil, or_false] at member
  rcases member with rfl | rfl
  · exact ⟨by decide +kernel, by intro field; cases field <;> decide⟩
  · exact ⟨by decide +kernel, by intro field; cases field <;> decide⟩

theorem frames_read_back_sample :
    (∀ chunks ending, chunks.flatten = sampleFrames.flatten →
      (Conn.new chunks ending).Reads (sampleMessages.map Message.stamped) ending.error) ∧
    ∀ chunks ending, (Conn.new chunks ending).Reads
      (receive ending (lines newline chunks.flatten)).1
      (receive ending (lines newline chunks.flatten)).2 :=
  frames_read_back sampleMessages sampleFrames written_sample sound_sample

/-- A type that no reader knows. -/
def unknownMessage : Message := { type := asciiBytes "bogus" }

def unknownFrame : Bytes := asciiBytes "\x7b\"version\":1,\"type\":\"bogus\"\x7d\n"

/-- A text that is no UTF-8. -/
def rawMessage : Message := { type := typeDisplay, text := [0xFF] }

def rawFrame : Bytes := asciiBytes "\x7b\"version\":1,\"type\":\"display\",\"text\":\"\\ufffd\"\x7d\n"

/-- A line as long as the buffer, of which nothing is read, and what follows on it. -/
def overlong (tail : Bytes) : Bytes := List.replicate (maxMessageBytes + 1) (ch 'x') ++ tail

theorem read_full {conn : Conn} {buffer : Bytes} {rest : Reader UInt8}
    (full : readSlice newline (maxMessageBytes + 1) conn.reader.buffered conn.reader.chunks =
      (.full buffer, rest)) : conn.read = (.error .tooLarge, { conn with reader := rest }) := by
  unfold Conn.read
  rw [full]

theorem read_overlong {tail : Bytes} (some_ : tail ≠ []) :
    (Conn.new [overlong tail] .eof).read = (.error .tooLarge, Conn.new [tail] .eof) := by
  let size := maxMessageBytes + 1
  have front : (overlong tail).take size = List.replicate size (ch 'x') :=
    List.take_left' List.length_replicate
  have back : (overlong tail).drop size = tail := List.drop_left' List.length_replicate
  have open_ : cutLine newline (List.replicate size (ch 'x')) = none := by
    rw [cutLine_eq_none, List.mem_replicate]
    rintro ⟨-, same⟩
    exact absurd same (by decide)
  have long : ¬ (overlong tail).length ≤ size := by
    have more := List.length_pos_iff.mpr some_
    rw [overlong, List.length_append, List.length_replicate]
    omega
  have read : readSlice newline size [] [overlong tail] =
      (.full (List.replicate size (ch 'x')), ⟨[], [tail]⟩) := by
    have undecided : settled newline size [] [overlong tail] = none := rfl
    rw [readSlice, undecided]
    dsimp only
    rw [List.length_nil, Nat.sub_zero, if_neg long, front, back, List.nil_append, settled, open_]
    dsimp only
    rw [if_pos (by rw [List.length_replicate]), Option.getD_some]
  exact read_full read

/-- Not every message that is written is read: a reader refuses types it does not know, and texts
that are no UTF-8 arrive changed. And what follows on a line that was refused is read as a line. -/
theorem unsound_not_read_back :
    (¬ ∀ (ms : List Message) (frames : List Bytes), (∀ m ∈ ms, m.Valid) →
      ms.mapM write = .ok frames →
      (Conn.new [frames.flatten] .eof).Reads (ms.map Message.stamped) .eof) ∧
    (¬ ∀ (ms : List Message) (frames : List Bytes),
      (∀ m ∈ ms, m.stamped.validate = .ok ()) → ms.mapM write = .ok frames →
      (Conn.new [frames.flatten] .eof).Reads (ms.map Message.stamped) .eof) ∧
    ∃ stream line m, lines newline stream = [line] ∧ line.length > maxMessageBytes ∧
      (Conn.new [stream] .eof).read.1 = .error .tooLarge ∧
      (Conn.new [stream] .eof).read.2.read.1 = .ok m := by
  refine ⟨?_, ?_, ?_⟩
  · intro all
    have reads := all [unknownMessage] [unknownFrame]
      (by intro m member; rw [List.mem_singleton.mp member]; intro field; cases field <;> decide)
      (by decide +kernel)
    have refused : (Conn.new [[unknownFrame].flatten] .eof).Reads []
        (.invalid (.unknownType (asciiBytes "bogus"))) := .fails (by decide +kernel)
    have same := (reads.unique refused).1
    exact absurd same (by decide)
  · intro all
    have reads := all [rawMessage] [rawFrame]
      (by intro m member; rw [List.mem_singleton.mp member]; decide +kernel) (by decide +kernel)
    have changed : (Conn.new [[rawFrame].flatten] .eof).Reads
        [{ rawMessage.stamped with text := replacement }] .eof :=
      .reads (by decide +kernel) (.fails (by decide +kernel))
    have same := (reads.unique changed).1
    exact absurd same (by decide)
  · let tail : Bytes := asciiBytes "\x7b\"version\":1,\"type\":\"display\"\x7d\n"
    have some_ : tail ≠ [] := by decide
    have whole : overlong tail = (overlong (asciiBytes "\x7b\"version\":1,\"type\":\"display\"\x7d")) ++
        [newline] := by
      rw [overlong, overlong, List.append_assoc]
      rfl
    have cut : cutLine newline (overlong tail) = some (overlong tail, []) := by
      refine cutLine_eq_some.mpr ⟨_, ?_, whole, (List.append_nil _).symm⟩
      rw [overlong, List.mem_append, List.mem_replicate]
      rintro (⟨-, same⟩ | later)
      · exact absurd same (by decide)
      · exact absurd later (by decide)
    refine ⟨overlong tail, overlong tail, { type := typeDisplay, version := 1 },
      lines_of_cutLine cut, ?_, ?_, ?_⟩
    · rw [overlong, List.length_append, List.length_replicate]
      omega
    · rw [read_overlong some_]
    · rw [read_overlong some_]
      decide +kernel

end HelixKit.Authproto
