/-
Purpose: The frames that the two sides of the IPC socket write, and the lines that the other side
  reads of them.
Trusted boundary: a write that reports no error has written the whole frame
Main exports: long_command_refused
-/
import HelixKit.Lib.GoCompact
import HelixKit.Lib.LineScanner

namespace HelixKit.Ipc.Frames

open HelixKit.GoJson HelixKit.LineScanner

/-! ## Texts -/

/-- `MaxMessageBytes` -/
def maxMessageBytes : Nat := 512 * 1024

def newline : UInt8 := 0x0A

/-- A struct by its tags and the texts of its fields. -/
def objectOf (fields : List (String × Bytes)) : Bytes :=
  match fields.map fun field => (asciiBytes field.1, field.2) with
  | [] => asciiBytes "\x7b\x7d"
  | first :: more => objectText first more

/-- A string with `omitempty`. -/
def stringField (tag : String) (text : Bytes) : List (String × Bytes) :=
  if text = [] then [] else [(tag, quote text)]

/-- A raw message with `omitempty`. -/
def rawField (tag : String) (raw : Bytes) : Option (List (String × Bytes)) :=
  if raw = [] then some [] else (marshalRaw (some raw)).map fun text => [(tag, text)]

def decimal (n : Int) : Bytes :=
  (if n < 0 then [ch '-'] else []) ++ (Nat.toDigits 10 n.natAbs).map ch

structure RegisterServiceParams where
  service : Bytes

def RegisterServiceParams.marshal (p : RegisterServiceParams) : Option Bytes :=
  some (objectOf [("service", quote p.service)])

structure RespondParams where
  method : Bytes
  payload : Option Bytes
  requestId : Bytes

def RespondParams.marshal (p : RespondParams) : Option Bytes :=
  (marshalRaw p.payload).map fun payload =>
    objectOf ([("method", quote p.method), ("payload", payload)] ++
      stringField "requestId" p.requestId)

structure EmitEventParams where
  type : Bytes
  payload : Option Bytes

def EmitEventParams.marshal (p : EmitEventParams) : Option Bytes :=
  (marshalRaw p.payload).map fun payload =>
    objectOf [("type", quote p.type), ("payload", payload)]

structure CommandParams where
  service : Bytes
  method : Bytes
  payload : Option Bytes
  requestId : Bytes

def CommandParams.marshal (p : CommandParams) : Option Bytes :=
  (marshalRaw p.payload).map fun payload =>
    objectOf ([("service", quote p.service), ("method", quote p.method), ("payload", payload)] ++
      stringField "requestId" p.requestId)

/-- `Request`, marshalled. -/
def requestText (id method : Bytes) (params : Bytes) : Option Bytes :=
  (rawField "params" params).map fun params =>
    objectOf ([("id", quote id), ("method", quote method)] ++ params)

/-- `okResponse`, marshalled. -/
def okResponse (id : Bytes) : Option Bytes :=
  (rawField "result" (asciiBytes "\x7b\"ok\":true\x7d")).map fun result =>
    objectOf (("id", quote id) :: result)

/-- `errResponse`, marshalled. -/
def errResponse (id : Bytes) (code : Int) (msg : Bytes) : Option Bytes :=
  some (objectOf [("id", quote id),
    ("error", objectOf [("code", decimal code), ("message", quote msg)])])

/-- A notification of a command, marshalled. -/
def notificationText (params : Bytes) : Option Bytes :=
  (rawField "params" params).map fun params =>
    objectOf (("method", quote (asciiBytes "command")) :: params)

/-! ## Frames -/

/-- `request`: an error where the params cannot be marshalled. -/
def request (id : Bytes) (method : String) (params : Option Bytes) : Option Bytes :=
  params.map fun raw => (requestText id (asciiBytes method) raw).getD [] ++ [newline]

/-- `writeJSON`: an error where the value cannot be marshalled. -/
def writeJSON (text : Option Bytes) : Option Bytes := text.map fun data => data ++ [newline]

/-- What a client writes, and what the server writes. -/
inductive Message where
  | register (id : Bytes) (params : RegisterServiceParams)
  | respond (id : Bytes) (params : RespondParams)
  | emit (id : Bytes) (params : EmitEventParams)
  | ok (id : Bytes)
  | error (id : Bytes) (code : Int) (msg : Bytes)
  | command (params : CommandParams)

/-- The frame of a message that is written without an error. -/
def Message.frame : Message → Option Bytes
  | .register id params => request id "register-service" params.marshal
  | .respond id params => request id "respond" params.marshal
  | .emit id params => request id "emit-event" params.marshal
  | .ok id => writeJSON (okResponse id)
  | .error id code msg => writeJSON (errResponse id code msg)
  | .command params => writeJSON (notificationText (params.marshal.getD []))

/-! ## Lines -/

/-- `dropCR` of `bufio`. -/
def dropCR (line : Bytes) : Bytes := if line.getLast? = some 0x0D then line.dropLast else line

/-- The scanner of `handleConn` and `readLoop`, with how much each read brings at most. -/
def readLines (reads : List Nat) (source : Bytes) : Scanned UInt8 :=
  let scanned := scan newline maxMessageBytes reads ⟨[], 64 * 1024⟩ source
  ⟨scanned.lines.map dropCR, scanned.tooLong⟩

/-- The reader gives up over none of the frames, however they arrive, and once all of it has arrived
has read each of them. -/
def Accepted (frames : List Bytes) : Prop :=
  ∀ reads, (readLines reads frames.flatten).tooLong = false ∧
    (frames.flatten.length ≤ reads.length →
      (readLines reads frames.flatten).lines.map (· ++ [newline]) = frames)

/-! ## The bytes of a frame -/

def Printable (text : Bytes) : Prop := ∀ c ∈ text, 0x20 ≤ c

theorem printable_quote (text : Bytes) : Printable (quote text) := fun _ => quote_printable

theorem printable_objectOf {fields : List (String × Bytes)}
    (printable : ∀ field ∈ fields, Printable field.2) : Printable (objectOf fields) := by
  unfold objectOf
  split
  · exact fun c => printable_of_all (by decide)
  next first more shape =>
    intro c member
    refine objectText_printable (fun item inside => ?_) member
    rw [← shape] at inside
    obtain ⟨field, own, rfl⟩ := List.mem_map.mp inside
    exact printable field own

theorem printable_marshalRaw {raw : Option Bytes} {text : Bytes}
    (written : marshalRaw raw = some text) : Printable text := by
  cases raw with
  | none =>
    cases written
    exact fun c => printable_of_all (by decide)
  | some raw =>
    simp only [marshalRaw] at written
    split at written
    · exact compactFrom_printable written
    · cases written

theorem printable_rawField {tag : String} {raw : Bytes} {fields : List (String × Bytes)}
    (written : rawField tag raw = some fields) : ∀ field ∈ fields, Printable field.2 := by
  unfold rawField at written
  split at written
  · cases written
    simp
  · obtain ⟨text, marshalled, rfl⟩ := Option.map_eq_some_iff.mp written
    simpa using printable_marshalRaw marshalled

theorem ch_digit_printable {d : Char} (isDigit : d.isDigit = true) : 0x20 ≤ ch d := by
  have bounds : 48 ≤ d.toNat ∧ d.toNat ≤ 57 := by
    simp only [Char.isDigit, Bool.and_eq_true, decide_eq_true_eq] at isDigit
    exact isDigit
  have same : (ch d).toNat = d.toNat := by
    rw [ch, UInt8.toNat_ofNat']
    omega
  rw [UInt8.le_iff_toNat_le, same]
  exact Nat.le_trans (by decide) bounds.1

theorem printable_decimal (n : Int) : Printable (decimal n) := by
  intro c member
  rcases List.mem_append.mp member with sign | digit
  · split at sign
    · exact printable_of_all (by decide) sign
    · cases sign
  · obtain ⟨d, inside, rfl⟩ := List.mem_map.mp digit
    have isDigit := Nat.isDigit_of_mem_toDigits (by decide) (by decide) inside
    exact ch_digit_printable isDigit

theorem printable_request {id : Bytes} {method : String} {params : Option Bytes} {frame : Bytes}
    (written : request id method params = some frame) :
    ∃ body, Printable body ∧ frame = body ++ [newline] := by
  unfold request at written
  obtain ⟨raw, -, rfl⟩ := Option.map_eq_some_iff.mp written
  refine ⟨_, ?_, rfl⟩
  cases text : requestText id (asciiBytes method) raw with
  | none => exact fun c member => by cases member
  | some text_ =>
    unfold requestText at text
    obtain ⟨fields, found, rfl⟩ := Option.map_eq_some_iff.mp text
    rw [Option.getD_some]
    refine printable_objectOf fun field member => ?_
    simp only [List.cons_append, List.nil_append, List.mem_cons] at member
    rcases member with rfl | rfl | inside
    · exact printable_quote _
    · exact printable_quote _
    · exact printable_rawField found field inside

theorem printable_writeJSON {text : Option Bytes} {frame : Bytes}
    (written : writeJSON text = some frame)
    (printable : ∀ data, text = some data → Printable data) :
    ∃ body, Printable body ∧ frame = body ++ [newline] := by
  unfold writeJSON at written
  obtain ⟨data, found, rfl⟩ := Option.map_eq_some_iff.mp written
  exact ⟨data, printable data found, rfl⟩

theorem printable_okResponse {id data : Bytes} (written : okResponse id = some data) :
    Printable data := by
  unfold okResponse at written
  obtain ⟨fields, found, rfl⟩ := Option.map_eq_some_iff.mp written
  exact printable_objectOf (List.forall_mem_cons.mpr ⟨printable_quote _, printable_rawField found⟩)

theorem printable_errResponse {id msg data : Bytes} {code : Int}
    (written : errResponse id code msg = some data) : Printable data := by
  have inner : Printable (objectOf [("code", decimal code), ("message", quote msg)]) :=
    printable_objectOf (by simpa using ⟨printable_decimal code, printable_quote msg⟩)
  unfold errResponse at written
  rw [← Option.some.inj written]
  exact printable_objectOf (by simpa using ⟨printable_quote id, inner⟩)

theorem printable_notificationText {params data : Bytes}
    (written : notificationText params = some data) : Printable data := by
  unfold notificationText at written
  obtain ⟨fields, found, rfl⟩ := Option.map_eq_some_iff.mp written
  exact printable_objectOf (List.forall_mem_cons.mpr ⟨printable_quote _, printable_rawField found⟩)

theorem printable_frame {message : Message} {frame : Bytes} (written : message.frame = some frame) :
    ∃ body, Printable body ∧ frame = body ++ [newline] := by
  cases message with
  | register id params | respond id params | emit id params => exact printable_request written
  | ok id => exact printable_writeJSON written fun _ => printable_okResponse
  | error id code msg => exact printable_writeJSON written fun _ => printable_errResponse
  | command params => exact printable_writeJSON written fun _ => printable_notificationText

/-! ## What is read -/

theorem newline_notMem {body : Bytes} (printable : Printable body) : newline ∉ body :=
  fun member => absurd (printable newline member) (by decide)

theorem dropCR_printable {body : Bytes} (printable : Printable body) : dropCR body = body := by
  unfold dropCR
  rw [if_neg fun last => ?_]
  exact absurd (printable _ (List.mem_of_getLast? last)) (by decide)

theorem readLines_lines (reads : List Nat) (source : Bytes) :
    (readLines reads source).lines =
      (scan newline maxMessageBytes reads ⟨[], 64 * 1024⟩ source).lines.map dropCR := rfl

theorem readLines_tooLong (reads : List Nat) (source : Bytes) :
    (readLines reads source).tooLong =
      (scan newline maxMessageBytes reads ⟨[], 64 * 1024⟩ source).tooLong := rfl

theorem ready_start {bodies : List Bytes} (printable : ∀ body ∈ bodies, Printable body) :
    Ready newline maxMessageBytes bodies ⟨[], 64 * 1024⟩ (bodies.map (· ++ [newline])).flatten where
  clean body member := newline_notMem (printable body member)
  whole := rfl
  some_ := Nat.lt_of_sub_ne_zero (by decide)
  within := Nat.le_of_ble_eq_true rfl
  fits := Nat.zero_le _

/-- Frames of printable bodies are accepted when none is too long. -/
theorem accepted_bodies_iff {bodies : List Bytes} (printable : ∀ body ∈ bodies, Printable body) :
    Accepted (bodies.map (· ++ [newline])) ↔ ∀ body ∈ bodies, body.length < maxMessageBytes := by
  have ready := ready_start printable
  have kept : bodies.map dropCR = bodies := by
    conv_rhs => rw [← List.map_id bodies]
    exact List.map_congr_left fun body member => dropCR_printable (printable body member)
  constructor
  · intro accepted body member
    generalize reading : List.replicate (bodies.map (· ++ [newline])).flatten.length 0 = reads
    have enough : (bodies.map (· ++ [newline])).flatten.length ≤ reads.length := by
      rw [← reading, List.length_replicate]
    obtain ⟨goes, -⟩ := accepted reads
    rw [readLines_tooLong] at goes
    obtain ⟨-, short⟩ := scan_prefix reads ready
    rw [scan_all reads ready enough goes] at short
    exact short body member
  · intro short reads
    have goes := scan_fits reads ready short
    rw [readLines_tooLong, readLines_lines]
    refine ⟨goes, fun enough => ?_⟩
    rw [scan_all reads ready enough goes, kept]

theorem exists_bodies (messages : List Message) :
    ∃ bodies : List Bytes, (∀ body ∈ bodies, Printable body) ∧
      messages.filterMap Message.frame = bodies.map (· ++ [newline]) := by
  induction messages with
  | nil => exact ⟨[], by simp, rfl⟩
  | cons message rest ih =>
    obtain ⟨bodies, printable, shape⟩ := ih
    cases written : message.frame with
    | none => exact ⟨bodies, printable, by rw [List.filterMap_cons_none written, shape]⟩
    | some frame =>
      obtain ⟨body, own, rfl⟩ := printable_frame written
      exact ⟨body :: bodies, List.forall_mem_cons.mpr ⟨own, printable⟩,
        by rw [List.filterMap_cons_some written, shape, List.map_cons]⟩

/-- The frames of a side are accepted exactly when none is longer than the limit. -/
theorem accepted_iff (messages : List Message) :
    Accepted (messages.filterMap Message.frame) ↔
      ∀ frame ∈ messages.filterMap Message.frame, frame.length ≤ maxMessageBytes := by
  obtain ⟨bodies, printable, shape⟩ := exists_bodies messages
  rw [shape, accepted_bodies_iff printable, List.forall_mem_map]
  simp only [List.length_append, List.length_singleton, Nat.succ_le_iff]

/-! ## A long command -/

/-- A command whose payload is a string of so many letters. -/
def letters (n : Nat) : CommandParams where
  service := asciiBytes "terminal"
  method := asciiBytes "data"
  payload := some (quote (List.replicate n (ch 'a')))
  requestId := []

theorem ordinary_letters (n : Nat) : ∀ b ∈ List.replicate n (ch 'a'), Ordinary b := by
  intro b member
  rw [List.eq_of_mem_replicate member]
  exact ordinary_of_all (by decide) _ (List.mem_singleton_self _)

/-- The params of the command are compact, and longer than the letters. -/
theorem marshal_letters (n : Nat) : ∃ raw, (letters n).marshal = some raw ∧ Tidy raw ∧
    (parse raw).isSome = true ∧ n < raw.length := by
  have ordinary := ordinary_letters n
  have payload : quote (List.replicate n (ch 'a')) =
      ch '"' :: (List.replicate n (ch 'a') ++ [ch '"']) :=
    quote_ordinary ordinary
  have written : marshalRaw (letters n).payload = some (quote (List.replicate n (ch 'a'))) := by
    have found := parse_quote (List.replicate n (ch 'a'))
    simp only [letters, marshalRaw, found, Option.isSome_some, if_true,
      (tidy_quote ordinary).compact]
  refine ⟨objectText (asciiBytes "service", quote (asciiBytes "terminal"))
    [(asciiBytes "method", quote (asciiBytes "data")),
      (asciiBytes "payload", quote (List.replicate n (ch 'a')))], ?_, ?_, ?_, ?_⟩
  · rw [CommandParams.marshal, written]
    rfl
  · have service : ∀ b ∈ asciiBytes "service", Ordinary b := ordinary_of_all (by decide)
    have terminal : ∀ b ∈ asciiBytes "terminal", Ordinary b := ordinary_of_all (by decide)
    have method : ∀ b ∈ asciiBytes "method", Ordinary b := ordinary_of_all (by decide)
    have data : ∀ b ∈ asciiBytes "data", Ordinary b := ordinary_of_all (by decide)
    have payload_ : ∀ b ∈ asciiBytes "payload", Ordinary b := ordinary_of_all (by decide)
    refine tidy_objectText fun item member => ?_
    simp only [List.mem_cons, List.not_mem_nil, or_false] at member
    rcases member with rfl | rfl | rfl
    · exact ⟨service, tidy_quote terminal⟩
    · exact ⟨method, tidy_quote data⟩
    · exact ⟨payload_, tidy_quote ordinary⟩
  · have read := @parse_object
      ⟨asciiBytes "service", quote (asciiBytes "terminal"), _, by decide, writes_string _⟩
      [⟨asciiBytes "method", quote (asciiBytes "data"), _, by decide, writes_string _⟩,
        ⟨asciiBytes "payload", quote (List.replicate n (ch 'a')), _, by decide, writes_string _⟩]
      [] (by simp)
    rw [List.append_nil] at read
    exact Option.isSome_of_eq_some read
  · have part := @length_le_objectText (asciiBytes "service", quote (asciiBytes "terminal"))
      (asciiBytes "payload", quote (List.replicate n (ch 'a')))
      [(asciiBytes "method", quote (asciiBytes "data")),
        (asciiBytes "payload", quote (List.replicate n (ch 'a')))] (by simp)
    refine Nat.lt_of_lt_of_le ?_ part
    rw [payload]
    simp only [List.length_cons, List.length_append, List.length_replicate, List.length_nil]
    omega

/-- A command with a string of so many letters is written, and its frame is longer. -/
theorem letters_frame (n : Nat) : ∃ frame, (Message.command (letters n)).frame = some frame ∧
    n < frame.length := by
  obtain ⟨raw, marshalled, tidy, parsed, long⟩ := marshal_letters n
  have some_ : raw ≠ [] := List.ne_nil_of_length_pos (Nat.zero_lt_of_lt long)
  have field : rawField "params" raw = some [("params", raw)] := by
    rw [rawField, if_neg some_, marshalRaw, if_pos parsed, tidy.compact]
    rfl
  refine ⟨objectOf [("method", quote (asciiBytes "command")), ("params", raw)] ++ [newline], ?_, ?_⟩
  · rw [Message.frame, marshalled, Option.getD_some, writeJSON, notificationText, field]
    rfl
  · have part := @length_le_objectText (asciiBytes "method", quote (asciiBytes "command"))
      (asciiBytes "params", raw) [(asciiBytes "params", raw)] (by simp)
    have shape : objectOf [("method", quote (asciiBytes "command")), ("params", raw)] =
        objectText (asciiBytes "method", quote (asciiBytes "command"))
          [(asciiBytes "params", raw)] := rfl
    rw [shape, List.length_append]
    exact Nat.lt_of_lt_of_le long (Nat.le_trans part (Nat.le_add_right _ _))

/-- A command that the server writes without an error is not read by the client. -/
theorem long_command_refused :
    (Message.command (letters maxMessageBytes)).frame.isSome = true ∧
    ¬ Accepted ([Message.command (letters maxMessageBytes)].filterMap Message.frame) := by
  obtain ⟨frame, written, long⟩ := letters_frame maxMessageBytes
  refine ⟨Option.isSome_of_eq_some written, fun accepted => ?_⟩
  obtain ⟨body, printable, rfl⟩ := printable_frame written
  have shape : [Message.command (letters maxMessageBytes)].filterMap Message.frame =
      [body].map (· ++ [newline]) := by
    rw [List.filterMap_cons_some written]
    rfl
  rw [shape, accepted_bodies_iff (by simpa using printable)] at accepted
  have short := accepted body (List.mem_singleton_self _)
  rw [List.length_append, List.length_singleton] at long
  omega

end HelixKit.Ipc.Frames
