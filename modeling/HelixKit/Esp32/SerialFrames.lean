/-
Purpose: Lines and binary frames over the serial transport: what the device takes from
  them, however their bytes are split into reads.
Trusted boundary: none
Main exports: frames_recovered
-/
import HelixKit.Esp32.SerialTransport

namespace HelixKit.Esp32.SerialTransport

open HelixKit.Runs

/-! ## Numbers in little-endian order -/

theorem le16_toUInt8 (number : UInt16) : le16 number.toUInt8 (number >>> 8).toUInt8 = number := by
  apply UInt16.toNat_inj.mp
  apply Nat.eq_of_testBit_eq
  intro i
  have high : 16 ≤ i → number.toNat.testBit i = false := fun above =>
    Nat.testBit_lt_two_pow
      (Nat.lt_of_lt_of_le number.toNat_lt (Nat.pow_le_pow_right Nat.two_pos above))
  have shift : UInt16.toNat 8 % 16 = 8 := rfl
  simp only [le16, UInt16.toNat_or, UInt8.toNat_toUInt16, UInt16.toNat_toUInt8,
    UInt16.toNat_shiftLeft, UInt16.toNat_shiftRight, Nat.testBit_or, Nat.testBit_mod_two_pow,
    Nat.testBit_shiftLeft, Nat.testBit_shiftRight, shift]
  grind

theorem le32_toUInt8 (number : UInt32) :
    le32 number.toUInt8 (number >>> 8).toUInt8 (number >>> 16).toUInt8 (number >>> 24).toUInt8 =
      number := by
  apply UInt32.toNat_inj.mp
  apply Nat.eq_of_testBit_eq
  intro i
  have high : 32 ≤ i → number.toNat.testBit i = false := fun above =>
    Nat.testBit_lt_two_pow
      (Nat.lt_of_lt_of_le number.toNat_lt (Nat.pow_le_pow_right Nat.two_pos above))
  have shift8 : UInt32.toNat 8 % 32 = 8 := rfl
  have shift16 : UInt32.toNat 16 % 32 = 16 := rfl
  have shift24 : UInt32.toNat 24 % 32 = 24 := rfl
  simp only [le32, UInt32.toNat_or, UInt8.toNat_toUInt32, UInt32.toNat_toUInt8,
    UInt32.toNat_shiftLeft, UInt32.toNat_shiftRight, Nat.testBit_or, Nat.testBit_mod_two_pow,
    Nat.testBit_shiftLeft, Nat.testBit_shiftRight, shift8, shift16, shift24]
  grind

/-! ## Sending -/

/-- The header of a sent frame. -/
def frameHeader (session : UInt16) (offset : UInt32) (len : UInt16) : Bytes :=
  [binaryVersion, session.toUInt8, (session >>> 8).toUInt8,
    offset.toUInt8, (offset >>> 8).toUInt8, (offset >>> 16).toUInt8, (offset >>> 24).toUInt8,
    len.toUInt8, (len >>> 8).toUInt8]

def frameTrailer (crc : UInt32) : Bytes :=
  [crc.toUInt8, (crc >>> 8).toUInt8, (crc >>> 16).toUInt8, (crc >>> 24).toUInt8]

/-- The bytes that are written, if the data can be sent. -/
def helix_serial_transport_send_binary (session : UInt16) (offset : UInt32) (data : Bytes) :
    Option Bytes :=
  if data.length = 0 ∨ binaryMaxPayload < data.length then none
  else
    let header := frameHeader session offset (UInt16.ofNat data.length)
    some (binaryMarker :: header ++ data ++ frameTrailer (frame_crc header data))

/-! ## Reads with what they leave behind -/

/-- Who reads a byte: the loop of the lines or the reader of a frame. -/
inductive Reader where
  | lines
  | frame
deriving Repr, DecidableEq

def Stage.reader : Stage → Reader
  | .lines => .lines
  | _ => .frame

/-- The task, what it has handed over, and who read each byte of the stream. -/
structure Log where
  task : Task := {}
  handed : List Event := []
  readings : List Reader := []
deriving Repr, DecidableEq

def Log.read (line_bytes : Nat) (log : Log) (bytes : Bytes) : Log where
  task := (log.task.read line_bytes bytes).1
  handed := log.handed ++ (log.task.read line_bytes bytes).2.toList
  readings := log.readings ++ List.replicate bytes.length log.task.stage.reader

/-- A read gives no more bytes than it is asked for. -/
def Fits (log : Log) (bytes : Bytes) : Prop :=
  bytes.length ≤ log.task.stage.wanted

def Stage.idle : Stage → Nat
  | .lines => 0
  | .header _ idle => idle
  | .payload _ _ idle => idle
  | .crc _ _ _ idle => idle

/-- A read is not the last time-out in a row that a frame waits for. -/
def Steady (log : Log) (bytes : Bytes) : Prop :=
  bytes = [] → log.task.stage.idle + 1 ≤ 25

instance (log : Log) (bytes : Bytes) : Decidable (Fits log bytes) :=
  inferInstanceAs (Decidable (_ ≤ _))

instance (log : Log) (bytes : Bytes) : Decidable (Steady log bytes) :=
  inferInstanceAs (Decidable (_ → _))

/-- The reads of single bytes. -/
def feed (line_bytes : Nat) (log : Log) (bytes : Bytes) : Log :=
  run (Log.read line_bytes) log (bytes.map fun byte => [byte])

@[simp] theorem feed_nil (line_bytes : Nat) (log : Log) : feed line_bytes log [] = log := rfl

@[simp] theorem feed_cons (line_bytes : Nat) (log : Log) (byte : UInt8) (rest : Bytes) :
    feed line_bytes log (byte :: rest) = feed line_bytes (log.read line_bytes [byte]) rest := rfl

theorem feed_append (line_bytes : Nat) (log : Log) (bytes more : Bytes) :
    feed line_bytes log (bytes ++ more) = feed line_bytes (feed line_bytes log bytes) more := by
  simp only [feed, List.map_append, run_append]

/-! ## Split reads -/

theorem exact_cons {n : Nat} {got : Bytes} (idle : Nat) {byte : UInt8} {rest : Bytes}
    (more : rest ≠ []) (fits : (byte :: rest).length ≤ n - got.length) :
    serial_read_exact n got idle [byte] = .reading (got ++ [byte]) 0 ∧
      serial_read_exact n got idle (byte :: rest) =
        serial_read_exact n (got ++ [byte]) 0 rest ∧
      rest.length ≤ n - (got ++ [byte]).length := by
  have positive : 0 < rest.length := List.length_pos_iff.mpr more
  rw [List.length_cons] at fits
  have short : (got ++ [byte]).length < n := by
    rw [List.length_append, List.length_singleton]
    omega
  refine ⟨?_, ?_, ?_⟩
  · simp only [serial_read_exact, if_neg (List.cons_ne_nil byte []), if_pos short]
  · simp only [serial_read_exact, if_neg (List.cons_ne_nil byte rest), if_neg more,
      List.append_assoc, List.singleton_append]
  · rw [List.length_append, List.length_singleton]
    omega

variable {log : Log}

/-- A read of several bytes does what reads of its parts do. -/
theorem Log.read_cons (line_bytes : Nat) {byte : UInt8} {rest : Bytes}
    (more : rest ≠ []) (fits : Fits log (byte :: rest)) :
    log.read line_bytes (byte :: rest) = (log.read line_bytes [byte]).read line_bytes rest ∧
      Fits (log.read line_bytes [byte]) rest := by
  have replicate : ∀ reader : Reader, List.replicate (rest.length + 1) reader =
      reader :: List.replicate rest.length reader := fun reader => List.replicate_succ
  simp only [Fits] at fits
  cases found : log.task.stage with
  | lines =>
    have positive : 0 < rest.length := List.length_pos_iff.mpr more
    simp only [found, Stage.wanted, List.length_cons] at fits
    omega
  | header got idle | payload header got idle | crc header payload got idle =>
    simp only [found, Stage.wanted] at fits
    obtain ⟨one, both, later⟩ := exact_cons idle more fits
    constructor
    · simp [Log.read, Task.read, found, one, both, Stage.reader, replicate]
    · simpa only [Fits, Log.read, Task.read, found, one, Stage.wanted] using later

/-- A read of some bytes does what reads of each of them do. -/
theorem feed_eq_read {line_bytes : Nat} {bytes : Bytes} (nonempty : bytes ≠ [])
    (fits : Fits log bytes) : feed line_bytes log bytes = log.read line_bytes bytes := by
  induction bytes generalizing log with
  | nil => exact absurd rfl nonempty
  | cons byte rest ih =>
    by_cases last : rest = []
    · rw [last]
      rfl
    · obtain ⟨both, later⟩ := Log.read_cons line_bytes last fits
      rw [feed_cons, both, ih last later]

/-- A stage whose count of time-outs starts anew. -/
def Stage.calm : Stage → Stage
  | .lines => .lines
  | .header got _ => .header got 0
  | .payload head got _ => .payload head got 0
  | .crc head body got _ => .crc head body got 0

def Log.calm (log : Log) : Log where
  task := ⟨log.task.line, log.task.stage.calm⟩
  handed := log.handed
  readings := log.readings

theorem exact_idle (n : Nat) (got : Bytes) (idle other : Nat) {read : Bytes}
    (nonempty : read ≠ []) :
    serial_read_exact n got idle read = serial_read_exact n got other read := by
  simp only [serial_read_exact, if_neg nonempty]

/-- What has been waited for does not matter to the next bytes. -/
theorem Log.calm_read {line_bytes : Nat} (log : Log) {bytes : Bytes} (nonempty : bytes ≠ []) :
    log.calm.read line_bytes bytes = log.read line_bytes bytes := by
  obtain ⟨⟨line, stage⟩, handed, readings⟩ := log
  cases stage with
  | lines => rfl
  | header got idle | payload header got idle | crc header payload got idle =>
    simp [Log.calm, Stage.calm, Log.read, Task.read, exact_idle _ got idle 0 nonempty,
      Stage.reader]

/-- A time-out that is not the last one only counts. -/
theorem Log.read_nil {line_bytes : Nat} (steady : Steady log []) :
    (log.read line_bytes []).calm = log.calm := by
  obtain ⟨⟨line, stage⟩, handed, readings⟩ := log
  have within := steady rfl
  cases stage with
  | lines => simp [Log.calm, Stage.calm, Log.read, Task.read, Task.readLine]
  | header got idle | payload header got idle | crc header payload got idle =>
    have more : ¬25 < idle + 1 := Nat.not_lt.mpr within
    simp [Log.calm, Stage.calm, Log.read, Task.read, serial_read_exact, more]

theorem Log.calm_calm (log : Log) : log.calm.calm = log.calm := by
  obtain ⟨⟨line, stage⟩, handed, readings⟩ := log
  cases stage <;> rfl

theorem feed_calm (line_bytes : Nat) (log : Log) (bytes : Bytes) :
    (feed line_bytes log.calm bytes).calm = (feed line_bytes log bytes).calm := by
  cases bytes with
  | nil => exact log.calm_calm
  | cons byte rest => rw [feed_cons, feed_cons, log.calm_read (List.cons_ne_nil byte [])]

/-- However the bytes are split into reads, the task does what reads of single bytes do. -/
theorem run_steady {line_bytes : Nat} {reads : List Bytes}
    (fits : Along (Log.read line_bytes) Fits log reads)
    (steady : Along (Log.read line_bytes) Steady log reads) :
    (run (Log.read line_bytes) log reads).calm = (feed line_bytes log reads.flatten).calm := by
  induction reads generalizing log with
  | nil => rfl
  | cons read rest ih =>
    obtain ⟨fit, fits⟩ := fits
    obtain ⟨now, steady⟩ := steady
    rw [run_cons, ih fits steady, List.flatten_cons, feed_append]
    by_cases empty : read = []
    · subst empty
      rw [← feed_calm, Log.read_nil now, feed_calm, feed_nil]
    · rw [feed_eq_read empty fit]

/-! ## What is on the wire -/

/-- A line that fits the buffer and is not taken for anything else. -/
structure Line (line_bytes : Nat) where
  text : Bytes
  fits : text.length < line_bytes
  plain : ∀ byte ∈ text, byte ≠ 0 ∧ byte ≠ carriageReturn ∧ byte ≠ newline
  unmarked : text.head? ≠ some binaryMarker

/-- A frame whose header is accepted and names the length of its payload. -/
structure Framed where
  header : Bytes
  payload : Bytes
  trailer : Bytes
  header_length : header.length = binaryHeaderBytes
  accepted : Accepted header
  payload_length : payload.length = headerLen header
  trailer_length : trailer.length = 4

/-- A line, or a frame with its checksum right or wrong. -/
inductive Item (line_bytes : Nat) where
  | line (line : Line line_bytes)
  | frame (frame : Framed)

variable {line_bytes : Nat}

def Item.wire : Item line_bytes → Bytes
  | .line text => text.text ++ [newline]
  | .frame framed => binaryMarker :: framed.header ++ framed.payload ++ framed.trailer

/-- What the device hands over for it. -/
def Item.event : Item line_bytes → Option Event
  | .line text => some (.process_serial_line text.text)
  | .frame framed => ingest framed.header framed.payload framed.trailer

/-- What the loop does with the characters of a line. -/
theorem feed_text (log : Log) (lines : log.task.stage = .lines) (text : Bytes)
    (fits : log.task.line.length + text.length < line_bytes)
    (plain : ∀ byte ∈ text, byte ≠ 0 ∧ byte ≠ carriageReturn ∧ byte ≠ newline)
    (unmarked : log.task.line = [] → text.head? ≠ some binaryMarker) :
    feed line_bytes log text =
      { log with
        task := ⟨log.task.line ++ text, .lines⟩
        readings := log.readings ++ List.replicate text.length .lines } := by
  induction text generalizing log with
  | nil => simp [← lines]
  | cons byte rest ih =>
    obtain ⟨-, notReturn, notNewline⟩ := plain byte List.mem_cons_self
    have unstarted : ¬(log.task.line = [] ∧ byte = binaryMarker) := by
      rintro ⟨empty, marker⟩
      exact unmarked empty (by simp [marker])
    have room : ¬line_bytes ≤ log.task.line.length + 1 := by
      rw [List.length_cons] at fits
      omega
    have next : log.read line_bytes [byte] =
        { log with
          task := ⟨log.task.line ++ [byte], .lines⟩
          readings := log.readings ++ [.lines] } := by
      simp [Log.read, Task.read, lines, Task.readLine, unstarted, notReturn, notNewline, room,
        Stage.reader]
    rw [feed_cons, next, ih]
    · simp [List.replicate_succ]
    · rfl
    · simp only [List.length_append, List.length_nil, List.length_cons] at fits ⊢
      omega
    · intro other member
      exact plain other (List.mem_cons_of_mem byte member)
    · intro empty
      simp at empty

/-- Between two items, the task waits for a byte with nothing in the line buffer. -/
def Log.after (log : Log) (events : List Event) (readings : List Reader) : Log where
  task := {}
  handed := log.handed ++ events
  readings := log.readings ++ readings

theorem feed_line (log : Log) (resting : log.task = {}) (line : Line line_bytes) :
    feed line_bytes log (line.text ++ [newline]) =
      log.after [.process_serial_line line.text]
        (List.replicate (line.text.length + 1) .lines) := by
  have text := feed_text log (by rw [resting]) line.text (by simpa [resting] using line.fits)
    line.plain (fun _ => line.unmarked)
  have absent : 0 ∉ line.text := fun member => (line.plain 0 member).1 rfl
  rw [feed_append, text, resting, feed_cons, feed_nil]
  simp [Log.read, Task.read, Task.readLine, Log.after, Stage.reader, cString_eq_self.mpr absent,
    newline_ne_marker, newline_ne_carriageReturn, List.replicate_succ']

/-- After the marker and the header of a frame. -/
def Log.headed (log : Log) (header : Bytes) : Log where
  task := ⟨[], afterHeader header⟩
  handed := log.handed
  readings := log.readings ++ .lines :: List.replicate binaryHeaderBytes .frame

theorem feed_header (line_bytes : Nat) (log : Log) (resting : log.task = {}) (header : Bytes)
    (length : header.length = binaryHeaderBytes) :
    feed line_bytes log (binaryMarker :: header) = log.headed header := by
  have nonempty : header ≠ [] := by
    apply List.ne_nil_of_length_pos
    rw [length]
    decide
  have start : log.read line_bytes [binaryMarker] =
      { log with
        task := ⟨[], .header [] 0⟩
        readings := log.readings ++ [.lines] } := by
    simp [Log.read, Task.read, resting, Task.readLine, Stage.reader]
  have fits : Fits (log.read line_bytes [binaryMarker]) header := by
    rw [start]
    simp [Fits, Stage.wanted, length]
  rw [feed_cons, feed_eq_read nonempty fits, start]
  simp [Log.read, Task.read, serial_read_exact, nonempty, length, Stage.reader, Log.headed]

theorem feed_frame (log : Log) (resting : log.task = {}) (frame : Framed) :
    feed line_bytes log (binaryMarker :: frame.header ++ frame.payload ++ frame.trailer) =
      log.after (ingest frame.header frame.payload frame.trailer).toList
        (.lines :: List.replicate (binaryHeaderBytes + frame.payload.length + 4) .frame) := by
  have trailer : frame.trailer ≠ [] := by
    apply List.ne_nil_of_length_pos
    rw [frame.trailer_length]
    decide
  have body : feed line_bytes (log.headed frame.header) frame.payload =
      { log with
        task := ⟨[], .crc frame.header frame.payload [] 0⟩
        readings := log.readings ++
          .lines :: List.replicate (binaryHeaderBytes + frame.payload.length) .frame } := by
    by_cases empty : frame.payload = []
    · have zero : headerLen frame.header = 0 := by simp [← frame.payload_length, empty]
      simp [Log.headed, empty, afterHeader, frame.accepted, zero]
    · have positive : 0 < headerLen frame.header := by
        rw [← frame.payload_length]
        exact List.length_pos_iff.mpr empty
      rw [feed_eq_read empty (by simp [Fits, Log.headed, afterHeader, frame.accepted, positive, Stage.wanted,
        frame.payload_length])]
      simp [Log.read, Log.headed, Task.read, afterHeader, frame.accepted, positive,
        serial_read_exact, empty, frame.payload_length, Stage.reader]
  rw [feed_append, feed_append, feed_header line_bytes log resting frame.header frame.header_length, body,
    feed_eq_read trailer (by simp [Fits, Stage.wanted, frame.trailer_length])]
  simp [Log.read, Task.read, serial_read_exact, trailer, frame.trailer_length, Stage.reader,
    Log.after]
  exact (List.replicate_add _ 4 Reader.frame).symm

theorem feed_item (log : Log) (resting : log.task = {}) (item : Item line_bytes) :
    ∃ readings, readings.length = item.wire.length ∧
      feed line_bytes log item.wire = log.after item.event.toList readings := by
  cases item with
  | line line => exact ⟨_, by simp [Item.wire], feed_line log resting line⟩
  | frame frame =>
    refine ⟨_, ?_, feed_frame log resting frame⟩
    simp [Item.wire, frame.header_length, frame.trailer_length]
    omega

/-- The items are taken off the stream one by one. -/
theorem feed_items (log : Log) (resting : log.task = {}) (items : List (Item line_bytes)) :
    ∃ readings, readings.length = (items.flatMap Item.wire).length ∧
      feed line_bytes log (items.flatMap Item.wire) =
        log.after (items.filterMap Item.event) readings := by
  induction items generalizing log with
  | nil =>
    refine ⟨[], rfl, ?_⟩
    simp [Log.after, ← resting]
  | cons item rest ih =>
    obtain ⟨first, firstLength, here⟩ := feed_item log resting item
    obtain ⟨later, laterLength, there⟩ := ih (log.after item.event.toList first) rfl
    refine ⟨first ++ later, ?_, ?_⟩
    · simp [firstLength, laterLength]
    · rw [List.flatMap_cons, feed_append, here, there]
      cases event : item.event with
      | none => simp [Log.after, event]
      | some found => simp [Log.after, event]

/-! ## What is sent -/

/-- Data that can be sent in one frame. -/
structure Chunk where
  session : UInt16
  offset : UInt32
  data : Bytes
  nonempty : data ≠ []
  within : data.length ≤ binaryMaxPayload

/-- A line, or a binary frame as it is sent. -/
inductive Sent (line_bytes : Nat) where
  | line (line : Line line_bytes)
  | chunk (chunk : Chunk)

def Sent.wire : Sent line_bytes → Bytes
  | .line text => text.text ++ [newline]
  | .chunk data => (helix_serial_transport_send_binary data.session data.offset data.data).getD []

def Sent.event : Sent line_bytes → Event
  | .line text => .process_serial_line text.text
  | .chunk data => .binary_channel_ingest data.session data.offset data.data

theorem headerLen_frameHeader (session : UInt16) (offset : UInt32) {data : Bytes}
    (within : data.length ≤ binaryMaxPayload) :
    headerLen (frameHeader session offset (UInt16.ofNat data.length)) = data.length := by
  have small : data.length < 2 ^ 16 := by
    simp only [binaryMaxPayload] at within
    omega
  simp only [headerLen, frameHeader, List.getD_cons_succ, List.getD_cons_zero, le16_toUInt8]
  exact UInt16.toNat_ofNat_of_lt' small

/-- The frame that a chunk is sent in. -/
def Chunk.framed (chunk : Chunk) : Framed where
  header := frameHeader chunk.session chunk.offset (UInt16.ofNat chunk.data.length)
  payload := chunk.data
  trailer := frameTrailer
    (frame_crc (frameHeader chunk.session chunk.offset (UInt16.ofNat chunk.data.length)) chunk.data)
  header_length := rfl
  accepted := by
    constructor
    · rfl
    · rw [headerLen_frameHeader _ _ chunk.within]
      exact chunk.within
  payload_length := (headerLen_frameHeader _ _ chunk.within).symm
  trailer_length := rfl

def Sent.item : Sent line_bytes → Item line_bytes
  | .line text => .line text
  | .chunk data => .frame data.framed

theorem Sent.item_wire (sent : Sent line_bytes) : sent.item.wire = sent.wire := by
  cases sent with
  | line text => rfl
  | chunk data =>
    have sendable : ¬(data.data.length = 0 ∨ binaryMaxPayload < data.data.length) := by
      rintro (empty | long)
      · exact data.nonempty (List.length_eq_zero_iff.mp empty)
      · exact Nat.not_lt.mpr data.within long
    simp only [Sent.wire, helix_serial_transport_send_binary, if_neg sendable, Option.getD_some]
    rfl

/-- The device reads back what was put into the frame. -/
theorem Sent.item_event (sent : Sent line_bytes) : sent.item.event = some sent.event := by
  cases sent with
  | line text => rfl
  | chunk data =>
    have session : headerSession data.framed.header = data.session := by
      simp only [Chunk.framed, headerSession, frameHeader, List.getD_cons_succ,
        List.getD_cons_zero, le16_toUInt8]
    have offset : headerOffset data.framed.header = data.offset := by
      simp only [Chunk.framed, headerOffset, frameHeader, List.getD_cons_succ,
        List.getD_cons_zero, le32_toUInt8]
    have checksum : frame_crc data.framed.header data.framed.payload =
        le32 (data.framed.trailer.getD 0 0) (data.framed.trailer.getD 1 0)
          (data.framed.trailer.getD 2 0) (data.framed.trailer.getD 3 0) := by
      simp only [Chunk.framed, frameTrailer, List.getD_cons_succ, List.getD_cons_zero,
        le32_toUInt8]
    simp [Sent.item, Item.event, ingest, checksum, Sent.event, session, offset]
    rfl

theorem calm_handed (log : Log) : log.calm.handed = log.handed := rfl

theorem calm_readings (log : Log) : log.calm.readings = log.readings := rfl

/-- Reads that no frame waits too long for recover what was sent. -/
theorem sent_recovered {reads : List Bytes} (fits : Along (Log.read line_bytes) Fits {} reads)
    (steady : Along (Log.read line_bytes) Steady {} reads) (sent : List (Sent line_bytes))
    (split : reads.flatten = sent.flatMap Sent.wire) :
    (run (Log.read line_bytes) {} reads).handed = sent.map Sent.event := by
  obtain ⟨readings, -, taken⟩ := feed_items ({} : Log) rfl (sent.map Sent.item)
  have wire : (sent.map Sent.item).flatMap Item.wire = sent.flatMap Sent.wire := by
    simp only [List.flatMap_map, Sent.item_wire]
  have events : (sent.map Sent.item).filterMap Item.event = sent.map Sent.event := by
    simp only [List.filterMap_map, Function.comp_def, Sent.item_event, List.filterMap_eq_map']
  have same := run_steady fits steady
  rw [← calm_handed, same, calm_handed, split, ← wire, taken, events]
  rfl

/-! ## Bytes that are lost -/

/-- The bytes that an event was read from, at least. -/
def Event.weight : Event → Nat
  | .process_serial_line line => line.length + 1
  | .binary_channel_ingest _ _ payload => 14 + payload.length

def Stage.weight : Stage → Nat
  | .lines => 0
  | .header got _ => 1 + got.length
  | .payload _ got _ => 10 + got.length
  | .crc _ body got _ => 10 + body.length + got.length

/-- The bytes that are held or have been handed over. -/
def Log.weight (log : Log) : Nat :=
  (log.handed.map Event.weight).sum + log.task.line.length + log.task.stage.weight

theorem exact_done {n : Nat} {got bytes read : Bytes} {idle : Nat}
    (done : serial_read_exact n got idle read = .done bytes) :
    bytes = got ++ read ∧ n ≤ (got ++ read).length := by
  simp only [serial_read_exact] at done
  split at done
  · split at done <;> simp at done
  split at done
  · simp at done
  rename_i enough
  simp only [Exact.done.injEq] at done
  exact ⟨done.symm, Nat.not_lt.mp enough⟩

theorem exact_reading {n : Nat} {got bytes read : Bytes} {idle count : Nat}
    (reading : serial_read_exact n got idle read = .reading bytes count) :
    bytes = got ++ read := by
  simp only [serial_read_exact] at reading
  split at reading
  next empty =>
    split at reading
    · simp at reading
    · simp only [Exact.reading.injEq] at reading
      rw [empty, List.append_nil]
      exact reading.1.symm
  split at reading
  · simp only [Exact.reading.injEq] at reading
    exact reading.1.symm
  · simp at reading

theorem ingest_weight (header payload crc_bytes : Bytes) :
    ((ingest header payload crc_bytes).toList.map Event.weight).sum ≤ 14 + payload.length := by
  simp only [ingest]
  split
  · simp [Event.weight]
  · simp

theorem afterHeader_weight (header : Bytes) : (afterHeader header).weight ≤ 10 := by
  simp only [afterHeader]
  split
  · split <;> simp [Stage.weight]
  · simp [Stage.weight]

theorem Task.readLine_weight (line_bytes : Nat) (task : Task) (lines : task.stage = .lines)
    (byte : UInt8) (rest : Bytes) :
    ((task.readLine line_bytes (byte :: rest)).2.toList.map Event.weight).sum +
        (task.readLine line_bytes (byte :: rest)).1.line.length +
        (task.readLine line_bytes (byte :: rest)).1.stage.weight ≤ task.line.length + 1 := by
  have short : (cString task.line).length ≤ task.line.length := by
    simp only [cString]
    exact (List.takeWhile_sublist _).length_le
  simp only [Task.readLine]
  split
  · simp [Stage.weight]
  split
  · simp [lines, Stage.weight]
  split
  · split
    · simp [lines, Stage.weight]
    · simp [lines, Stage.weight]
  · simpa [lines, Stage.weight, Event.weight] using short

theorem not_steady {bytes : Bytes} (unsteady : ¬Steady log bytes) :
    bytes = [] ∧ 25 < log.task.stage.idle + 1 := by
  rw [Steady, Classical.not_imp, Nat.not_le] at unsteady
  exact unsteady

theorem exact_stalled (n : Nat) (got : Bytes) {idle : Nat} (long : 25 < idle + 1) :
    serial_read_exact n got idle [] = .stalled := by
  rw [serial_read_exact, if_pos rfl, if_pos long]

/-- The last time-out in a row that a frame waits for ends it. -/
theorem Task.read_stalled (line_bytes : Nat) (task : Task) (long : 25 < task.stage.idle + 1) :
    task.read line_bytes [] = ({ task with stage := .lines }, none) := by
  obtain ⟨line, stage⟩ := task
  cases stage with
  | lines => simp [Stage.idle] at long
  | header got idle =>
    have stalled : serial_read_exact binaryHeaderBytes got idle [] = .stalled :=
      exact_stalled _ got long
    simp only [Task.read, stalled]
  | payload header got idle =>
    have stalled : serial_read_exact (headerLen header) got idle [] = .stalled :=
      exact_stalled _ got long
    simp only [Task.read, stalled]
  | crc header payload got idle =>
    have stalled : serial_read_exact 4 got idle [] = .stalled := exact_stalled _ got long
    simp only [Task.read, stalled]

theorem Stage.weight_pos {stage : Stage} (long : 25 < stage.idle + 1) : 0 < stage.weight := by
  cases stage with
  | lines => simp [Stage.idle] at long
  | header got idle | payload header got idle | crc header payload got idle =>
    rw [Stage.weight]
    omega

/-- What a read within a frame leaves of the task and its weight, by what becomes of the read. -/
theorem Task.readFrame_weight (line_bytes : Nat) (task : Task) (inside : task.stage ≠ .lines)
    (bytes : Bytes) :
    ((task.read line_bytes bytes).2.toList.map Event.weight).sum +
        (task.read line_bytes bytes).1.line.length + (task.read line_bytes bytes).1.stage.weight ≤
      task.line.length + task.stage.weight + bytes.length := by
  obtain ⟨line, stage⟩ := task
  cases stage with
  | lines => exact absurd rfl inside
  | header got idle =>
    cases result : serial_read_exact binaryHeaderBytes got idle bytes with
    | reading more count =>
      have same := exact_reading result
      simp [Task.read, result, Stage.weight, same]
      omega
    | stalled =>
      simp [Task.read, result, Stage.weight]
      omega
    | done header =>
      obtain ⟨same, enough⟩ := exact_done result
      have weight := afterHeader_weight header
      have start : (Stage.header got idle).weight = 1 + got.length := rfl
      simp only [List.length_append, binaryHeaderBytes] at enough
      simp only [Task.read, result, start, Option.toList_none, List.map_nil, List.sum_nil]
      omega
  | payload header got idle =>
    cases result : serial_read_exact (headerLen header) got idle bytes with
    | reading more count =>
      have same := exact_reading result
      simp [Task.read, result, Stage.weight, same]
      omega
    | stalled =>
      simp [Task.read, result, Stage.weight]
      omega
    | done payload =>
      obtain ⟨same, enough⟩ := exact_done result
      simp [Task.read, result, Stage.weight, same]
      omega
  | crc header payload got idle =>
    cases result : serial_read_exact 4 got idle bytes with
    | reading more count =>
      have same := exact_reading result
      simp [Task.read, result, Stage.weight, same]
      omega
    | stalled =>
      simp [Task.read, result, Stage.weight]
      omega
    | done crc_bytes =>
      obtain ⟨same, enough⟩ := exact_done result
      have weight := ingest_weight header payload crc_bytes
      rw [List.length_append] at enough
      simp only [Task.read, result, Stage.weight]
      omega

/-- A read adds no more than its bytes. -/
theorem Log.read_weight (line_bytes : Nat) (log : Log) (bytes : Bytes) :
    (log.read line_bytes bytes).weight ≤ log.weight + bytes.length := by
  have sum : (log.read line_bytes bytes).weight =
      (log.handed.map Event.weight).sum +
        (((log.task.read line_bytes bytes).2.toList.map Event.weight).sum +
          (log.task.read line_bytes bytes).1.line.length +
          (log.task.read line_bytes bytes).1.stage.weight) := by
    simp only [Log.read, Log.weight, List.map_append, List.sum_append]
    omega
  rw [sum, Log.weight]
  by_cases lines : log.task.stage = .lines
  · cases bytes with
    | nil =>
      simp only [Task.read, lines, Task.readLine, Stage.weight, Option.toList_none, List.map_nil,
        List.sum_nil, List.length_nil]
      omega
    | cons byte rest =>
      have weight := log.task.readLine_weight line_bytes lines byte rest
      simp only [Task.read, lines, List.length_cons] at weight ⊢
      omega
  · have weight := log.task.readFrame_weight line_bytes lines bytes
    omega

/-- The read that gives up a frame loses what was read of it. -/
theorem Log.stalled_weight (line_bytes : Nat) (log : Log) {bytes : Bytes}
    (unsteady : ¬Steady log bytes) :
    (log.read line_bytes bytes).weight < log.weight + bytes.length := by
  obtain ⟨rfl, long⟩ := not_steady unsteady
  have held := Stage.weight_pos long
  have empty : Stage.lines.weight = 0 := rfl
  simp only [Log.read, Log.weight, Task.read_stalled line_bytes log.task long,
    Option.toList_none, List.append_nil, List.length_nil, empty]
  omega

/-- A run in which a frame is given up has lost some bytes. -/
theorem run_weight (line_bytes : Nat) (log : Log) (reads : List Bytes) :
    (run (Log.read line_bytes) log reads).weight ≤ log.weight + reads.flatten.length ∧
      (¬Along (Log.read line_bytes) Steady log reads →
        (run (Log.read line_bytes) log reads).weight < log.weight + reads.flatten.length) := by
  induction reads generalizing log with
  | nil => simp [Along]
  | cons read rest ih =>
    obtain ⟨within, lost⟩ := ih (log.read line_bytes read)
    have here := log.read_weight line_bytes read
    rw [run_cons, List.flatten_cons, List.length_append]
    constructor
    · omega
    · intro unsteady
      by_cases now : Steady log read
      · have later := lost fun steady => unsteady ⟨now, steady⟩
        omega
      · have less := log.stalled_weight line_bytes now
        omega

theorem Line.wire_length (line : Line line_bytes) :
    (line.text ++ [newline]).length = (Event.process_serial_line line.text).weight := by
  simp [Event.weight]

theorem Sent.wire_length (sent : Sent line_bytes) : sent.wire.length = sent.event.weight := by
  cases sent with
  | line text => exact text.wire_length
  | chunk data =>
    rw [← Sent.item_wire]
    simp [Sent.item, Item.wire, Chunk.framed, frameHeader, frameTrailer, Sent.event, Event.weight]
    omega

/-- What was sent is not recovered once a frame has been given up. -/
theorem steady_of_recovered {reads : List Bytes} (sent : List (Sent line_bytes))
    (split : reads.flatten = sent.flatMap Sent.wire)
    (recovered : (run (Log.read line_bytes) {} reads).handed = sent.map Sent.event) :
    Along (Log.read line_bytes) Steady {} reads := by
  by_contra unsteady
  have lost := (run_weight line_bytes {} reads).2 unsteady
  have wires : (sent.flatMap Sent.wire).length = ((sent.map Sent.event).map Event.weight).sum := by
    simp only [List.length_flatMap, Sent.wire_length, List.map_map, Function.comp_def]
  rw [split, wires, ← recovered] at lost
  simp only [Log.weight, List.map_nil, List.sum_nil, List.length_nil, Stage.weight] at lost
  omega

/-! ## Who reads a payload -/

/-- The reader of a frame whose header has been accepted owes itself so many bytes more. -/
def Stage.Owes : Stage → Nat → Prop
  | .lines, owed => owed = 0
  | .header _ _, _ => False
  | .payload head got _, owed => got.length < headerLen head ∧ owed + got.length = headerLen head + 4
  | .crc _ _ got _, owed => got.length < 4 ∧ owed + got.length = 4

/-- The bytes that are read as a frame's after its header. -/
def frameRest (header : Bytes) : Nat :=
  if Accepted header then headerLen header + 4 else 0

theorem afterHeader_owes (header : Bytes) : (afterHeader header).Owes (frameRest header) := by
  simp only [afterHeader, frameRest]
  split
  · split
    next positive =>
      exact ⟨positive, rfl⟩
    next accepted zero =>
      have none_ : headerLen header = 0 := Nat.eq_zero_of_not_pos zero
      simp [Stage.Owes, none_]
  · rfl

variable {owed : Nat}

theorem Log.read_owed (line_bytes : Nat) (log : Log) (owes : log.task.stage.Owes (owed + 1))
    (byte : UInt8) :
    (log.read line_bytes [byte]).task.stage.Owes owed ∧ log.task.stage.reader = .frame := by
  obtain ⟨⟨line, stage⟩, handed, readings⟩ := log
  cases stage with
  | lines => simp [Stage.Owes] at owes
  | header got idle => exact owes.elim
  | payload header got idle =>
    obtain ⟨short, sum⟩ := owes
    refine ⟨?_, rfl⟩
    simp only [Log.read, Task.read, serial_read_exact, if_neg (List.cons_ne_nil byte [])]
    by_cases last : (got ++ [byte]).length < headerLen header
    · rw [if_pos last]
      rw [List.length_append, List.length_singleton] at last
      simp only [Stage.Owes, List.length_append, List.length_singleton]
      omega
    · rw [if_neg last]
      rw [List.length_append, List.length_singleton] at last
      simp only [Stage.Owes, List.length_nil]
      omega
  | crc header payload got idle =>
    obtain ⟨short, sum⟩ := owes
    refine ⟨?_, rfl⟩
    simp only [Log.read, Task.read, serial_read_exact, if_neg (List.cons_ne_nil byte [])]
    by_cases last : (got ++ [byte]).length < 4
    · rw [if_pos last]
      rw [List.length_append, List.length_singleton] at last
      simp only [Stage.Owes, List.length_append, List.length_singleton]
      omega
    · rw [if_neg last]
      rw [List.length_append, List.length_singleton] at last
      simp only [Stage.Owes]
      omega

theorem feed_readings (line_bytes : Nat) (log : Log) (bytes : Bytes) :
    ∃ more, more.length = bytes.length ∧
      (feed line_bytes log bytes).readings = log.readings ++ more := by
  induction bytes generalizing log with
  | nil => exact ⟨[], rfl, by simp⟩
  | cons byte rest ih =>
    obtain ⟨more, length, readings⟩ := ih (log.read line_bytes [byte])
    refine ⟨log.task.stage.reader :: more, by simp [length], ?_⟩
    rw [feed_cons, readings]
    simp [Log.read]

/-- The bytes that a frame owes itself are read as the frame's. -/
theorem feed_owed (line_bytes : Nat) (log : Log) (bytes : Bytes)
    (owes : log.task.stage.Owes (owed + bytes.length)) :
    (feed line_bytes log bytes).task.stage.Owes owed ∧
      (feed line_bytes log bytes).readings =
        log.readings ++ List.replicate bytes.length .frame := by
  induction bytes generalizing log with
  | nil => exact ⟨owes, by simp⟩
  | cons byte rest ih =>
    obtain ⟨later, reader⟩ := log.read_owed line_bytes owes byte
    obtain ⟨left, readings⟩ := ih (log.read line_bytes [byte]) later
    refine ⟨left, ?_⟩
    rw [feed_cons, readings]
    simp [Log.read, reader, List.replicate_succ]

theorem owes_zero {stage : Stage} (owes : stage.Owes 0) : stage = .lines := by
  cases stage with
  | lines => rfl
  | header got idle => exact owes.elim
  | payload header got idle | crc header payload got idle =>
    obtain ⟨short, sum⟩ := owes
    omega

/-- No byte of a payload is read outside the frame exactly if the frame owes itself that many. -/
theorem payload_in_frame (line_bytes : Nat) (log : Log) (owes : log.task.stage.Owes owed)
    (payload after : Bytes) :
    (∀ i < payload.length,
        (feed line_bytes log (payload ++ after)).readings[log.readings.length + i]? ≠
          some .lines) ↔
      payload.length ≤ owed := by
  constructor
  · intro inside
    by_contra beyond
    rw [Nat.not_le] at beyond
    have taken : (payload.take owed).length = owed := List.length_take_of_le (Nat.le_of_lt beyond)
    have rest : payload.drop owed = payload[owed] :: payload.drop (owed + 1) :=
      List.drop_eq_getElem_cons beyond
    have split : payload = payload.take owed ++ payload[owed] :: payload.drop (owed + 1) := by
      rw [← rest, List.take_append_drop]
    have owed' : log.task.stage.Owes (0 + (payload.take owed).length) := by
      rw [taken, Nat.zero_add]
      exact owes
    obtain ⟨left, readings⟩ := feed_owed line_bytes log (payload.take owed) owed'
    have lines := owes_zero left
    obtain ⟨more, -, last⟩ := feed_readings line_bytes
      ((feed line_bytes log (payload.take owed)).read line_bytes [payload[owed]])
      (payload.drop (owed + 1) ++ after)
    apply inside owed beyond
    rw [split, List.append_assoc, feed_append, List.cons_append, feed_cons]
    rw [last]
    simp [Log.read, readings, lines, Stage.reader, taken]
  · intro within i bound
    have owed' : log.task.stage.Owes (owed - payload.length + payload.length) := by
      rw [Nat.sub_add_cancel within]
      exact owes
    obtain ⟨-, readings⟩ := feed_owed line_bytes log payload owed'
    obtain ⟨more, -, last⟩ :=
      feed_readings line_bytes (feed line_bytes log payload) after
    rw [feed_append, last, readings]
    simp [List.getElem?_append, bound]

/-! ## What the device takes off the stream -/

/-- For every split into reads. Lines and frames are recovered in order exactly if no frame is
given up for time-outs; and without these, no byte of the payload of a frame, after any items and
before any bytes, is read as one of a line exactly if the header is accepted and owes that many
bytes, or the payload is empty. -/
theorem frames_recovered (configured : Nat) (reads : List Bytes)
    (fits : Along (Log.read (lineBytes configured)) Fits {} reads) :
    (∀ sent : List (Sent (lineBytes configured)),
      reads.flatten = sent.flatMap Sent.wire →
      ((run (Log.read (lineBytes configured)) {} reads).handed = sent.map Sent.event ↔
        Along (Log.read (lineBytes configured)) Steady {} reads)) ∧
    (∀ (before : List (Item (lineBytes configured))) (header payload after : Bytes),
      header.length = binaryHeaderBytes →
      reads.flatten = before.flatMap Item.wire ++ binaryMarker :: header ++ payload ++ after →
      Along (Log.read (lineBytes configured)) Steady {} reads →
      ((∀ i < payload.length,
          (run (Log.read (lineBytes configured)) {} reads).readings[
            (before.flatMap Item.wire).length + 1 + binaryHeaderBytes + i]? ≠ some .lines) ↔
        payload = [] ∨ Accepted header ∧ payload.length ≤ headerLen header + 4)) := by
  constructor
  · intro sent split
    constructor
    · exact steady_of_recovered sent split
    · intro steady
      exact sent_recovered fits steady sent split
  · intro before header payload after length split steady
    obtain ⟨readings, readingsLength, taken⟩ := feed_items ({} : Log) rfl before
    have start := feed_header (lineBytes configured)
      (({} : Log).after (before.filterMap Item.event) readings) rfl header length
    have inside := payload_in_frame (lineBytes configured)
      ((({} : Log).after (before.filterMap Item.event) readings).headed header)
      (afterHeader_owes header) payload after
    have place : ((({} : Log).after (before.filterMap Item.event) readings).headed
        header).readings.length = (before.flatMap Item.wire).length + 1 + binaryHeaderBytes := by
      simp [Log.after, Log.headed, readingsLength]
      omega
    have owed : payload.length ≤ frameRest header ↔
        payload = [] ∨ Accepted header ∧ payload.length ≤ headerLen header + 4 := by
      simp only [frameRest]
      split
      next accepted =>
        simp only [accepted, true_and, iff_or_self]
        rintro rfl
        exact Nat.zero_le _
      next rejected =>
        simp [rejected]
    have same := run_steady fits steady
    rw [← calm_readings, same, calm_readings, split, List.append_assoc, List.append_assoc,
      feed_append, taken, feed_append, start, ← place, inside, owed]

/-- The line `A`. -/
def lineA : Line (lineBytes 0) where
  text := [65]
  fits := by decide
  plain := by simp [carriageReturn, newline]
  unmarked := by decide

/-- One byte of data for session 7. -/
def chunkA : Chunk where
  session := 7
  offset := 0
  data := [65]
  nonempty := by decide
  within := by decide

def sentA : List (Sent (lineBytes 0)) := [.line lineA, .chunk chunkA]

/-- The line and the chunk, in reads of which one times out. -/
def readsA : List Bytes :=
  [[65], [10], [2], [1, 7, 0], [], [0, 0, 0, 0, 1, 0], [65],
    frameTrailer (frame_crc [1, 7, 0, 0, 0, 0, 0, 1, 0] [65])]

theorem frames_recovered_two :
    Along (Log.read (lineBytes 0)) Fits {} readsA ∧
      (run (Log.read (lineBytes 0)) {} readsA).handed = sentA.map Sent.event := by
  have fits : Along (Log.read (lineBytes 0)) Fits {} readsA := by
    simp only [readsA, Along]
    decide
  have steady : Along (Log.read (lineBytes 0)) Steady {} readsA := by
    simp only [readsA, Along]
    decide
  have split : readsA.flatten = sentA.flatMap Sent.wire := by decide +kernel
  exact ⟨fits, ((frames_recovered 0 readsA fits).1 sentA split).mpr steady⟩

/-- A frame of version 2 whose payload is the line `SERVICE {}`. -/
def rejected : List Bytes :=
  [[2], [2, 7, 0, 0, 0, 0, 0, 11, 0], [83], [69], [82], [86], [73], [67], [69], [32], [123], [125],
    [10]]

/-- The payload of the rejected frame is taken for a line. -/
theorem rejected_payload_taken :
    ¬ ∀ (reads : List Bytes) (header payload after : Bytes),
      Along (Log.read (lineBytes 0)) Fits {} reads →
      Along (Log.read (lineBytes 0)) Steady {} reads →
      header.length = binaryHeaderBytes →
      reads.flatten = binaryMarker :: header ++ payload ++ after →
      ¬Accepted header →
      ∀ i < payload.length,
        (run (Log.read (lineBytes 0)) {} reads).readings[1 + binaryHeaderBytes + i]? ≠
          some .lines := by
  intro all
  have fits : Along (Log.read (lineBytes 0)) Fits {} rejected := by
    simp only [rejected, Along]
    decide
  have steady : Along (Log.read (lineBytes 0)) Steady {} rejected := by
    simp only [rejected, Along]
    decide
  have first := all rejected [2, 7, 0, 0, 0, 0, 0, 11, 0]
    [83, 69, 82, 86, 73, 67, 69, 32, 123, 125, 10] [] fits steady rfl rfl (by decide) 0
    (by decide)
  revert first
  decide

example : (run (Log.read (lineBytes 0)) {} rejected).handed =
    [.process_serial_line [83, 69, 82, 86, 73, 67, 69, 32, 123, 125]] := by decide

end HelixKit.Esp32.SerialTransport
