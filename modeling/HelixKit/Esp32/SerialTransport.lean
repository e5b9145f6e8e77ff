/-
Purpose: The serial transport of the device: the loop that takes lines and binary frames
  from one stream of bytes, and what it hands over as a line.
Trusted boundary: none
Main exports: lines_whole
-/
import HelixKit.Lib.Runs
import Mathlib.Algebra.GroupWithZero.Nat
import Mathlib.Algebra.Ring.Int.Defs
import Mathlib.Data.List.TakeWhile

namespace HelixKit.Esp32.SerialTransport

open HelixKit.Runs

abbrev Bytes := List UInt8

def binaryMarker : UInt8 := 0x02
def binaryVersion : UInt8 := 0x01
def binaryHeaderBytes : Nat := 9
def binaryMaxPayload : Nat := 1024
def defaultLineBytes : Nat := 2048

def carriageReturn : UInt8 := 13
def newline : UInt8 := 10

/-- The size of the line buffer that the transport is configured for. -/
def lineBytes (configured : Nat) : Nat :=
  if 0 < configured then configured else defaultLineBytes

theorem lineBytes_pos (configured : Nat) : 0 < lineBytes configured := by
  simp only [lineBytes]
  split
  · assumption
  · decide

/-- The text of a C string that starts with these bytes. -/
def cString (bytes : Bytes) : Bytes :=
  bytes.takeWhile (· ≠ 0)

theorem cString_eq_self {bytes : Bytes} : cString bytes = bytes ↔ 0 ∉ bytes := by
  simp only [cString, List.takeWhile_eq_self_iff, decide_eq_true_eq]
  constructor
  · intro all member
    exact all 0 member rfl
  · intro absent byte member zero
    exact absent (zero ▸ member)

/-! ## Binary frames -/

def frame_crc_step (crc : UInt32) (data : Bytes) : UInt32 :=
  data.foldl
    (fun crc byte =>
      (List.range 8).foldl
        (fun crc _ => if crc &&& 1 ≠ 0 then (crc >>> 1) ^^^ 0xEDB88820 else crc >>> 1)
        (crc ^^^ byte.toUInt32))
    crc

def frame_crc (header payload : Bytes) : UInt32 :=
  frame_crc_step (frame_crc_step 0xFFFFFFFF header) payload ^^^ 0xFFFFFFFF

def le16 (low high : UInt8) : UInt16 :=
  low.toUInt16 ||| (high.toUInt16 <<< 8)

def le32 (a b c d : UInt8) : UInt32 :=
  a.toUInt32 ||| (b.toUInt32 <<< 8) ||| (c.toUInt32 <<< 16) ||| (d.toUInt32 <<< 24)

section Header

variable (header : Bytes)

def headerVersion : UInt8 := header.getD 0 0

def headerSession : UInt16 := le16 (header.getD 1 0) (header.getD 2 0)

def headerOffset : UInt32 :=
  le32 (header.getD 3 0) (header.getD 4 0) (header.getD 5 0) (header.getD 6 0)

def headerLen : Nat := (le16 (header.getD 7 0) (header.getD 8 0)).toNat

/-- The header of a frame that is read to its end. -/
def Accepted : Prop :=
  headerVersion header = binaryVersion ∧ headerLen header ≤ binaryMaxPayload

instance : Decidable (Accepted header) := inferInstanceAs (Decidable (_ ∧ _))

end Header

/-- What the task hands over. -/
inductive Event where
  | process_serial_line (line : Bytes)
  | binary_channel_ingest (session : UInt16) (offset : UInt32) (payload : Bytes)
deriving Repr, DecidableEq

/-- What the frame hands over once its checksum has been read. -/
def ingest (header payload crc_bytes : Bytes) : Option Event :=
  if frame_crc header payload =
      le32 (crc_bytes.getD 0 0) (crc_bytes.getD 1 0) (crc_bytes.getD 2 0) (crc_bytes.getD 3 0) then
    some (.binary_channel_ingest (headerSession header) (headerOffset header) payload)
  else none

/-! ## The task -/

/-- Where a read of exactly so many bytes stands. -/
inductive Exact where
  | reading (got : Bytes) (idle : Nat)
  | done (bytes : Bytes)
  | stalled
deriving Repr, DecidableEq

/-- What one more read of the UART does to it; an empty one is a time-out. -/
def serial_read_exact (n : Nat) (got : Bytes) (idle : Nat) (read : Bytes) : Exact :=
  if read = [] then
    if 25 < idle + 1 then .stalled else .reading got (idle + 1)
  else if (got ++ read).length < n then .reading (got ++ read) 0
  else .done (got ++ read)

/-- Which read of the UART the task is in. -/
inductive Stage where
  | lines
  | header (got : Bytes) (idle : Nat)
  | payload (header : Bytes) (got : Bytes) (idle : Nat)
  | crc (header payload : Bytes) (got : Bytes) (idle : Nat)
deriving Repr, DecidableEq

/-- The number of bytes that the read asks for. -/
def Stage.wanted : Stage → Nat
  | .lines => 1
  | .header got _ => binaryHeaderBytes - got.length
  | .payload head got _ => headerLen head - got.length
  | .crc _ _ got _ => 4 - got.length

/-- The characters in the line buffer, and the read that the task is in. -/
structure Task where
  line : Bytes := []
  stage : Stage := .lines
deriving Repr, DecidableEq

/-- What the frame does with its header. -/
def afterHeader (header : Bytes) : Stage :=
  if Accepted header then
    if 0 < headerLen header then .payload header [] 0 else .crc header [] [] 0
  else .lines

/-- What the task does with a read outside a frame. -/
def Task.readLine (line_bytes : Nat) (task : Task) : Bytes → Task × Option Event
  | [] => (task, none)
  | byte :: _ =>
    if task.line = [] ∧ byte = binaryMarker then ({ task with stage := .header [] 0 }, none)
    else if byte = carriageReturn then (task, none)
    else if byte ≠ newline then
      if line_bytes ≤ task.line.length + 1 then ({ task with line := [] }, none)
      else ({ task with line := task.line ++ [byte] }, none)
    else ({ task with line := [] }, some (.process_serial_line (cString task.line)))

/-- One read of the UART, and what the task does until the next one. -/
def Task.read (line_bytes : Nat) (task : Task) (bytes : Bytes) : Task × Option Event :=
  match task.stage with
  | .lines => task.readLine line_bytes bytes
  | .header got idle =>
    match serial_read_exact binaryHeaderBytes got idle bytes with
    | .reading got idle => ({ task with stage := .header got idle }, none)
    | .stalled => ({ task with stage := .lines }, none)
    | .done header => ({ task with stage := afterHeader header }, none)
  | .payload header got idle =>
    match serial_read_exact (headerLen header) got idle bytes with
    | .reading got idle => ({ task with stage := .payload header got idle }, none)
    | .stalled => ({ task with stage := .lines }, none)
    | .done payload => ({ task with stage := .crc header payload [] 0 }, none)
  | .crc header payload got idle =>
    match serial_read_exact 4 got idle bytes with
    | .reading got idle => ({ task with stage := .crc header payload got idle }, none)
    | .stalled => ({ task with stage := .lines }, none)
    | .done crc_bytes => ({ task with stage := .lines }, ingest header payload crc_bytes)

/-! ## Which text is handed over -/

/-- The task, and the text of the line so far: what came since the last newline or frame, without
carriage returns. -/
structure Observed where
  task : Task := {}
  text : Bytes := []
deriving Repr, DecidableEq

/-- The text of the line after a byte that is read outside a frame. -/
def Observed.textAfter (observed : Observed) (byte : UInt8) : Bytes :=
  if observed.task.line = [] ∧ byte = binaryMarker then []
  else if byte = carriageReturn then observed.text
  else if byte ≠ newline then observed.text ++ [byte]
  else []

def Observed.read (line_bytes : Nat) (observed : Observed) (bytes : Bytes) : Observed where
  task := (observed.task.read line_bytes bytes).1
  text :=
    match observed.task.stage, bytes with
    | .lines, byte :: _ => observed.textAfter byte
    | _, _ => observed.text

/-- A line that the read hands over is all of the line, which fits the buffer; and a frame starts
where no text of a line is left. -/
def Whole (line_bytes : Nat) (observed : Observed) (bytes : Bytes) : Prop :=
  (∀ line, (observed.task.read line_bytes bytes).2 = some (.process_serial_line line) →
      line = observed.text ∧ observed.text.length < line_bytes) ∧
    (observed.task.stage = .lines →
      (observed.task.read line_bytes bytes).1.stage = .header [] 0 → observed.text = [])

/-- The line that a newline ends fits the buffer and has no NUL; and the marker of frames does not
come after a multiple of the buffer's size of bytes of a line. -/
def Delimited (line_bytes : Nat) (observed : Observed) (bytes : Bytes) : Prop :=
  observed.task.stage = .lines →
    (bytes.head? = some newline → observed.text.length < line_bytes ∧ 0 ∉ observed.text) ∧
    (bytes.head? = some binaryMarker → observed.text.length % line_bytes = 0 →
      observed.text = [])

/-- The buffer holds what came since the last time that it was full. -/
structure Buffered (line_bytes : Nat) (observed : Observed) : Prop where
  line : observed.task.line =
    observed.text.drop (observed.text.length / line_bytes * line_bytes)
  frame : observed.task.stage ≠ .lines → observed.text = []

variable {line_bytes : Nat} {observed : Observed}

theorem Buffered.length (buffered : Buffered line_bytes observed) :
    observed.task.line.length = observed.text.length % line_bytes := by
  rw [buffered.line, List.length_drop, Nat.mod_eq_sub_div_mul]

theorem Buffered.empty (buffered : Buffered line_bytes observed) :
    observed.task.line = [] ↔ observed.text.length % line_bytes = 0 := by
  rw [← buffered.length, List.length_eq_zero_iff]

/-- A text that fits is in the buffer as a whole. -/
theorem Buffered.fits {line_bytes : Nat} {observed : Observed}
    (buffered : Buffered line_bytes observed) (fits : observed.text.length < line_bytes) :
    observed.task.line = observed.text := by
  rw [buffered.line, Nat.div_eq_of_lt fits, Nat.zero_mul, List.drop_zero]

/-- One more byte is added to the buffer, or empties it. -/
theorem drop_full (positive : 0 < line_bytes) (text : Bytes) (byte : UInt8) :
    (text ++ [byte]).drop ((text ++ [byte]).length / line_bytes * line_bytes) =
      if line_bytes ≤ text.length % line_bytes + 1 then []
      else text.drop (text.length / line_bytes * line_bytes) ++ [byte] := by
  have split := Nat.div_add_mod text.length line_bytes
  have below := Nat.mod_lt text.length positive
  have start : text.length / line_bytes * line_bytes ≤ text.length := Nat.div_mul_le_self _ _
  rw [List.length_append, List.length_singleton]
  by_cases full : line_bytes ≤ text.length % line_bytes + 1
  · have turn : (text.length + 1) / line_bytes = text.length / line_bytes + 1 := by
      have sum : text.length + 1 = line_bytes * (text.length / line_bytes + 1) := by
        rw [Nat.mul_add_one]
        omega
      rw [sum, Nat.mul_div_cancel_left _ positive]
    rw [if_pos full, turn]
    apply List.drop_of_length_le
    rw [List.length_append, List.length_singleton, Nat.add_mul, Nat.mul_comm]
    omega
  · have stay : (text.length + 1) / line_bytes = text.length / line_bytes := by
      apply Nat.div_eq_of_lt_le
      · omega
      · rw [Nat.add_mul, Nat.mul_comm]
        omega
    rw [if_neg full, stay, List.drop_append_of_le_length start]

theorem newline_ne_marker : newline ≠ binaryMarker := by decide

theorem newline_ne_carriageReturn : newline ≠ carriageReturn := by decide

theorem marker_ne_carriageReturn : binaryMarker ≠ carriageReturn := by decide

/-- Outside a frame, a read keeps the buffer to the text. -/
theorem Buffered.readLine (positive : 0 < line_bytes)
    (buffered : Buffered line_bytes observed) (lines : observed.task.stage = .lines) (byte : UInt8) :
    Buffered line_bytes
      ⟨(observed.task.readLine line_bytes [byte]).1, observed.textAfter byte⟩ := by
  have length := buffered.length
  simp only [Task.readLine, Observed.textAfter]
  by_cases starts : observed.task.line = [] ∧ byte = binaryMarker
  · rw [if_pos starts, if_pos starts]
    exact ⟨by simpa using starts.1, fun _ => rfl⟩
  rw [if_neg starts, if_neg starts]
  by_cases return_ : byte = carriageReturn
  · rw [if_pos return_, if_pos return_]
    exact ⟨buffered.line, buffered.frame⟩
  rw [if_neg return_, if_neg return_]
  by_cases ends : byte ≠ newline
  · rw [if_pos ends, if_pos ends]
    constructor
    · have next := drop_full positive observed.text byte
      rw [next, ← length, ← buffered.line]
      split
      · rfl
      · rfl
    · intro inside
      split at inside
      · exact absurd lines inside
      · exact absurd lines inside
  · rw [if_neg ends, if_neg ends]
    exact ⟨by simp, fun _ => rfl⟩

/-- In a frame, the buffer and the text are empty and stay so. -/
theorem Buffered.readFrame
    (buffered : Buffered line_bytes observed) (inside : observed.task.stage ≠ .lines)
    (bytes : Bytes) : Buffered line_bytes (observed.read line_bytes bytes) := by
  have empty := buffered.frame inside
  have line : (observed.task.read line_bytes bytes).1.line = observed.task.line := by
    simp only [Task.read]
    cases found : observed.task.stage with
    | lines => exact absurd found inside
    | header got idle | payload header got idle | crc header payload got idle =>
      simp only; split <;> rfl
  have text : (observed.read line_bytes bytes).text = observed.text := by
    simp only [Observed.read]
    split
    next found =>
      exact absurd found inside
    · rfl
  constructor
  · rw [text, ← buffered.line]
    exact line
  · intro _
    rw [text, empty]

theorem Buffered.read {line_bytes : Nat} (positive : 0 < line_bytes) {observed : Observed}
    (buffered : Buffered line_bytes observed) (bytes : Bytes) :
    Buffered line_bytes (observed.read line_bytes bytes) := by
  by_cases lines : observed.task.stage = .lines
  · cases bytes with
    | nil =>
      have same : observed.read line_bytes [] = observed := by
        simp [Observed.read, Task.read, lines, Task.readLine]
      rw [same]
      exact buffered
    | cons byte rest =>
      have next := buffered.readLine positive lines byte
      simpa [Observed.read, Task.read, lines, Task.readLine] using next
  · exact buffered.readFrame lines bytes

/-- In a frame, no line is handed over and no frame starts. -/
theorem whole_in_frame
    (inside : observed.task.stage ≠ .lines) (bytes : Bytes) : Whole line_bytes observed bytes := by
  constructor
  · intro line handed
    simp only [Task.read] at handed
    cases found : observed.task.stage with
    | lines => exact absurd found inside
    | header got idle | payload header got idle =>
      simp only [found] at handed
      split at handed <;> simp at handed
    | crc header payload got idle =>
      simp only [found, ingest] at handed
      split at handed
      · simp at handed
      · simp at handed
      · split at handed <;> simp at handed
  · intro lines
    exact absurd lines inside

/-- What a newline hands over is the text if it fits and has no NUL. -/
theorem Buffered.handed_iff (buffered : Buffered line_bytes observed) :
    (cString observed.task.line = observed.text ∧ observed.text.length < line_bytes) ↔
      observed.text.length < line_bytes ∧ 0 ∉ observed.text := by
  constructor
  · rintro ⟨same, fits⟩
    rw [buffered.fits fits, cString_eq_self] at same
    exact ⟨fits, same⟩
  · rintro ⟨fits, absent⟩
    rw [buffered.fits fits, cString_eq_self]
    exact ⟨absent, fits⟩

/-- At each read: what is handed over is whole exactly if the text is delimited. -/
theorem Buffered.whole_iff (buffered : Buffered line_bytes observed) (bytes : Bytes) :
    Whole line_bytes observed bytes ↔ Delimited line_bytes observed bytes := by
  by_cases lines : observed.task.stage = .lines
  · cases bytes with
    | nil => simp [Whole, Delimited, Task.read, lines, Task.readLine]
    | cons byte rest =>
      have empty := buffered.empty
      simp only [Whole, Delimited, Task.read, lines, List.head?_cons, Option.some.injEq,
        true_implies, Task.readLine]
      by_cases marker : byte = binaryMarker
      · have other : byte ≠ newline := marker ▸ newline_ne_marker.symm
        by_cases start : observed.task.line = []
        · simp [marker, start, ← empty, newline_ne_marker.symm]
        · simp [marker, start, ← empty, newline_ne_marker.symm,
            marker_ne_carriageReturn]
          split <;> simp
      by_cases ends : byte = newline
      · simp [ends, newline_ne_marker, newline_ne_carriageReturn,
          ← buffered.handed_iff]
      simp only [marker, ends, and_false, if_false, false_implies, and_self, iff_true,
        ne_eq, not_false_eq_true, if_true]
      split
      · simp [lines]
      · split <;> simp
  · have outside : Delimited line_bytes observed bytes := fun inside => absurd inside lines
    exact iff_of_true (whole_in_frame lines bytes) outside

/-- In every run of the task: each line handed over is a whole line of the stream that fits the
buffer, and no frame starts within a line, exactly if no line that outgrows the buffer is read to
its newline or has a marker where the buffer was emptied, and no line holds a NUL. -/
theorem lines_whole (configured : Nat) (reads : List Bytes) :
    Along (Observed.read (lineBytes configured)) (Whole (lineBytes configured)) {} reads ↔
      Along (Observed.read (lineBytes configured)) (Delimited (lineBytes configured)) {}
        reads := by
  have start : Buffered (lineBytes configured) {} := ⟨by simp, fun _ => rfl⟩
  have keeps : ∀ observed bytes, Buffered (lineBytes configured) observed →
      Buffered (lineBytes configured) (observed.read (lineBytes configured) bytes) :=
    fun observed bytes buffered => buffered.read (lineBytes_pos configured) bytes
  constructor
  · intro whole
    apply whole.always (Buffered (lineBytes configured)) _ _ start
    · intro observed bytes buffered _
      exact keeps observed bytes buffered
    · intro observed bytes buffered here
      exact (buffered.whole_iff bytes).mp here
  · intro delimited
    apply delimited.always (Buffered (lineBytes configured)) _ _ start
    · intro observed bytes buffered _
      exact keeps observed bytes buffered
    · intro observed bytes buffered here
      exact (buffered.whole_iff bytes).mpr here

/-- Sixteen characters `a`, then `SERVICE {}`, read byte by byte. -/
def overlong : List Bytes :=
  (List.replicate 16 (97 : UInt8) ++ [83, 69, 82, 86, 73, 67, 69, 32, 123, 125]).map fun byte =>
    [byte]

/-- With a buffer of sixteen bytes the rest of the line is handed over as a line. -/
theorem overlong_rest_handed :
    ¬ ∀ (configured : Nat) (reads : List Bytes),
      Along (Observed.read (lineBytes configured)) (Whole (lineBytes configured)) {} reads := by
  intro all
  obtain ⟨-, ⟨whole, -⟩, -⟩ := along_append.mp (all 16 (overlong ++ [[newline]]))
  have handed : ((run (Observed.read (lineBytes 16)) {} overlong).task.read (lineBytes 16)
      [newline]).2 = some (.process_serial_line [83, 69, 82, 86, 73, 67, 69, 32, 123, 125]) := by
    decide
  have fits := (whole _ handed).2
  revert fits
  decide

end HelixKit.Esp32.SerialTransport
