/-
Purpose: The serial client of the browser: the lines that each connection hands over,
  when all connections of a page read with one text decoder.
Trusted boundary: none
Main exports: lines_own
-/
import HelixKit.Lib.Runs
import HelixKit.Lib.TextDecoder
import Mathlib.Logic.Function.Basic

namespace HelixKit.Protocol.SerialClient

open HelixKit.Runs HelixKit.Transducers HelixKit.TextDecoding

/-! ## Lines of a text -/

/-- `text.split(/\r?\n/)` -/
def splitLines : List Char → List (List Char)
  | [] => [[]]
  | '\r' :: '\n' :: rest => [] :: splitLines rest
  | char :: rest =>
    if char = '\n' then [] :: splitLines rest
    else
      match splitLines rest with
      | [] => [[char]]
      | line :: lines => (char :: line) :: lines

/-- The lines that have ended. -/
def endedLines (text : List Char) : List (List Char) :=
  (splitLines text).dropLast

/-- A line without the carriage return before its newline. -/
def stripReturn (line : List Char) : List Char :=
  if line.getLast? = some '\r' then line.dropLast else line

/-- The lines, character by character; the state is the line that has begun. -/
def lineReader : Transducer (List Char) Char (List Char) where
  step := fun line char =>
    if char = '\n' then ([], [stripReturn line]) else (line ++ [char], [])

theorem splitLines_cons {char : Char} {rest : List Char} (other : char ≠ '\n')
    (unended : ¬(char = '\r' ∧ rest.head? = some '\n')) :
    splitLines (char :: rest) =
      match splitLines rest with
      | [] => [[char]]
      | line :: lines => (char :: line) :: lines := by
  cases rest with
  | nil => simp [splitLines, other]
  | cons next more =>
    rw [splitLines]
    · simp [other]
    · intro _ first second
      simp [first, second] at unended

theorem splitLines_newline (rest : List Char) : splitLines ('\n' :: rest) = [] :: splitLines rest := by
  rw [splitLines]
  · simp
  · intro _ first
    simp at first

theorem splitLines_return (rest : List Char) :
    splitLines ('\r' :: '\n' :: rest) = [] :: splitLines rest := by
  rw [splitLines]

theorem stripReturn_cons {char : Char} {line : List Char}
    (unended : ¬(char = '\r' ∧ line = [])) :
    stripReturn (char :: line) = char :: stripReturn line := by
  cases line with
  | nil =>
    have other : char ≠ '\r' := fun same => unended ⟨same, rfl⟩
    simp [stripReturn, other]
  | cons next more =>
    simp only [stripReturn, List.getLast?_cons_cons]
    split
    · rfl
    · rfl

/-- The first line ends at the first newline. -/
theorem splitLines_line {line : List Char} (unended : '\n' ∉ line) (rest : List Char) :
    splitLines (line ++ '\n' :: rest) = stripReturn line :: splitLines rest := by
  induction line with
  | nil => exact splitLines_newline rest
  | cons char more ih =>
    have other : char ≠ '\n' := fun same => unended (same ▸ List.mem_cons_self)
    have later : '\n' ∉ more := fun member => unended (List.mem_cons_of_mem char member)
    by_cases last : char = '\r' ∧ more = []
    · obtain ⟨rfl, rfl⟩ := last
      exact splitLines_return rest
    · have unreturned : ¬(char = '\r' ∧ (more ++ '\n' :: rest).head? = some '\n') := by
        rintro ⟨same, next⟩
        cases more with
        | nil => exact last ⟨same, rfl⟩
        | cons second others =>
          simp only [List.cons_append, List.head?_cons, Option.some.injEq] at next
          exact later (next ▸ List.mem_cons_self)
      rw [List.cons_append, splitLines_cons other unreturned, ih later, stripReturn_cons last]

theorem splitLines_unended {line : List Char} (unended : '\n' ∉ line) :
    splitLines line = [line] := by
  induction line with
  | nil => rfl
  | cons char more ih =>
    have other : char ≠ '\n' := fun same => unended (same ▸ List.mem_cons_self)
    have later : '\n' ∉ more := fun member => unended (List.mem_cons_of_mem char member)
    have unreturned : ¬(char = '\r' ∧ more.head? = some '\n') := by
      rintro ⟨-, next⟩
      exact later (List.mem_of_mem_head? next)
    rw [splitLines_cons other unreturned, ih later]

/-- What `split` gives, when a line has begun, is what the reader writes and the line it is in. -/
theorem splitLines_append {line : List Char} (unended : '\n' ∉ line) (text : List Char) :
    splitLines (line ++ text) =
        (lineReader.run line text).2 ++ [(lineReader.run line text).1] ∧
      '\n' ∉ (lineReader.run line text).1 := by
  induction text generalizing line with
  | nil => simp [splitLines_unended unended, unended]
  | cons char rest ih =>
    rw [Transducer.run_cons]
    by_cases ends : char = '\n'
    · subst ends
      obtain ⟨later, last⟩ := ih (List.not_mem_nil)
      rw [splitLines_line unended]
      simp only [List.nil_append] at later
      simp only [lineReader, if_true] at later last ⊢
      rw [later]
      exact ⟨rfl, last⟩
    · have more : '\n' ∉ line ++ [char] := by
        simp [unended, Ne.symm ends]
      obtain ⟨later, last⟩ := ih more
      rw [List.append_cons, later]
      simp only [lineReader, ends, if_false] at last ⊢
      exact ⟨rfl, last⟩

theorem endedLines_eq (text : List Char) : endedLines text = (lineReader.run [] text).2 := by
  have unended : '\n' ∉ ([] : List Char) := List.not_mem_nil
  obtain ⟨split, _⟩ := splitLines_append unended text
  rw [List.nil_append] at split
  rw [endedLines, split, List.dropLast_concat]

/-! ## The page -/

section Page

-- The clients of the page.
variable {Client : Type}

/-- A reader that a client has had, and the loop that reads with it: the text it holds, the bytes it
has read and the lines that it has given to `#handleLine`. -/
structure Connection (Client : Type) where
  client : Client
  reading : Bool := true
  buffer : List Char := []
  received : List UInt8 := []
  handed : List (List Char) := []
deriving Repr, DecidableEq

/-- The text decoder of the module, the reader that each client has now, and all connections. -/
structure Page (Client : Type) where
  decoder : TextDecoder := newTextDecoder
  readers : Client → Option Nat := fun _ => none
  connections : List (Connection Client) := []

inductive Op (Client : Type) where
  | connect (client : Client)
  | disconnect (client : Client)
  /-- A read gives these bytes; if `thrown` is given, an exception leaves `#handleLine` at the line
  of that number. -/
  | chunk (connection : Nat) (bytes : List UInt8) (thrown : Option Nat)
  /-- A read ends the stream, or fails. -/
  | done (connection : Nat)
deriving Repr, DecidableEq

/-- The loop with the text of the bytes that it has just read; `current` says whether the client
still reads with its reader. -/
def Connection.take (connection : Connection Client) (bytes : List UInt8) (text : List Char)
    (thrown : Option Nat) (current : Bool) : Connection Client :=
  let lines := splitLines (connection.buffer ++ text)
  let ended := lines.dropLast
  match thrown.filter (· < ended.length) with
  | some line =>
    { connection with
      reading := false
      received := connection.received ++ bytes
      handed := connection.handed ++ ended.take (line + 1) }
  | none =>
    { connection with
      reading := current
      buffer := lines.getLastD []
      received := connection.received ++ bytes
      handed := connection.handed ++ ended }

/-- What the bytes of a connection alone make of a new decoder. -/
def Connection.own (connection : Connection Client) : TextDecoder × List Char :=
  textDecoder.run newTextDecoder connection.received

/-- The decoder of the page has left off within the same character as the connection's bytes, and if
it is not at its first character then the connection's text does not begin with a byte order mark. -/
def Shared (decoder own : TextDecoder) (bytes : List UInt8) : Prop :=
  decoder.1 = own.1 ∧
    (decoder.2 = own.2 ∨ (utf8.run own.1 bytes).2.head? ≠ some byteOrderMark)

/-! ## One connection -/

theorem shared_text {decoder own : TextDecoder} {bytes : List UInt8}
    (shared : Shared decoder own bytes) :
    (textDecoder.run decoder bytes).2 = (textDecoder.run own bytes).2 := by
  obtain ⟨same, mark⟩ := shared
  have left := Transducer.run_compose utf8 serialize decoder.1 decoder.2 bytes
  have right := Transducer.run_compose utf8 serialize own.1 own.2 bytes
  rw [textDecoder, left, right, same]
  cases mark with
  | inl both => rw [both]
  | inr unmarked => rw [serialize_unmarked _ _ unmarked, serialize_unmarked _ _ unmarked]

/-- A connection has given away the lines of its own text, and holds what is left of it. -/
structure Current (connection : Connection Client) : Prop where
  handed : connection.handed = (lineReader.run [] connection.own.2).2
  buffer : connection.buffer = (lineReader.run [] connection.own.2).1

/-- What one chunk of a connection adds to its text. -/
theorem own_append (connection : Connection Client) (bytes : List UInt8) :
    textDecoder.run newTextDecoder (connection.received ++ bytes) =
      ((textDecoder.run connection.own.1 bytes).1,
        connection.own.2 ++ (textDecoder.run connection.own.1 bytes).2) :=
  Transducer.run_append textDecoder newTextDecoder connection.received bytes

theorem Current.take {connection : Connection Client} (holds : Current connection)
    (bytes : List UInt8) (current : Bool) :
    Current (connection.take bytes (textDecoder.run connection.own.1 bytes).2 none current) := by
  have nothing : '\n' ∉ ([] : List Char) := List.not_mem_nil
  have unended : '\n' ∉ connection.buffer := by
    rw [holds.buffer]
    exact (splitLines_append nothing connection.own.2).2
  obtain ⟨split, -⟩ :=
    splitLines_append unended (textDecoder.run connection.own.1 bytes).2
  have text : (connection.take bytes (textDecoder.run connection.own.1 bytes).2 none current).own.2 =
      connection.own.2 ++ (textDecoder.run connection.own.1 bytes).2 := by
    simp only [Connection.own, Connection.take, Option.filter_none]
    exact congrArg Prod.snd (own_append connection bytes)
  constructor
  · rw [text, Transducer.run_append, ← holds.buffer, ← holds.handed]
    simp only [Connection.take, Option.filter_none, split, List.dropLast_concat]
  · rw [text, Transducer.run_append, ← holds.buffer]
    simp only [Connection.take, Option.filter_none, split, List.getLastD_concat]

/-- The lines that have been given away are those of the whole text, decoded at once. -/
theorem Current.lines {connection : Connection Client} (holds : Current connection) :
    connection.handed = endedLines (decodeUtf8 connection.received) := by
  have plain : ∀ line : List Char, (lineReader.run line [replacementCharacter]).2 = [] := by
    intro line
    rfl
  rw [holds.handed, endedLines_eq, decodeUtf8, Transducer.run_append]
  split
  · simp [Connection.own]
  · rw [plain, List.append_nil]
    rfl

variable [DecidableEq Client]

def step (page : Page Client) : Op Client → Page Client
  | .connect client =>
    { page with
      readers := Function.update page.readers client (some page.connections.length)
      connections := page.connections ++ [{ client }] }
  | .disconnect client =>
    { page with
      readers := Function.update page.readers client none }
  | .chunk index bytes thrown =>
    match page.connections[index]? with
    | none => page
    | some connection =>
      if connection.reading then
        let (decoder, text) := textDecoder.run page.decoder bytes
        let current := decide (page.readers connection.client = some index)
        { page with
          decoder
          connections := page.connections.set index
            (connection.take bytes text thrown current) }
      else page
  | .done index =>
    match page.connections[index]? with
    | none => page
    | some connection =>
      { page with
        connections := page.connections.set index { connection with reading := false } }

/-- The bytes that are read find the decoder as the connection's bytes left it, and no exception
leaves `#handleLine`. -/
def Undisturbed (page : Page Client) : Op Client → Prop
  | .chunk index bytes thrown =>
    ∀ connection, page.connections[index]? = some connection → connection.reading = true →
      thrown = none ∧ (bytes ≠ [] → Shared page.decoder connection.own.1 bytes)
  | _ => True

/-! ## Runs of the page -/

/-- What an operation leaves of the connections: all that are not new or in the operation as they
were. -/
theorem Current.step {page : Page Client} (all : ∀ connection ∈ page.connections, Current connection)
    (op : Op Client) (undisturbed : Undisturbed page op) :
    ∀ connection ∈ (step page op).connections, Current connection := by
  cases op with
  | connect client =>
    intro connection member
    rcases List.mem_append.mp member with old | new
    · exact all connection old
    · rw [List.mem_singleton.mp new]
      exact ⟨rfl, rfl⟩
  | disconnect client => exact all
  | chunk index bytes thrown =>
    simp only [SerialClient.step]
    cases found : page.connections[index]? with
    | none => exact all
    | some connection =>
      by_cases reading : connection.reading = true
      · obtain ⟨quiet, shared⟩ := undisturbed connection found reading
        subst quiet
        have holds := all connection (List.mem_of_getElem? found)
        have text : (textDecoder.run page.decoder bytes).2 =
            (textDecoder.run connection.own.1 bytes).2 := by
          cases bytes with
          | nil => rfl
          | cons byte rest => exact shared_text (shared (List.cons_ne_nil byte rest))
        simp only [reading, if_true]
        intro other member
        rcases List.mem_or_eq_of_mem_set member with old | new
        · exact all other old
        · rw [new, text]
          exact holds.take bytes _
      · simp only [reading]
        exact all
  | done index =>
    simp only [SerialClient.step]
    cases found : page.connections[index]? with
    | none => exact all
    | some connection =>
      intro other member
      rcases List.mem_or_eq_of_mem_set member with old | new
      · exact all other old
      · rw [new]
        have holds := all connection (List.mem_of_getElem? found)
        exact ⟨holds.handed, holds.buffer⟩

/-- In every run in which each chunk finds the decoder as its connection left it and no exception
leaves `#handleLine`, every connection has given away the lines of its bytes decoded as UTF-8. -/
theorem lines_own (ops : List (Op Client)) (undisturbed : Along step Undisturbed {} ops) :
    ∀ connection ∈ (run step ({} : Page Client) ops).connections,
      connection.handed = endedLines (decodeUtf8 connection.received) := by
  have current : ∀ connection ∈ (run step ({} : Page Client) ops).connections,
      Current connection := by
    apply undisturbed.invariant fun page => ∀ connection ∈ page.connections, Current connection
    · intro page op all here
      exact Current.step all op here
    · simp
  intro connection member
  exact (current connection member).lines

end Page

/-- One client reads `é` and a newline in two chunks, loses its connection and reads again. -/
def reconnected : List (Op Nat) :=
  [.connect 1, .chunk 0 [0xC3] none, .chunk 0 [0xA9, 0x0A] none, .disconnect 1, .done 0,
    .connect 1, .chunk 1 [0x41, 0x0A] none]

theorem lines_own_reconnected :
    Along step Undisturbed ({} : Page Nat) reconnected ∧
      ∀ connection ∈ (run step ({} : Page Nat) reconnected).connections,
        connection.handed = endedLines (decodeUtf8 connection.received) := by
  have undisturbed : Along step Undisturbed ({} : Page Nat) reconnected := by
    refine ⟨trivial, ?_, ?_, trivial, trivial, trivial, ?_, trivial⟩
    · intro connection found _
      cases found
      exact ⟨rfl, fun _ => ⟨by decide, by decide⟩⟩
    · intro connection found _
      cases found
      exact ⟨rfl, fun _ => ⟨by decide, by decide⟩⟩
    · intro connection found _
      cases found
      exact ⟨rfl, fun _ => ⟨by decide, by decide⟩⟩
  exact ⟨undisturbed, lines_own reconnected undisturbed⟩

/-- The connection is lost within a character. -/
def cut : List (Op Nat) :=
  [.connect 1, .chunk 0 [0xC3] none, .disconnect 1, .done 0, .connect 1,
    .chunk 1 [0x41, 0x0A] none]

/-- The next connection's first line begins with the rest of that character. -/
theorem cut_character_handed :
    ¬ ∀ (ops : List (Op Nat)), ∀ connection ∈ (run step ({} : Page Nat) ops).connections,
      connection.handed = endedLines (decodeUtf8 connection.received) := by
  intro all
  have last := all cut
    { client := 1, received := [0x41, 0x0A], handed := [['\uFFFD', 'A']] } (by decide)
  revert last
  decide

end HelixKit.Protocol.SerialClient
