/-
Purpose: The PAM module (`pam_helix.c`), which shows the user what `helix-authd` asks it to and
  answers with what the user types.
Trusted boundary: jansson, as far as `Jansson` says what it reads; a socket never delivers nothing
Main exports: conversation_relays
-/
import HelixKit.Authproto.Conn

namespace HelixKit.SshAuth

open HelixKit.Authproto HelixKit.GoJson HelixKit.LineReader

/-! ## jansson -/

mutual

/-- Whether U+0000 is in a string or a key. -/
def hasNul : Json → Bool
  | .string text => text.contains 0
  | .array items => itemsHaveNul items
  | .object members => membersHaveNul members
  | .null | .bool _ | .number _ => false

def itemsHaveNul : List Json → Bool
  | [] => false
  | item :: rest => hasNul item || itemsHaveNul rest

def membersHaveNul : List (Bytes × Json) → Bool
  | [] => false
  | (key, json) :: rest => key.contains 0 || hasNul json || membersHaveNul rest

end

/-- The answer to a prompt, as the daemon is to have it. -/
def answerMessage (promptID value : Bytes) : Message :=
  { version := currentVersion, type := typePromptResponse, promptID, value }

/-- `json_loads`, and `json_pack` and `json_dumps` of an answer with a prompt id and a value. What
`json.Marshal` has written is read, unless U+0000 is in it, and what is dumped is the answer. -/
structure Jansson where
  loads : Bytes → Option Json
  response : Bytes → Bytes → Option Bytes
  reads : ∀ m : Message, m.version = currentVersion →
    loads m.marshal = (parse m.marshal).filter fun json => !hasNul json
  dumps : ∀ promptID value encoded, response promptID value = some encoded →
    newline ∉ encoded ∧ unmarshal (encoded ++ [newline]) = some (answerMessage promptID value)

/-- `json_object_get`. The last of several members with a key stands. -/
def objectGet (json : Json) (key : String) : Option Json :=
  match json with
  | .object members =>
    members.foldl
      (fun found item => if item.1 = asciiBytes key then some item.2 else found) none
  | _ => none

def stringValue : Option Json → Option Bytes
  | some (.string text) => some text
  | _ => none

def integerValue : Option Json → Int
  | some (.number text) => (parseInt text).getD 0
  | _ => 0

def isTrue : Option Json → Bool
  | some (.bool b) => b
  | _ => false

/-! ## The reader -/

def helixMaxMessage : Nat := 16384

/-- `helix_read_line`: a line without its newline. -/
def readLine (reader : Reader UInt8) : Option Bytes × Reader UInt8 :=
  let result := readSlice newline helixMaxMessage reader.buffered reader.chunks
  match result.1 with
  | .line line => (some line.dropLast, result.2)
  | .full _ | .ended _ => (none, result.2)

/-! ## The display buffer -/

/-- `text` without the NUL that ends it. -/
structure DisplayBuffer where
  text : Bytes := []
  hadError : Bool := false
deriving Repr, DecidableEq

/-- `helix_display_append` -/
def displayAppend (buf : DisplayBuffer) (text : Option Bytes) (isError : Bool) : DisplayBuffer :=
  match text with
  | none | some [] => buf
  | some text =>
    let hadError := buf.hadError || isError
    let room : Int := helixMaxMessage - buf.text.length - 2
    let textLen : Int :=
      if buf.text.length + text.length + 2 > helixMaxMessage then room else text.length
    if textLen ≤ 0 then { buf with hadError }
    else { text := buf.text ++ text.take textLen.toNat ++ [newline], hadError }

/-! ## The conversation -/

inductive PamCode where
  | success
  | authErr
  | authinfoUnavail
deriving Repr, DecidableEq

inductive Style where
  | echoOff
  | echoOn
  | textInfo
  | errorMsg
deriving Repr, DecidableEq

/-- `helix_status_to_pam` -/
def statusToPam : Option Bytes → PamCode
  | none => .authErr
  | some status =>
    if status = asciiBytes "approved" then .success
    else if status = asciiBytes "unavailable" ∨ status = asciiBytes "protocol_error" then
      .authinfoUnavail
    else .authErr

/-- The members of a frame that are looked at. -/
structure Frame where
  type : Bytes
  status : Option Bytes
  level : Option Bytes
  text : Option Bytes
  promptID : Option Bytes
  secret : Bool
deriving Repr, DecidableEq

/-- What the application makes of a prompt, and whether the answer can be written. -/
inductive Reply where
  | failed
  | answered (answer : Bytes) (writes : Bool)
deriving Repr, DecidableEq

inductive Event where
  | frame (frame : Frame)
  | presented (style : Style) (text : Bytes)
  | responded (promptID value : Bytes)
deriving Repr, DecidableEq

/-- `helix_send_json` -/
def sends (jansson : Jansson) (promptID answer : Bytes) (writes : Bool) : Bool :=
  match jansson.response promptID answer with
  | none => false
  | some encoded => encoded.length + 1 ≤ helixMaxMessage && writes

def isError (level : Option Bytes) : Bool := level = some (asciiBytes "error")

/-- What is still to be shown, when there is no prompt to show it with. -/
def flush (pending : DisplayBuffer) : List Event :=
  if pending.text = [] then []
  else [.presented (if pending.hadError then .errorMsg else .textInfo) pending.text]

def promptStyle (frame : Frame) : Style := if frame.secret then .echoOff else .echoOn

/-- What a turn of the loop comes to. -/
inductive Turn where
  | ends (events : List Event) (code : PamCode)
  | goes (events : List Event) (pending : DisplayBuffer) (replies : List Reply)
deriving Repr, DecidableEq

def handleFrame (jansson : Jansson) (frame : Frame) (pending : DisplayBuffer)
    (replies : List Reply) : Turn :=
  if frame.type = typeResult then .ends (flush pending) (statusToPam frame.status)
  else if frame.type = typeDisplay then
    .goes [] (displayAppend pending frame.text (isError frame.level)) replies
  else if frame.type = typePrompt then
    match frame.promptID with
    | none => .ends [] .authinfoUnavail
    | some promptID =>
      -- `snprintf` into an array of this size
      let promptText := (pending.text ++ frame.text.getD []).take (helixMaxMessage - 1)
      let shown := Event.presented (promptStyle frame) promptText
      match replies with
      | [] | .failed :: _ => .ends [shown] .authErr
      | .answered answer writes :: rest =>
        if sends jansson promptID answer writes then
          .goes [shown, .responded promptID answer] {} rest
        else .ends [shown] .authinfoUnavail
  else .ends [] .authinfoUnavail

/-- The frame that a line is. A line is a C string. -/
def readFrame (jansson : Jansson) (line : Bytes) : Option Frame := do
  let msg ← jansson.loads (line.takeWhile (· ≠ 0))
  let type ← stringValue (objectGet msg "type")
  if integerValue (objectGet msg "version") ≠ 1 then none
  else
    some {
      type
      status := stringValue (objectGet msg "status")
      level := stringValue (objectGet msg "level")
      text := stringValue (objectGet msg "text")
      promptID := stringValue (objectGet msg "prompt_id")
      secret := isTrue (objectGet msg "secret") }

def converse (jansson : Jansson) :
    Nat → Reader UInt8 → DisplayBuffer → List Reply → List Event × PamCode
  | 0, _, _, _ => ([], .authinfoUnavail)
  | fuel + 1, reader, pending, replies =>
    match readLine reader with
    | (none, _) => ([], .authinfoUnavail)
    | (some line, reader) =>
      match readFrame jansson line with
      | none => ([], .authinfoUnavail)
      | some frame =>
        match handleFrame jansson frame pending replies with
        | .ends events code => (.frame frame :: events, code)
        | .goes events pending replies =>
          let later := converse jansson fuel reader pending replies
          (.frame frame :: (events ++ later.1), later.2)

/-- `helix_run_conversation`. A turn takes a byte of the stream at least. -/
def runConversation (jansson : Jansson) (reader : Reader UInt8) (replies : List Reply) :
    List Event × PamCode :=
  converse jansson (reader.pending.length + 1) reader {} replies

/-! ## What it is for -/

/-- A text of a message as it is on the wire, where an empty one is left out. -/
def sentText (m : Message) (field : Field) : Option Bytes :=
  if m.get field = [] then none else some (m.clean.get field)

/-- The frame that a message is. -/
def frameOf (m : Message) : Frame :=
  { type := m.clean.type, status := sentText m .status, level := sentText m .level,
    text := sentText m .text, promptID := sentText m .promptID, secret := m.secret }

/-- A text is added to what is to be shown, in a buffer without a limit. -/
def show_ (pending : DisplayBuffer) (frame : Frame) : DisplayBuffer :=
  match frame.text with
  | none | some [] => pending
  | some text =>
    { text := pending.text ++ text ++ [newline]
      hadError := pending.hadError || isError frame.level }

/-- The conversation that a list of frames asks for, and whether it approves: all that is displayed
is shown before the next prompt or the end, and each prompt is shown and answered. -/
def relay (jansson : Jansson) : DisplayBuffer → List Frame → List Reply → List Event × Bool
  | pending, [], _ => (flush pending, false)
  | pending, frame :: rest, replies =>
    if frame.type = typeResult then
      (.frame frame :: flush pending, frame.status = some (asciiBytes "approved"))
    else if frame.type = typeDisplay then
      let later := relay jansson (show_ pending frame) rest replies
      (.frame frame :: later.1, later.2)
    else if frame.type = typePrompt then
      let shown := Event.presented (promptStyle frame) (pending.text ++ frame.text.getD [])
      match frame.promptID, replies with
      | some promptID, .answered answer writes :: more =>
        if sends jansson promptID answer writes then
          let later := relay jansson {} rest more
          (.frame frame :: shown :: .responded promptID answer :: later.1, later.2)
        else ([.frame frame, shown], false)
      | _, _ => ([.frame frame, shown], false)
    else (.frame frame :: flush pending, false)

/-- No text of the frame has a U+0000. -/
def NoNul (m : Message) : Prop := ∀ field, 0 ∉ m.clean.get field

/-- The frames can be relayed: none has a U+0000, what is shown at once fits the arrays of the
module, prompts have an id, and there is nothing left to show at an end without a result. -/
def Relayable (jansson : Jansson) : DisplayBuffer → List Message → List Reply → Prop
  | pending, [], _ => pending.text = []
  | pending, m :: rest, replies =>
    let frame := frameOf m
    NoNul m ∧
      if frame.type = typeResult then pending.text.length < helixMaxMessage
      else if frame.type = typeDisplay then Relayable jansson (show_ pending frame) rest replies
      else if frame.type = typePrompt then
        (pending.text ++ frame.text.getD []).length < helixMaxMessage ∧
          match frame.promptID with
          | none => False
          | some promptID =>
            match replies with
            | [] | .failed :: _ => True
            | .answered answer writes :: more =>
              sends jansson promptID answer writes = true → Relayable jansson {} rest more
      else pending.text = []

/-! ## What a frame is read as -/

variable {jansson : Jansson} {m : Message}

theorem name_inj {field other : Field} (same : asciiBytes field.name = asciiBytes other.name) :
    field = other := by
  cases field <;> cases other <;> first | rfl | exact absurd same (by decide)

/-- The member with a key among some, or what was found before them. -/
def lookup (key : String) (members : List Member) (before : Option Json) : Option Json :=
  (members.map Member.read).foldl
    (fun found item => if item.1 = asciiBytes key then some item.2 else found) before

theorem lookup_append (key : String) (members more : List Member) (before : Option Json) :
    lookup key (members ++ more) before = lookup key more (lookup key members before) := by
  rw [lookup, List.map_append, List.foldl_append]
  rfl

theorem lookup_other {key : String} {members : List Member} {before : Option Json}
    (absent : ∀ member ∈ members, member.key ≠ asciiBytes key) :
    lookup key members before = before := by
  induction members generalizing before with
  | nil => rfl
  | cons member rest ih =>
    have other : member.read.1 ≠ asciiBytes key := absent member List.mem_cons_self
    rw [lookup, List.map_cons, List.foldl_cons, if_neg other]
    exact ih fun later inRest => absent later (List.mem_cons_of_mem member inRest)

theorem key_of_mem_textItems {fields : List Field} {member : Member}
    (inside : member ∈ fields.flatMap (textItem m)) :
    ∃ field ∈ fields, member.key = asciiBytes field.name := by
  obtain ⟨field, known, inItem⟩ := List.mem_flatMap.mp inside
  unfold textItem at inItem
  split at inItem
  · cases inItem
  · rw [List.mem_singleton.mp inItem]
    exact ⟨field, known, rfl⟩

/-- A field among some that are written. -/
theorem lookup_textItems {fields : List Field} {field : Field} (distinct : fields.Nodup)
    (known : field ∈ fields) :
    lookup field.name (fields.flatMap (textItem m)) none = (sentText m field).map .string := by
  obtain ⟨front, back, rfl⟩ := List.append_of_mem known
  obtain ⟨-, tail, across⟩ := List.nodup_append.mp distinct
  have notFront : ∀ member ∈ front.flatMap (textItem m), member.key ≠ asciiBytes field.name := by
    intro member inside same
    obtain ⟨other, known, key⟩ := key_of_mem_textItems inside
    have equal := name_inj (key.symm.trans same)
    exact across other known field List.mem_cons_self equal
  have notBack : ∀ member ∈ back.flatMap (textItem m), member.key ≠ asciiBytes field.name := by
    intro member inside same
    obtain ⟨other, known, key⟩ := key_of_mem_textItems inside
    have equal := name_inj (key.symm.trans same)
    exact (List.nodup_cons.mp tail).1 (equal ▸ known)
  rw [List.flatMap_append, List.flatMap_cons, lookup_append, lookup_append, lookup_other notFront,
    lookup_other notBack, sentText, Message.get_clean, textItem]
  split
  · rfl
  · simp [lookup, Member.read]

/-- No field among some has the key. -/
theorem lookup_textItems_other {fields : List Field} {key : String} {before : Option Json}
    (unknown : ∀ field ∈ fields, asciiBytes field.name ≠ asciiBytes key) :
    lookup key (fields.flatMap (textItem m)) before = before := by
  refine lookup_other fun member inside same => ?_
  obtain ⟨other, known, named⟩ := key_of_mem_textItems inside
  exact unknown other known (named.symm.trans same)

theorem lookup_secretItem {key : String} {before : Option Json}
    (other : asciiBytes "secret" ≠ asciiBytes key) :
    lookup key (secretItem m) before = before := by
  refine lookup_other fun member inside same => ?_
  unfold secretItem at inside
  split at inside
  · rw [List.mem_singleton.mp inside] at same
    exact other same
  · cases inside

/-- A message as jansson has it. -/
def written (m : Message) : Json := .object (versionItem.read :: (items m).map Member.read)

theorem objectGet_written (key : String) :
    objectGet (written m) key = lookup key (fieldsAfter.flatMap (textItem m))
      (lookup key (secretItem m) (lookup key (fieldsBefore.flatMap (textItem m))
        (lookup key [versionItem, typeItem m] none))) := by
  rw [← lookup_append, ← lookup_append, ← lookup_append]
  simp only [objectGet, written, items, lookup, List.map_cons, List.map_append, List.cons_append,
    List.nil_append, List.append_assoc]

/-- The keys of no text that may be left out. -/
theorem name_apart {field : Field} (notType : field ≠ .type) :
    asciiBytes "version" ≠ asciiBytes field.name ∧ asciiBytes "type" ≠ asciiBytes field.name ∧
      asciiBytes "secret" ≠ asciiBytes field.name := by
  revert notType
  cases field <;> decide

theorem lookup_start {key : String} (notVersion : asciiBytes "version" ≠ asciiBytes key)
    (notType : asciiBytes "type" ≠ asciiBytes key) :
    lookup key [versionItem, typeItem m] none = none := by
  refine lookup_other fun member inside => ?_
  simp only [List.mem_cons, List.not_mem_nil, or_false] at inside
  rcases inside with rfl | rfl
  · exact notVersion
  · exact notType

/-- A text of a message, or nothing where it is empty. -/
theorem objectGet_text {field : Field} (known : field ∈ fieldsBefore ++ fieldsAfter) :
    objectGet (written m) field.name = (sentText m field).map .string := by
  have distinct : (fieldsBefore ++ fieldsAfter).Nodup := by decide
  obtain ⟨before, after, across⟩ := List.nodup_append.mp distinct
  have notType : field ≠ .type := by
    rintro rfl
    revert known
    decide
  obtain ⟨version, type, secret⟩ := name_apart notType
  rw [objectGet_written, lookup_start version type]
  rcases List.mem_append.mp known with inBefore | inAfter
  · have others : ∀ other ∈ fieldsAfter, asciiBytes other.name ≠ asciiBytes field.name :=
      fun other inAfter same => across field inBefore other inAfter (name_inj same).symm
    rw [lookup_textItems before inBefore, lookup_secretItem secret, lookup_textItems_other others]
  · have others : ∀ other ∈ fieldsBefore, asciiBytes other.name ≠ asciiBytes field.name :=
      fun other inBefore same => across other inBefore field inAfter (name_inj same)
    rw [lookup_textItems_other others, lookup_secretItem secret, lookup_textItems after inAfter]

/-- The keys that no text has. -/
theorem texts_other {key : String} (other : key = "version" ∨ key = "type" ∨ key = "secret")
    {fields : List Field} (texts : .type ∉ fields) :
    ∀ field ∈ fields, asciiBytes field.name ≠ asciiBytes key := by
  intro field inside
  obtain ⟨version, type, secret⟩ := name_apart fun same : field = .type => texts (same ▸ inside)
  rcases other with rfl | rfl | rfl
  · exact version.symm
  · exact type.symm
  · exact secret.symm

theorem objectGet_version : objectGet (written m) "version" = some (.number [ch '1']) := by
  have start : lookup "version" [versionItem, typeItem m] none = some (.number [ch '1']) := by
    have second : (typeItem m).key ≠ asciiBytes "version" := by
      change asciiBytes "type" ≠ _
      decide
    simp [lookup, Member.read, second, versionItem]
  rw [objectGet_written, start, lookup_textItems_other (texts_other (.inl rfl) (by decide)),
    lookup_secretItem (by decide), lookup_textItems_other (texts_other (.inl rfl) (by decide))]

theorem objectGet_type : objectGet (written m) "type" = some (.string m.clean.type) := by
  have start : lookup "type" [versionItem, typeItem m] none = some (.string m.clean.type) := by
    have second : (typeItem m).key = asciiBytes "type" := rfl
    simp [lookup, Member.read, second]
    rfl
  rw [objectGet_written, start, lookup_textItems_other (texts_other (.inr (.inl rfl)) (by decide)),
    lookup_secretItem (by decide),
    lookup_textItems_other (texts_other (.inr (.inl rfl)) (by decide))]

theorem objectGet_secret : isTrue (objectGet (written m) "secret") = m.secret := by
  rw [objectGet_written, lookup_start (by decide) (by decide),
    lookup_textItems_other (texts_other (.inr (.inr rfl)) (by decide)),
    lookup_textItems_other (texts_other (.inr (.inr rfl)) (by decide)), secretItem]
  split
  next secret =>
    rw [secret]
    rfl
  next open_ =>
    rw [Bool.not_eq_true] at open_
    rw [open_]
    rfl

theorem stringValue_map (text : Option Bytes) : stringValue (text.map .string) = text := by
  cases text <;> rfl

theorem membersHaveNul_iff (members : List (Bytes × Json)) :
    membersHaveNul members = true ↔ ∃ item ∈ members, 0 ∈ item.1 ∨ hasNul item.2 = true := by
  induction members with
  | nil => simp [membersHaveNul]
  | cons item rest ih =>
    obtain ⟨key, json⟩ := item
    simp [membersHaveNul, ih, or_assoc]

theorem mem_textItems {fields : List Field} {item : Bytes × Json} :
    item ∈ (fields.flatMap (textItem m)).map Member.read ↔ ∃ field ∈ fields, m.get field ≠ [] ∧
      item = (asciiBytes field.name, .string (m.clean.get field)) := by
  rw [List.map_flatMap, List.mem_flatMap]
  refine exists_congr fun field => and_congr_right fun _ => ?_
  rw [textItem, Message.get_clean]
  split
  next empty =>
    simp [empty]
  next some_ =>
    simp [some_, Member.read]

theorem typeItem_read : (typeItem m).read = (asciiBytes "type", .string m.clean.type) := rfl

/-- U+0000 is in the JSON of a message just when it is in one of its texts. -/
theorem hasNul_written : hasNul (written m) = true ↔ ¬ NoNul m := by
  have names : ∀ field : Field, (0 : UInt8) ∉ asciiBytes field.name := by
    intro field
    cases field <;> decide
  have known : ∀ field : Field, field = .type ∨ field ∈ fieldsBefore ∨ field ∈ fieldsAfter := by
    intro field
    cases field <;> decide
  have some_ : ∀ {field : Field}, 0 ∈ m.clean.get field → m.get field ≠ [] := by
    intro field nul empty
    rw [Message.get_clean, empty] at nul
    cases nul
  rw [written, hasNul, membersHaveNul_iff, NoNul, not_forall]
  constructor
  · rintro ⟨item, inside, nul⟩
    have version : ¬ (0 ∈ versionItem.read.1 ∨ hasNul versionItem.read.2 = true) := by
      rw [not_or]
      exact ⟨by decide, by simp [versionItem, Member.read, hasNul]⟩
    have fromTexts : ∀ fields : List Field, item ∈ (fields.flatMap (textItem m)).map Member.read →
        ∃ field, ¬ (0 : UInt8) ∉ m.clean.get field := by
      intro fields inTexts
      obtain ⟨field, -, -, rfl⟩ := mem_textItems.mp inTexts
      rcases nul with inName | inText
      · exact absurd inName (names field)
      · exact ⟨field, by simpa [hasNul] using inText⟩
    rcases List.mem_cons.mp inside with rfl | inside
    · exact absurd nul version
    · rw [items, List.map_cons] at inside
      rcases List.mem_cons.mp inside with rfl | inside
      · refine ⟨.type, ?_⟩
        rcases nul with inName | inText
        · exact absurd inName (by change ¬ 0 ∈ asciiBytes "type"; decide)
        · have inType : 0 ∈ m.clean.type := by simpa [typeItem_read, hasNul] using inText
          exact not_not.mpr inType
      · rw [List.map_append, List.map_append] at inside
        rcases List.mem_append.mp inside with front | inAfter
        · rcases List.mem_append.mp front with inBefore | inSecret
          · exact fromTexts _ inBefore
          · obtain ⟨member, inSecret, rfl⟩ := List.mem_map.mp inSecret
            unfold secretItem at inSecret
            split at inSecret
            · rw [List.mem_singleton.mp inSecret] at nul
              simp only [Member.read, hasNul] at nul
              exact absurd nul (by decide)
            · cases inSecret
        · exact fromTexts _ inAfter
  · rintro ⟨field, nul⟩
    rw [not_not] at nul
    rcases known field with rfl | inBefore | inAfter
    · refine ⟨(typeItem m).read, by simp [items], .inr ?_⟩
      have inType : 0 ∈ m.clean.type := nul
      simpa [typeItem_read, hasNul] using inType
    · refine ⟨(asciiBytes field.name, .string (m.clean.get field)), ?_, .inr ?_⟩
      · have inTexts := mem_textItems.mpr ⟨field, inBefore, some_ nul, rfl⟩
        simp only [items, List.map_cons, List.map_append, List.mem_cons, List.mem_append]
        exact .inr (.inr (.inl (.inl inTexts)))
      · simpa [hasNul] using nul
    · refine ⟨(asciiBytes field.name, .string (m.clean.get field)), ?_, .inr ?_⟩
      · have inTexts := mem_textItems.mpr ⟨field, inAfter, some_ nul, rfl⟩
        simp only [items, List.map_cons, List.map_append, List.mem_cons, List.mem_append]
        exact .inr (.inr (.inr inTexts))
      · simpa [hasNul] using nul

/-- A message with its version is read, unless it has a U+0000. -/
theorem readFrame_marshal (current : m.version = currentVersion) :
    (NoNul m → readFrame jansson m.marshal = some (frameOf m)) ∧
      (¬ NoNul m → readFrame jansson m.marshal = none) := by
  have line : m.marshal.takeWhile (· ≠ 0) = m.marshal := by
    refine List.takeWhile_eq_self_iff.mpr fun c member => ?_
    have printable := marshal_printable current member
    simp only [ne_eq, decide_not, Bool.not_eq_eq_eq_not, Bool.not_true, decide_eq_false_iff_not]
    rintro rfl
    exact absurd printable (by decide)
  have parsed : parse m.marshal = some (written m) := by
    have whole := @parse_marshal m current [] (by simp)
    rwa [List.append_nil] at whole
  have version : integerValue (objectGet (written m) "version") = 1 := by
    rw [objectGet_version]
    decide
  have text : ∀ field ∈ fieldsBefore ++ fieldsAfter,
      stringValue (objectGet (written m) field.name) = sentText m field := by
    intro field known
    rw [objectGet_text known, stringValue_map]
  have status := text .status (by decide)
  have level := text .level (by decide)
  have shown := text .text (by decide)
  have promptID := text .promptID (by decide)
  unfold readFrame
  rw [line, jansson.reads m current, parsed]
  constructor
  · intro noNul
    have clean : hasNul (written m) = false := by
      rw [Bool.eq_false_iff, Ne, hasNul_written, not_not]
      exact noNul
    simp only [Option.filter_some, clean, Bool.not_false, if_true, Option.bind_eq_bind,
      Option.bind_some, objectGet_type, stringValue, version, ne_eq, not_true_eq_false, if_false]
    rw [frameOf, ← status, ← level, ← shown, ← promptID, objectGet_secret]
    rfl
  · intro nul
    have dirty : hasNul (written m) = true := hasNul_written.mpr nul
    simp [dirty]

theorem noNul_stamped : NoNul m.stamped ↔ NoNul m := by
  refine forall_congr' fun field => ?_
  cases field <;> exact Iff.rfl

/-- A frame of the daemon is read, unless it has a U+0000. -/
theorem readFrame_stamped (noNul : NoNul m) :
    readFrame jansson m.stamped.marshal = some (frameOf m) :=
  (readFrame_marshal rfl).1 (noNul_stamped.mpr noNul)

theorem readFrame_nul (nul : ¬ NoNul m) : readFrame jansson m.stamped.marshal = none :=
  (readFrame_marshal rfl).2 fun noNul => nul (noNul_stamped.mp noNul)

/-! ## The conversation of the frames that were read -/

/-- The conversation when the frames arrive that these messages are. -/
def perform (jansson : Jansson) : DisplayBuffer → List Message → List Reply → List Event × PamCode
  | _, [], _ => ([], .authinfoUnavail)
  | pending, m :: rest, replies =>
    match readFrame jansson m.stamped.marshal with
    | none => ([], .authinfoUnavail)
    | some frame =>
      match handleFrame jansson frame pending replies with
      | .ends events code => (.frame frame :: events, code)
      | .goes events pending replies =>
        let later := perform jansson pending rest replies
        (.frame frame :: (events ++ later.1), later.2)

/-- The buffer holds what is to be shown, or that is too much for it. -/
structure Held (pending want : DisplayBuffer) : Prop where
  bounded : pending.text.length < helixMaxMessage
  hadError : pending.hadError = want.hadError
  text : pending.text = want.text ∨ helixMaxMessage ≤ want.text.length

theorem held_empty : Held {} {} := ⟨by decide, rfl, .inl rfl⟩

theorem Held.append {pending want : DisplayBuffer} (held : Held pending want) (frame : Frame) :
    Held (displayAppend pending frame.text (isError frame.level)) (show_ want frame) := by
  obtain ⟨bounded, hadError, text⟩ := held
  rw [displayAppend.eq_def, show_.eq_def]
  match frame.text with
  | none => exact ⟨bounded, hadError, text⟩
  | some [] => exact ⟨bounded, hadError, text⟩
  | some (c :: more) =>
    dsimp only
    generalize shape : c :: more = shown
    have some_ : 0 < shown.length := by simp [← shape]
    have limit : helixMaxMessage = 16384 := rfl
    split
    next long =>
      have much : helixMaxMessage ≤ (want.text ++ shown ++ [newline]).length := by
        simp only [List.length_append, List.length_singleton]
        rcases text with same | much
        · rw [← same]
          omega
        · omega
      split
      · exact ⟨bounded, by rw [hadError], .inr much⟩
      next room =>
        refine ⟨?_, by rw [hadError], .inr much⟩
        simp only [List.length_append, List.length_singleton, List.length_take]
        omega
    next fits =>
      have taken : shown.take (shown.length : Int).toNat = shown := by simp
      rw [if_neg (by omega), taken]
      refine ⟨?_, by rw [hadError], ?_⟩
      · simp only [List.length_append, List.length_singleton]
        omega
      · rcases text with same | much
        · exact .inl (by rw [same])
        · refine .inr ?_
          simp only [List.length_append]
          omega

theorem flush_eq {pending want : DisplayBuffer} (held : Held pending want) :
    flush pending = flush want ↔ want.text.length < helixMaxMessage := by
  obtain ⟨bounded, hadError, text⟩ := held
  constructor
  · intro same
    rcases text with equal | much
    · rwa [← equal]
    · have some_ : want.text ≠ [] := by
        intro empty
        rw [empty] at much
        exact absurd much (by decide)
      unfold flush at same
      rw [if_neg some_] at same
      split at same
      · cases same
      · obtain ⟨-, equal⟩ := Event.presented.inj (List.cons.inj same).1
        rwa [← equal]
  · intro fits
    have equal : pending.text = want.text := text.resolve_right (Nat.not_le.mpr fits)
    rw [flush, flush, equal, hadError]

theorem flush_eq_nil (want : DisplayBuffer) : flush want = [] ↔ want.text = [] := by
  unfold flush
  split
  next empty =>
    simp [empty]
  next some_ =>
    simp [some_]

/-- What a prompt shows is cut off just when it does not fit. -/
theorem prompt_eq {pending want : DisplayBuffer} (held : Held pending want) (text : Bytes) :
    (pending.text ++ text).take (helixMaxMessage - 1) = want.text ++ text ↔
      (want.text ++ text).length < helixMaxMessage := by
  obtain ⟨bounded, -, held⟩ := held
  have limit : helixMaxMessage = 16384 := rfl
  constructor
  · intro same
    have short := List.length_take_le (helixMaxMessage - 1) (pending.text ++ text)
    rw [same] at short
    omega
  · intro fits
    have equal : pending.text = want.text := by
      refine held.resolve_right fun much => ?_
      rw [List.length_append] at fits
      omega
    rw [equal]
    exact List.take_of_length_le (by omega)

/-- The conversation of the module is the one that is asked for. -/
def Faithful (jansson : Jansson) (have_ want : DisplayBuffer) (ms : List Message)
    (replies : List Reply) : Prop :=
  let done := perform jansson have_ ms replies
  let asked := relay jansson want (ms.map frameOf) replies
  done.1 = asked.1 ∧ (done.2 = .success ↔ asked.2 = true)

variable {replies : List Reply}

theorem perform_unread {pending : DisplayBuffer} {rest : List Message} (nul : ¬ NoNul m) :
    perform jansson pending (m :: rest) replies = ([], .authinfoUnavail) := by
  rw [perform, readFrame_nul nul]

theorem perform_read {pending : DisplayBuffer} {rest : List Message} {replies : List Reply}
    (noNul : NoNul m) :
    perform jansson pending (m :: rest) replies =
      match handleFrame jansson (frameOf m) pending replies with
      | .ends events code => (.frame (frameOf m) :: events, code)
      | .goes events pending replies =>
        let later := perform jansson pending rest replies
        (.frame (frameOf m) :: (events ++ later.1), later.2) := by
  rw [perform, readFrame_stamped noNul]

theorem statusToPam_success (status : Option Bytes) :
    statusToPam status = .success ↔ status = some (asciiBytes "approved") := by
  unfold statusToPam
  split
  · simp
  rename_i status
  split
  next approved =>
    simp [approved]
  next other =>
    split <;> simp [other]

/-- Every frame that is asked for comes first. -/
theorem relay_cons {want : DisplayBuffer} {frame : Frame} {rest : List Frame}
    {replies : List Reply} :
    ∃ later, (relay jansson want (frame :: rest) replies).1 = .frame frame :: later := by
  rw [relay]
  dsimp only
  split
  · exact ⟨_, rfl⟩
  split
  · exact ⟨_, rfl⟩
  split
  · split
    · split <;> exact ⟨_, rfl⟩
    · exact ⟨_, rfl⟩
  · exact ⟨_, rfl⟩

variable {ms : List Message}

/-- The module does what is asked for just when that can be relayed. -/
theorem faithful_iff {have_ want : DisplayBuffer} (held : Held have_ want) :
    Faithful jansson have_ want ms replies ↔ Relayable jansson want ms replies := by
  induction ms generalizing have_ want replies with
  | nil =>
    rw [Faithful, Relayable, perform, List.map_nil, relay]
    dsimp only
    rw [eq_comm (a := []), flush_eq_nil]
    simp
  | cons m rest ih =>
    by_cases noNul : NoNul m
    · rw [Faithful, Relayable, perform_read noNul, List.map_cons, relay, handleFrame]
      generalize frameOf m = frame
      dsimp only
      rw [and_iff_right noNul]
      by_cases result : frame.type = typeResult
      · rw [if_pos result, if_pos result, if_pos result]
        simp only [List.cons.injEq, true_and, flush_eq held, statusToPam_success,
          decide_eq_true_eq, and_true]
      rw [if_neg result, if_neg result, if_neg result]
      by_cases display : frame.type = typeDisplay
      · rw [if_pos display, if_pos display, if_pos display]
        simp only [List.nil_append, List.cons.injEq, true_and]
        exact ih (held.append frame)
      rw [if_neg display, if_neg display, if_neg display]
      by_cases prompt : frame.type = typePrompt
      · rw [if_pos prompt, if_pos prompt, if_pos prompt]
        cases id : frame.promptID with
        | none => simp
        | some promptID =>
          have shown := prompt_eq held (frame.text.getD [])
          rcases replies with _ | ⟨_ | ⟨answer, writes⟩, more⟩
          · simp only [List.cons.injEq, Event.presented.injEq, shown, true_and, and_true,
              reduceCtorEq, Bool.false_eq_true]
          · simp only [List.cons.injEq, Event.presented.injEq, shown, true_and, and_true,
              reduceCtorEq, Bool.false_eq_true]
          · dsimp only
            by_cases sent : sends jansson promptID answer writes = true
            · rw [if_pos sent, if_pos sent]
              have after := @ih more {} {} held_empty
              rw [Faithful] at after
              simp only [List.cons_append, List.nil_append, List.cons.injEq,
                Event.presented.injEq, shown, true_and, sent, forall_const, and_assoc, ← after]
            · rw [if_neg sent, if_neg sent]
              simp only [List.cons.injEq, Event.presented.injEq, shown, true_and, and_true,
                reduceCtorEq, Bool.false_eq_true, sent, false_implies]
      · rw [if_neg prompt, if_neg prompt, if_neg prompt]
        simp [eq_comm (a := []), flush_eq_nil]
    · obtain ⟨after, asked⟩ := @relay_cons jansson want (frameOf m) (rest.map frameOf) replies
      rw [Faithful, Relayable, perform_unread noNul, List.map_cons, asked]
      constructor
      · rintro ⟨nothing, -⟩
        cases nothing
      · rintro ⟨read, -⟩
        exact absurd read noNul

/-- A success was asked for, whatever was lost. -/
theorem approved_of_success {have_ want : DisplayBuffer}
    (success : (perform jansson have_ ms replies).2 = .success) :
    (relay jansson want (ms.map frameOf) replies).2 = true := by
  induction ms generalizing have_ want replies with
  | nil => cases success
  | cons m rest ih =>
    by_cases noNul : NoNul m
    · rw [perform_read noNul, handleFrame] at success
      rw [List.map_cons, relay]
      generalize frameOf m = frame at success ⊢
      dsimp only at success ⊢
      by_cases result : frame.type = typeResult
      · rw [if_pos result] at success ⊢
        exact decide_eq_true ((statusToPam_success frame.status).mp success)
      rw [if_neg result] at success ⊢
      by_cases display : frame.type = typeDisplay
      · rw [if_pos display] at success ⊢
        exact ih success
      rw [if_neg display] at success ⊢
      by_cases prompt : frame.type = typePrompt
      · rw [if_pos prompt] at success ⊢
        cases id : frame.promptID with
        | none =>
          rw [id] at success
          cases success
        | some promptID =>
          rw [id] at success
          rcases replies with _ | ⟨_ | ⟨answer, writes⟩, more⟩
          · cases success
          · cases success
          · dsimp only at success ⊢
            by_cases sent : sends jansson promptID answer writes = true
            · rw [if_pos sent] at success ⊢
              exact ih success
            · rw [if_neg sent] at success
              cases success
      · rw [if_neg prompt] at success
        cases success
    · rw [perform_unread noNul] at success
      cases success

/-! ## The conversation of the bytes -/

variable {reader : Reader UInt8}

theorem readLine_frame {body rest : Bytes} (absent : newline ∉ body)
    (short : body.length + 1 ≤ helixMaxMessage)
    (fits : reader.buffered.length ≤ helixMaxMessage)
    (arrives : reader.pending = (body ++ [newline]) ++ rest) :
    ∃ after : Reader UInt8, readLine reader = (some body, after) ∧ after.pending = rest ∧
      after.buffered.length ≤ helixMaxMessage := by
  obtain ⟨same, fitsAfter⟩ := readSlice_eq newline reader.chunks fits
  change _ = slice newline helixMaxMessage reader.pending at same
  have whole : (body ++ [newline]).length ≤ helixMaxMessage := by
    rw [List.length_append, List.length_singleton]
    exact short
  have cut : cutLine newline (body ++ [newline]) = some (body ++ [newline], []) :=
    cutLine_eq_some.mpr ⟨body, absent, rfl, (List.append_nil _).symm⟩
  have front : reader.pending.take helixMaxMessage =
      (body ++ [newline]) ++ rest.take (helixMaxMessage - (body ++ [newline]).length) := by
    rw [arrives, List.take_append, List.take_of_length_le whole]
  have back : reader.pending.drop helixMaxMessage =
      rest.drop (helixMaxMessage - (body ++ [newline]).length) := by
    rw [arrives, List.drop_append, List.drop_of_length_le whole, List.nil_append]
  rw [slice, front, cutLine_append _ cut, back] at same
  dsimp only at same
  rw [List.nil_append, List.take_append_drop] at same
  unfold readLine
  generalize readSlice newline helixMaxMessage reader.buffered reader.chunks = result
    at same fitsAfter
  obtain ⟨found, after⟩ := result
  dsimp only at same fitsAfter ⊢
  obtain ⟨rfl, left⟩ := Prod.mk.inj same
  refine ⟨after, ?_, left, fitsAfter⟩
  dsimp only
  rw [List.dropLast_concat]

theorem readLine_nothing (fits : reader.buffered.length ≤ helixMaxMessage)
    (nothing : reader.pending = []) : (readLine reader).1 = none := by
  obtain ⟨same, -⟩ := readSlice_eq newline reader.chunks fits
  change _ = slice newline helixMaxMessage reader.pending at same
  rw [nothing] at same
  have found := congrArg Prod.fst same
  unfold readLine
  dsimp only at found ⊢
  rw [found]
  rfl

/-- How the socket cuts its bytes makes no difference. -/
theorem converse_frames {frames : List Bytes} {pending : DisplayBuffer}
    {fuel : Nat} (written : ms.mapM write = .ok frames)
    (fits : reader.buffered.length ≤ helixMaxMessage) (arrives : reader.pending = frames.flatten)
    (enough : ms.length < fuel) :
    converse jansson fuel reader pending replies = perform jansson pending ms replies := by
  induction ms generalizing frames pending replies fuel reader with
  | nil =>
    obtain rfl := Except.ok.inj written
    obtain ⟨fuel, rfl⟩ := Nat.exists_eq_add_of_lt enough
    rw [converse, perform]
    have ended := readLine_nothing fits arrives
    generalize readLine reader = result at ended
    obtain ⟨line, after⟩ := result
    dsimp only at ended
    subst ended
    rfl
  | cons m rest ih =>
    obtain ⟨others, first, later, rfl⟩ := mapM_write_cons written
    obtain ⟨-, short⟩ := write_ok first
    rw [List.length_append, List.length_singleton] at short
    obtain ⟨after, read, left, fitsAfter⟩ :=
      readLine_frame (newline_notMem_marshal m) short fits arrives
    cases fuel with
    | zero => cases enough
    | succ fuel =>
      have enoughLater : rest.length < fuel := Nat.lt_of_succ_lt_succ enough
      rw [converse, read, perform]
      dsimp only
      cases readFrame jansson m.stamped.marshal with
      | none => rfl
      | some frame =>
        dsimp only
        cases handleFrame jansson frame pending replies with
        | ends events code => rfl
        | goes events pending replies =>
          dsimp only
          rw [ih later fitsAfter left enoughLater]

/-- A line that the daemon reads as the answer to a prompt. -/
def Answers (line promptID value : Bytes) : Prop :=
  newline ∉ line ∧ line.length + 1 ≤ helixMaxMessage ∧
    unmarshal (line ++ [newline]) = some (answerMessage promptID value)

theorem answers_of_sends {promptID value : Bytes} {writes : Bool}
    (sent : sends jansson promptID value writes = true) :
    ∃ line, jansson.response promptID value = some line ∧ Answers line promptID value := by
  unfold sends at sent
  cases dumped : jansson.response promptID value with
  | none =>
    rw [dumped] at sent
    cases sent
  | some line =>
    rw [dumped] at sent
    simp only [Bool.and_eq_true, decide_eq_true_eq] at sent
    obtain ⟨whole, read⟩ := jansson.dumps promptID value line dumped
    exact ⟨line, rfl, whole, sent.1, read⟩

def Turn.events : Turn → List Event
  | .ends events _ => events
  | .goes events _ _ => events

theorem sends_of_responded {frame : Frame} {pending : DisplayBuffer} {replies : List Reply}
    {promptID value : Bytes}
    (responded : .responded promptID value ∈ (handleFrame jansson frame pending replies).events) :
    ∃ writes, sends jansson promptID value writes = true := by
  unfold handleFrame at responded
  by_cases result : frame.type = typeResult
  · rw [if_pos result, Turn.events] at responded
    unfold flush at responded
    split at responded <;> simp at responded
  rw [if_neg result] at responded
  by_cases display : frame.type = typeDisplay
  · rw [if_pos display] at responded
    cases responded
  rw [if_neg display] at responded
  by_cases prompt : frame.type = typePrompt
  · rw [if_pos prompt] at responded
    cases id : frame.promptID with
    | none =>
      rw [id] at responded
      cases responded
    | some other =>
      rw [id] at responded
      rcases replies with _ | ⟨_ | ⟨answer, writes⟩, more⟩
      · simp [Turn.events] at responded
      · simp [Turn.events] at responded
      · dsimp only at responded
        by_cases sent : sends jansson other answer writes = true
        · rw [if_pos sent] at responded
          obtain ⟨rfl, rfl⟩ : promptID = other ∧ value = answer := by
            simpa [Turn.events] using responded
          exact ⟨writes, sent⟩
        · rw [if_neg sent] at responded
          simp [Turn.events] at responded
  · rw [if_neg prompt] at responded
    cases responded

/-- Each answer is a line that the daemon reads as that answer. -/
theorem responded_answers {fuel : Nat} {pending : DisplayBuffer} {promptID value : Bytes}
    (responded : .responded promptID value ∈ (converse jansson fuel reader pending replies).1) :
    ∃ line, jansson.response promptID value = some line ∧ Answers line promptID value := by
  induction fuel generalizing reader pending replies with
  | zero => cases responded
  | succ fuel ih =>
    rw [converse] at responded
    cases taken : readLine reader with
    | mk found after =>
      rw [taken] at responded
      cases found with
      | none => cases responded
      | some line =>
        dsimp only at responded
        cases read : readFrame jansson line with
        | none =>
          rw [read] at responded
          cases responded
        | some frame =>
          rw [read] at responded
          dsimp only at responded
          have turn := @sends_of_responded jansson frame pending replies promptID value
          cases handled : handleFrame jansson frame pending replies with
          | ends events code =>
            rw [handled] at responded turn
            have inside : .responded promptID value ∈ events := by
              simpa using responded
            obtain ⟨writes, sent⟩ := turn inside
            exact answers_of_sends sent
          | goes events kept more =>
            rw [handled] at responded turn
            have inside : .responded promptID value ∈ events ∨
                .responded promptID value ∈
                  (converse jansson fuel after kept more).1 := by
              simpa using responded
            rcases inside with now | later
            · obtain ⟨writes, sent⟩ := turn now
              exact answers_of_sends sent
            · exact ih later

/-! ## The conversation that the daemon asks for -/

theorem runConversation_frames {frames chunks : List Bytes} (written : ms.mapM write = .ok frames)
    (arrives : chunks.flatten = frames.flatten) :
    runConversation jansson ⟨[], chunks⟩ replies = perform jansson {} ms replies := by
  have pending : Reader.pending ⟨[], chunks⟩ = frames.flatten := arrives
  have enough : ms.length < (Reader.pending ⟨[], chunks⟩).length + 1 := by
    rw [pending]
    exact Nat.lt_succ_of_le (length_le_flatten written)
  exact converse_frames written (Nat.zero_le _) pending enough

/-- The frames of the daemon are shown and answered as it asks, and its approval is a success, just
when they can be relayed; no other frames succeed; and each answer is read as it was given. -/
theorem conversation_relays (jansson : Jansson) (ms : List Message) (frames : List Bytes)
    (written : ms.mapM write = .ok frames) (chunks : List Bytes)
    (arrives : chunks.flatten = frames.flatten) (replies : List Reply) :
    let run := runConversation jansson ⟨[], chunks⟩ replies
    let asked := relay jansson {} (ms.map frameOf) replies
    (run.1 = asked.1 ∧ (run.2 = .success ↔ asked.2 = true) ↔ Relayable jansson {} ms replies) ∧
      (run.2 = .success → asked.2 = true) ∧
      ∀ promptID value, .responded promptID value ∈ run.1 →
        ∃ line, jansson.response promptID value = some line ∧ Answers line promptID value := by
  intro run asked
  have same : run = perform jansson {} ms replies := runConversation_frames written arrives
  refine ⟨?_, ?_, fun promptID value responded => responded_answers responded⟩
  · rw [same]
    exact faithful_iff held_empty
  · rw [same]
    exact approved_of_success

/-- What Go reads, without U+0000, and what it writes of texts that are UTF-8. -/
def goJansson : Jansson where
  loads line := (parse line).filter fun json => !hasNul json
  response promptID value :=
    let m := answerMessage promptID value
    if m.clean = m then some m.marshal else none
  reads _ _ := rfl
  dumps promptID value encoded dumped := by
    dsimp only at dumped
    split at dumped
    next clean =>
      obtain rfl := Option.some.inj dumped
      exact ⟨newline_notMem_marshal (answerMessage promptID value),
        (unmarshal_marshal rfl).trans (congrArg some clean)⟩
    · cases dumped

def approval : Message := { type := typeResult, status := asciiBytes "approved" }

/-- A text, a question and the result. -/
def sampleConversation : List Message :=
  [{ type := typeDisplay, text := asciiBytes "hi" },
    { type := typePrompt, promptID := asciiBytes "p", text := asciiBytes "Code: " }, approval]

def sampleConversationFrames : List Bytes :=
  [asciiBytes "\x7b\"version\":1,\"type\":\"display\",\"text\":\"hi\"\x7d\n",
    asciiBytes "\x7b\"version\":1,\"type\":\"prompt\",\"text\":\"Code: \",\"prompt_id\":\"p\"\x7d\n",
    asciiBytes "\x7b\"version\":1,\"type\":\"result\",\"status\":\"approved\"\x7d\n"]

def sampleReplies : List Reply := [.answered (asciiBytes "123456") true]

theorem conversation_relays_sample :
    let run := runConversation goJansson ⟨[], sampleConversationFrames⟩ sampleReplies
    let asked := relay goJansson {} (sampleConversation.map frameOf) sampleReplies
    (run.1 = asked.1 ∧ (run.2 = .success ↔ asked.2 = true) ↔
      Relayable goJansson {} sampleConversation sampleReplies) ∧
      (run.2 = .success → asked.2 = true) ∧
      ∀ promptID value, .responded promptID value ∈ run.1 →
        ∃ line, goJansson.response promptID value = some line ∧ Answers line promptID value :=
  conversation_relays goJansson sampleConversation sampleConversationFrames (by decide +kernel)
    sampleConversationFrames rfl sampleReplies

/-- A text with a U+0000. -/
def nulConversation : List Message := [{ type := typeDisplay, text := [ch 'a', 0] }, approval]

def longDisplay : Message := { type := typeDisplay, text := List.replicate 8192 (ch 'a') }

/-- Texts that are too long for the buffer together. -/
def longConversation : List Message := [longDisplay, longDisplay, approval]

/-- A text that is shown before the daemon goes away. -/
def lastWords : List Message := [{ type := typeDisplay, text := asciiBytes "bye" }]

/-- The daemon can write the messages, and the module does not relay them. -/
def Unrelayed (ms : List Message) : Prop :=
  ∃ frames, ms.mapM write = .ok frames ∧
    let run := runConversation goJansson ⟨[], frames⟩ []
    let asked := relay goJansson {} (ms.map frameOf) []
    ¬ (run.1 = asked.1 ∧ (run.2 = .success ↔ asked.2 = true))

theorem not_relayed (written : (ms.mapM write).isOk = true)
    (unrelayable : ¬ Relayable goJansson {} ms []) : Unrelayed ms := by
  cases found : ms.mapM write with
  | error error =>
    rw [found] at written
    cases written
  | ok frames =>
    refine ⟨frames, found, ?_⟩
    rw [runConversation_frames found rfl]
    exact fun faithful => unrelayable ((faithful_iff held_empty).mp faithful)

/-- What is written of a text that is to be shown. -/
theorem marshal_display {text : Bytes} (some_ : text ≠ []) :
    ({ type := typeDisplay, text } : Message).stamped.marshal =
      asciiBytes "\x7b\"version\":1,\"type\":\"display\",\"text\":" ++ quote text ++ [ch '}'] := by
  let m : Message := { type := typeDisplay, text, version := currentVersion }
  have members : fieldsBefore.flatMap (textMember m) ++ secretMember m ++
      fieldsAfter.flatMap (textMember m) = [(asciiBytes "text", quote text)] := by
    simp [m, fieldsBefore, fieldsAfter, textMember, secretMember, Message.get, some_, Field.name]
  have front : asciiBytes "\x7b\"version\":1,\"type\":\"display\",\"text\":" =
      ch '{' :: (member (asciiBytes "version") (asciiBytes (toString currentVersion)) ++
        ch ',' :: (member (asciiBytes "type") (quote typeDisplay) ++
          ch ',' :: member (asciiBytes "text") [])) := by
    rw [asciiBytes_ofList]
    decide
  rw [front, Message.stamped, Message.marshal, members]
  simp [objectText, moreMembers, member]

theorem length_quote_replicate (n : Nat) :
    (quote (List.replicate n (ch 'a'))).length = n + 2 := by
  have escape : (Rune.ascii (ch 'a')).escape = [ch 'a'] := by decide
  rw [quote, runes_replicate (by decide), List.flatMap_replicate, escape]
  simp

theorem longDisplay_written : (write longDisplay).isOk = true := by
  have some_ : List.replicate 8192 (ch 'a') ≠ [] := List.cons_ne_nil _ (List.replicate 8191 _)
  have quoted := length_quote_replicate 8192
  have front : (asciiBytes "\x7b\"version\":1,\"type\":\"display\",\"text\":").length = 37 := by
    rw [asciiBytes_ofList, List.length_map]
    rfl
  have fits : ¬ longDisplay.stamped.marshal.length + 1 > maxMessageBytes := by
    rw [longDisplay, marshal_display some_, List.length_append, List.length_append, quoted, front]
    decide
  rw [write, if_neg fits]
  rfl

theorem longConversation_written : (longConversation.mapM write).isOk = true := by
  have one := longDisplay_written
  have last : (write approval).isOk = true := by decide
  cases first : write longDisplay with
  | error error =>
    rw [first] at one
    cases one
  | ok frame =>
    cases second : write approval with
    | error error =>
      rw [second] at last
      cases last
    | ok result =>
      rw [longConversation, List.mapM_cons, List.mapM_cons, List.mapM_cons, first, second]
      rfl

theorem relayable_display {pending : DisplayBuffer} {rest : List Message}
    (display : (frameOf m).type = typeDisplay)
    (relayable : Relayable jansson pending (m :: rest) replies) :
    Relayable jansson (show_ pending (frameOf m)) rest replies := by
  have other : ¬ (frameOf m).type = typeResult := by
    rw [display]
    decide
  have later := relayable.2
  rwa [if_neg other, if_pos display] at later

theorem length_show_ {pending : DisplayBuffer} {frame : Frame} (some_ : frame.text.getD [] ≠ []) :
    (show_ pending frame).text.length = pending.text.length + (frame.text.getD []).length + 1 := by
  unfold show_
  match shape : frame.text with
  | none => exact absurd (congrArg (·.getD []) shape) some_
  | some [] => exact absurd (congrArg (·.getD []) shape) some_
  | some (c :: more) =>
    simp only [List.length_append, List.length_cons, List.length_nil, Option.getD_some]

theorem longConversation_unrelayable : ¬ Relayable goJansson {} longConversation [] := by
  intro relayable
  have display : (frameOf longDisplay).type = typeDisplay := by decide
  have size : ((frameOf longDisplay).text.getD []).length = 8192 := by
    have shown : (frameOf longDisplay).text = some (toValid (List.replicate 8192 (ch 'a'))) := rfl
    rw [shown, toValid_replicate (by decide), Option.getD_some, List.length_replicate]
  have some_ : (frameOf longDisplay).text.getD [] ≠ [] := by
    intro empty
    rw [empty] at size
    cases size
  have left := relayable_display display (relayable_display display relayable)
  have fits := left.2
  rw [if_pos (by decide), length_show_ some_, length_show_ some_, size] at fits
  exact absurd fits (by decide)

/-- Frames of the daemon that the module does not read, or that it shows in part or not at all. -/
theorem conversation_not_relayed :
    Unrelayed nulConversation ∧ Unrelayed longConversation ∧ Unrelayed lastWords := by
  refine ⟨?_, ?_, ?_⟩
  · refine not_relayed (by decide) fun relayable => ?_
    exact absurd (relayable.1 .text) (by decide)
  · exact not_relayed longConversation_written longConversation_unrelayable
  · refine not_relayed (by decide) fun relayable => ?_
    have left : (show_ {} _).text = [] := relayable_display (by decide) relayable
    exact absurd left (by decide)

end HelixKit.SshAuth
