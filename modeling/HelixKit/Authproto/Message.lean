/-
Purpose: The messages between the PAM module and `helix-authd`, and how they are written as JSON
  and read.
Trusted boundary: none
-/
import HelixKit.Lib.GoJson
import Mathlib.Algebra.GroupWithZero.Nat
import Mathlib.Algebra.Ring.Int.Defs

namespace HelixKit.Authproto

open HelixKit.GoJson

/-! ## Messages -/

/-- One frame. Texts are bytes, as in Go. -/
structure Message where
  version : Int := 0
  type : Bytes := []
  requestID : Bytes := []
  username : Bytes := []
  pamService : Bytes := []
  rhost : Bytes := []
  level : Bytes := []
  text : Bytes := []
  promptID : Bytes := []
  secret : Bool := false
  value : Bytes := []
  status : Bytes := []
  reason : Bytes := []
deriving Repr, DecidableEq

/-- The fields that are texts. -/
inductive Field where
  | type
  | requestID
  | username
  | pamService
  | rhost
  | level
  | text
  | promptID
  | value
  | status
  | reason
deriving Repr, DecidableEq

def Field.name : Field → String
  | .type => "type"
  | .requestID => "request_id"
  | .username => "username"
  | .pamService => "pam_service"
  | .rhost => "rhost"
  | .level => "level"
  | .text => "text"
  | .promptID => "prompt_id"
  | .value => "value"
  | .status => "status"
  | .reason => "reason"

namespace Message

def get (m : Message) : Field → Bytes
  | .type => m.type
  | .requestID => m.requestID
  | .username => m.username
  | .pamService => m.pamService
  | .rhost => m.rhost
  | .level => m.level
  | .text => m.text
  | .promptID => m.promptID
  | .value => m.value
  | .status => m.status
  | .reason => m.reason

def set (m : Message) (x : Bytes) : Field → Message
  | .type => { m with type := x }
  | .requestID => { m with requestID := x }
  | .username => { m with username := x }
  | .pamService => { m with pamService := x }
  | .rhost => { m with rhost := x }
  | .level => { m with level := x }
  | .text => { m with text := x }
  | .promptID => { m with promptID := x }
  | .value => { m with value := x }
  | .status => { m with status := x }
  | .reason => { m with reason := x }

theorem set_empty {m : Message} {field : Field} (empty : m.get field = []) :
    m.set [] field = m := by
  cases m
  cases field <;> simp_all [get, set]

theorem get_set_ne {m : Message} {x : Bytes} {field other : Field} (apart : other ≠ field) :
    (m.set x field).get other = m.get other := by
  cases field <;> cases other <;> first | rfl | exact absurd rfl apart

end Message

/-! ## Writing -/

/-- A text, left out when it is empty. -/
def textMember (m : Message) (field : Field) : List (Bytes × Bytes) :=
  if m.get field = [] then [] else [(asciiBytes field.name, quote (m.get field))]

def secretMember (m : Message) : List (Bytes × Bytes) :=
  if m.secret then [(asciiBytes "secret", asciiBytes "true")] else []

/-- The texts before `secret`, and after it, that may be left out. -/
def fieldsBefore : List Field := [.requestID, .username, .pamService, .rhost, .level, .text, .promptID]
def fieldsAfter : List Field := [.value, .status, .reason]

/-- `json.Marshal` -/
def Message.marshal (m : Message) : Bytes :=
  objectText (asciiBytes "version", asciiBytes (toString m.version))
    ((asciiBytes "type", quote m.type) :: (fieldsBefore.flatMap (textMember m) ++ secretMember m ++
      fieldsAfter.flatMap (textMember m)))

/-! ## Reading -/

inductive Key where
  | version
  | secret
  | text (field : Field)
deriving Repr, DecidableEq

def Key.name : Key → String
  | .version => "version"
  | .secret => "secret"
  | .text field => field.name

def keys : List Key :=
  [.version, .text .type] ++ fieldsBefore.map .text ++ [.secret] ++ fieldsAfter.map .text

/-- `foldRune`: the letters that are alike but for their case. Only two characters that are not
ASCII are alike to one that is, the long s and the Kelvin sign. -/
def foldRune : Rune → Rune
  | .ascii b => .ascii (if ch 'a' ≤ b ∧ b ≤ ch 'z' then b - 0x20 else b)
  | .wide bytes =>
    if bytes = [0xC5, 0xBF] then .ascii (ch 'S')
    else if bytes = [0xE2, 0x84, 0xAA] then .ascii (ch 'K')
    else .wide bytes
  | .invalid => .invalid

/-- `foldName` -/
def foldName (key : Bytes) : List Rune := (runes key).map foldRune

def findKey (key : Bytes) : Option Key :=
  keys.find? fun known => foldName (asciiBytes known.name) = foldName key

/-- `strconv.ParseInt`, of a number as JSON has them. -/
def parseInt (text : Bytes) : Option Int :=
  let negative : Bool := text.head? = some (ch '-')
  let digits := if negative then text.tail else text
  if digits = [] ∨ ¬ digits.all isDigit then none
  else
    let n : Int := digits.foldl (fun n b => 10 * n + (b.toNat - 0x30)) 0
    let n := if negative then -n else n
    if -2 ^ 63 ≤ n ∧ n < 2 ^ 63 then some n else none

/-- One member of the object. `null` leaves the field as it is, and another type is an error. -/
def assign (m : Message) (item : Bytes × Json) : Option Message :=
  match findKey item.1 with
  | none => some m
  | some .version =>
    match item.2 with
    | .null => some m
    | .number text => (parseInt text).map fun version => { m with version }
    | _ => none
  | some .secret =>
    match item.2 with
    | .null => some m
    | .bool secret => some { m with secret }
    | _ => none
  | some (.text field) =>
    match item.2 with
    | .null => some m
    | .string text => some (m.set text field)
    | _ => none

/-- `json.Unmarshal` into a new message. -/
def unmarshal (line : Bytes) : Option Message :=
  match parse line with
  | some .null => some {}
  | some (.object items) => items.foldlM assign {}
  | _ => none

/-! ## Validation -/

/-- `Version` -/
def currentVersion : Int := 1

def typeStart : Bytes := asciiBytes "start"
def typeDisplay : Bytes := asciiBytes "display"
def typePrompt : Bytes := asciiBytes "prompt"
def typePromptResponse : Bytes := asciiBytes "prompt_response"
def typeResult : Bytes := asciiBytes "result"

/-- `ErrBadVersion`, or `ErrMalformed` with what is wrong. -/
inductive Invalid where
  | badVersion (version : Int)
  /-- `start without username` -/
  | noUsername
  /-- `prompt_response without prompt_id` -/
  | noPromptID
  /-- `unknown type %q` -/
  | unknownType (type : Bytes)
deriving Repr, DecidableEq

def Message.validate (m : Message) : Except Invalid Unit :=
  if m.version ≠ currentVersion then .error (.badVersion m.version)
  else if m.type = typeStart then if m.username = [] then .error .noUsername else .ok ()
  else if m.type = typePromptResponse then
    if m.promptID = [] then .error .noPromptID else .ok ()
  else if m.type = typeDisplay ∨ m.type = typePrompt ∨ m.type = typeResult then .ok ()
  else .error (.unknownType m.type)

/-! ## What is written is read -/

/-- Every text is valid UTF-8. -/
def Message.Valid (m : Message) : Prop := ∀ field, GoJson.Valid (m.get field)

/-- The message with the bytes of its texts replaced that are no character. -/
def Message.clean (m : Message) : Message :=
  { version := m.version, type := toValid m.type, requestID := toValid m.requestID,
    username := toValid m.username, pamService := toValid m.pamService, rhost := toValid m.rhost,
    level := toValid m.level, text := toValid m.text, promptID := toValid m.promptID,
    secret := m.secret, value := toValid m.value, status := toValid m.status,
    reason := toValid m.reason }

theorem Message.get_clean (m : Message) (field : Field) :
    m.clean.get field = toValid (m.get field) := by
  cases field <;> rfl

theorem Message.clean_of_valid {m : Message} (valid : m.Valid) : m.clean = m := by
  have same : ∀ field, m.clean.get field = m.get field := by
    intro field
    rw [Message.get_clean, toValid_of_valid (valid field)]
  have texts := And.intro (same .type) (And.intro (same .requestID) (And.intro (same .username)
    (And.intro (same .pamService) (And.intro (same .rhost) (And.intro (same .level)
      (And.intro (same .text) (And.intro (same .promptID) (And.intro (same .value)
        (And.intro (same .status) (same .reason))))))))))
  cases m
  simpa [Message.get, Message.clean] using texts

variable {m : Message}

theorem valid_name (field : Field) : GoJson.Valid (asciiBytes field.name) := by
  cases field <;> decide

theorem findKey_name (field : Field) : findKey (asciiBytes field.name) = some (.text field) := by
  cases field <;> decide

/-- The member of a text, as it is written and read. -/
def textItem (m : Message) (field : Field) : List Member :=
  if m.get field = [] then []
  else [⟨asciiBytes field.name, quote (m.get field), .string (toValid (m.get field)),
    valid_name field, writes_string (m.get field)⟩]

theorem written_textItem (field : Field) :
    (textItem m field).map Member.written = textMember m field := by
  unfold textItem textMember
  split <;> rfl

theorem assign_textItem {field : Field} {start : Message} (empty : start.get field = []) :
    ((textItem m field).map Member.read).foldlM assign start =
      some (start.set (m.clean.get field) field) := by
  rw [Message.get_clean]
  unfold textItem
  split
  next same =>
    have nothing : toValid ([] : Bytes) = [] := rfl
    rw [same, nothing, Message.set_empty empty]
    rfl
  · simp [Member.read, assign, findKey_name]

/-- The members of several texts. -/
theorem assign_textItems {fields : List Field} {start : Message}
    (distinct : fields.Nodup) (empty : ∀ field ∈ fields, start.get field = []) :
    ((fields.flatMap (textItem m)).map Member.read).foldlM assign start =
      some (fields.foldl (fun start field => start.set (m.clean.get field) field) start) := by
  induction fields generalizing start with
  | nil => rfl
  | cons field rest ih =>
    obtain ⟨fresh, distinctRest⟩ := List.nodup_cons.mp distinct
    rw [List.flatMap_cons, List.map_append, List.foldlM_append,
      assign_textItem (empty field List.mem_cons_self), Option.bind_eq_bind,
      Option.bind_some, ih distinctRest, List.foldl_cons]
    intro other member
    have apart : other ≠ field := fun same => fresh (same ▸ member)
    rw [Message.get_set_ne apart]
    exact empty other (List.mem_cons_of_mem field member)

def versionItem : Member :=
  ⟨asciiBytes "version", [ch '1'], .number [ch '1'], by decide, writes_one⟩

def typeItem (m : Message) : Member :=
  ⟨asciiBytes "type", quote m.type, .string (toValid m.type), by decide, writes_string m.type⟩

def secretItem (m : Message) : List Member :=
  if m.secret then [⟨asciiBytes "secret", asciiBytes "true", .bool true, by decide, writes_true⟩]
  else []

theorem written_secretItem : (secretItem m).map Member.written = secretMember m := by
  unfold secretItem secretMember
  split <;> rfl

theorem assign_secretItem {start : Message} (unset : start.secret = false) :
    ((secretItem m).map Member.read).foldlM assign start = some { start with secret := m.secret } := by
  have known : findKey (asciiBytes "secret") = some .secret := by decide
  unfold secretItem
  cases secret : m.secret with
  | true => simp [Member.read, assign, known]
  | false =>
    cases start
    cases unset
    rfl

theorem flatMap_written (fields : List Field) :
    (fields.flatMap (textItem m)).map Member.written = fields.flatMap (textMember m) := by
  induction fields with
  | nil => rfl
  | cons field rest ih =>
    rw [List.flatMap_cons, List.flatMap_cons, List.map_append, written_textItem, ih]

/-- The members of a message after its version. -/
def items (m : Message) : List Member :=
  typeItem m :: (fieldsBefore.flatMap (textItem m) ++ secretItem m ++
    fieldsAfter.flatMap (textItem m))

theorem marshal_eq (current : m.version = currentVersion) :
    m.marshal = objectText versionItem.written ((items m).map Member.written) := by
  have one : asciiBytes (toString m.version) = [ch '1'] := by
    rw [current]
    decide
  rw [Message.marshal, one, items, List.map_cons, List.map_append, List.map_append,
    flatMap_written, flatMap_written, written_secretItem]
  rfl

/-- What a message of this version reads as. -/
theorem parse_marshal (current : m.version = currentVersion) {space : Bytes}
    (blank : ∀ b ∈ space, isSpace b = true) :
    parse (m.marshal ++ space) =
      some (.object (versionItem.read :: (items m).map Member.read)) := by
  rw [marshal_eq current, parse_object versionItem (items m) blank]

theorem assign_items (current : m.version = currentVersion) :
    (versionItem.read :: (items m).map Member.read).foldlM assign {} = some m.clean := by
  have versionKey : findKey (asciiBytes "version") = some .version := by decide
  have typeKey : findKey (asciiBytes "type") = some (.text .type) := by decide
  have one : parseInt [ch '1'] = some 1 := by decide
  have first : assign {} versionItem.read = some { version := 1 } := by
    simp [assign, versionItem, Member.read, versionKey, one]
  have second : assign { version := 1 } (typeItem m).read =
      some { version := 1, type := m.clean.type } := by
    simp [assign, typeItem, Member.read, typeKey, Message.set, Message.clean]
  have before : ((fieldsBefore.flatMap (textItem m)).map Member.read).foldlM assign
      { version := 1, type := m.clean.type } =
        some
          { m.clean with version := 1, secret := false, value := [], status := [], reason := [] } :=
    assign_textItems (by decide) (by simp [fieldsBefore, Message.get])
  have secret : ((secretItem m).map Member.read).foldlM assign
      { m.clean with version := 1, secret := false, value := [], status := [], reason := [] } =
        some { m.clean with version := 1, value := [], status := [], reason := [] } :=
    assign_secretItem rfl
  have after : ((fieldsAfter.flatMap (textItem m)).map Member.read).foldlM assign
      { m.clean with version := 1, value := [], status := [], reason := [] } =
        some { m.clean with version := 1 } :=
    assign_textItems (by decide) (by simp [fieldsAfter, Message.get])
  have whole : { m.clean with version := 1 } = m.clean := by
    unfold Message.clean
    rw [current]
    rfl
  simp only [items, List.map_cons, List.map_append, List.foldlM_cons, List.foldlM_append, first,
    second, before, secret, after, whole, Option.bind_eq_bind, Option.bind_some]

/-- A message of this version is read as it was written, but for bytes that are no character. -/
theorem unmarshal_marshal (current : m.version = currentVersion) :
    unmarshal (m.marshal ++ [ch '\n']) = some m.clean := by
  have blank : ∀ b ∈ [ch '\n'], isSpace b = true := by
    intro b member
    rw [List.mem_singleton.mp member]
    rfl
  rw [unmarshal, parse_marshal current blank]
  exact assign_items current

theorem marshal_printable (current : m.version = currentVersion) {c : UInt8}
    (member : c ∈ m.marshal) : 0x20 ≤ c := by
  have one : asciiBytes (toString m.version) = [ch '1'] := by
    rw [current]
    decide
  have texts : ∀ fields : List Field, ∀ item ∈ fields.flatMap (textMember m), ∀ c ∈ item.2,
      0x20 ≤ c := by
    intro fields item member c inItem
    obtain ⟨field, -, inField⟩ := List.mem_flatMap.mp member
    unfold textMember at inField
    split at inField
    · cases inField
    · rw [List.mem_singleton.mp inField] at inItem
      exact quote_printable inItem
  apply objectText_printable _ member
  intro item inList c inItem
  rcases List.mem_cons.mp inList with rfl | inList
  · rw [one] at inItem
    rw [List.mem_singleton.mp inItem]
    decide
  · rcases List.mem_cons.mp inList with rfl | inList
    · exact quote_printable inItem
    · rcases List.mem_append.mp inList with inFront | inAfter
      · rcases List.mem_append.mp inFront with inBefore | inSecret
        · exact texts fieldsBefore item inBefore c inItem
        · unfold secretMember at inSecret
          split at inSecret
          · rw [List.mem_singleton.mp inSecret] at inItem
            exact printable_of_all (by decide) inItem
          · cases inSecret
      · exact texts fieldsAfter item inAfter c inItem

end HelixKit.Authproto
