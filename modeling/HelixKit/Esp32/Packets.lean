/-
Purpose: Packets as JSON text and in arrays of a fixed size, and that building and parsing are
  inverse (`embedded/protocol/src/helix_protocol.c`).
Trusted boundary: allocations succeed; cJSON reads what it prints, and reads a byte of zero into a
  string only for an escape of it (`Cjson.Correct`)
Main exports: packets_carried
-/
import HelixKit.Esp32.MessageTransports
import HelixKit.Lib.GoString
import Mathlib.Algebra.Order.Ring.Rat
import Mathlib.Data.List.Find
import Mathlib.Data.List.TakeWhile

namespace HelixKit.Esp32.Packets

open HelixKit.WebSocketFrames (Bytes)
open MessageTransports (EspErr)
open GoJson (asciiBytes)

/-! ### Strings -/

/-- A C string: its bytes before the NUL. -/
structure CStr where
  chars : Bytes
  free : 0 ∉ chars
deriving DecidableEq

/-- The C string at the start of some bytes, which a NUL follows. -/
def cstr (bytes : Bytes) : CStr where
  chars := bytes.takeWhile (· ≠ 0)
  free := fun member => by simpa using List.mem_takeWhile_imp member

/-- An array of bytes with a C string in it. -/
structure Field (size : Nat) extends CStr where
  fits : chars.length < size
deriving DecidableEq

def serviceMaxBytes : Nat := 48
def methodMaxBytes : Nat := 80
def requestIdMaxBytes : Nat := 80

/-- `strlcpy` into an array, for a text that fits. -/
def copy (size : Nat) (value : CStr) : Except EspErr (Field size) :=
  if fits : value.chars.length < size then .ok { value with fits } else .error .invalidSize

def copy_required (size : Nat) (value : Option CStr) : Except EspErr (Field size) :=
  match value with
  | none => .error .invalidArg
  | some value => if value.chars = [] then .error .invalidArg else copy size value

def copy_optional (size : Nat) (positive : 0 < size) (value : Option CStr) :
    Except EspErr (Field size) :=
  match value with
  | none => .ok { chars := [], free := List.not_mem_nil, fits := positive }
  | some value =>
    if value.chars = [] then .ok { chars := [], free := List.not_mem_nil, fits := positive }
    else copy size value

/-! ### Items -/

/-- A `cJSON` item. A string has the bytes that were decoded into it, and is read as a C string. -/
inductive Item where
  | null
  | bool (value : Bool)
  | number (valuedouble : ℚ)
  | string (valuestring : Bytes)
  | array (items : List Item)
  | object (fields : List (Bytes × Item))

/-- The bytes of all strings and keys are those of a C string. -/
inductive NulFree : Item → Prop where
  | null : NulFree .null
  | bool (value : Bool) : NulFree (.bool value)
  | number (valuedouble : ℚ) : NulFree (.number valuedouble)
  | string {valuestring : Bytes} (free : 0 ∉ valuestring) : NulFree (.string valuestring)
  | array {items : List Item} (each : ∀ item ∈ items, NulFree item) : NulFree (.array items)
  | object {fields : List (Bytes × Item)} (keys : ∀ field ∈ fields, 0 ∉ field.1)
      (each : ∀ field ∈ fields, NulFree field.2) : NulFree (.object fields)

/-- What an object has under a key: the first of the members with this key. -/
def Item.member (item : Item) (key : Bytes) : Option Item :=
  match item with
  | .object fields => (fields.find? (·.1 = key)).map (·.2)
  | _ => none

def cJSON_GetObjectItemCaseSensitive (item : Item) (key : Bytes) : Option Item :=
  match item with
  | .object fields => (fields.find? fun field => (cstr field.1).chars = key).map (·.2)
  | _ => none

def json_string (root : Item) (key : Bytes) : Option CStr :=
  match cJSON_GetObjectItemCaseSensitive root key with
  | some (.string valuestring) => some (cstr valuestring)
  | _ => none

def duplicate_payload_or_empty (payload : Option Item) : Item :=
  match payload with
  | some (.object fields) => .object fields
  | _ => .object []

/-- `cJSON_Parse` and `cJSON_PrintUnformatted`. -/
structure Cjson where
  parse : CStr → Option Item
  print : Item → CStr

/-! ### Packets -/

structure Packet where
  request_id : Field requestIdMaxBytes
  service : Field serviceMaxBytes
  method : Field methodMaxBytes
  payload : Item

section Protocol

variable (lib : Cjson)

/-- The parser gets a copy of the text with a NUL after it. -/
def helix_protocol_parse_packet (json : Bytes) : Except EspErr Packet :=
  match lib.parse (cstr json) with
  | some (.object fields) =>
    let root := Item.object fields
    match cJSON_GetObjectItemCaseSensitive root (asciiBytes "message") with
    | some (.object members) => do
        let message := Item.object members
        let request_id ← copy_optional requestIdMaxBytes (by decide)
          (json_string root (asciiBytes "requestId"))
        let service ← copy_required serviceMaxBytes (json_string message (asciiBytes "service"))
        let method ← copy_required methodMaxBytes (json_string message (asciiBytes "method"))
        let payload := duplicate_payload_or_empty
          (cJSON_GetObjectItemCaseSensitive message (asciiBytes "payload"))
        return { request_id, service, method, payload }
    | _ => .error .invalidArg
  | _ => .error .invalidArg

/-- The item that is printed for a packet. -/
def packetItem (service method : CStr) (payload : Item) (request_id : Option CStr) : Item :=
  let message := Item.object
    [(asciiBytes "service", .string service.chars), (asciiBytes "method", .string method.chars),
      (asciiBytes "payload", payload)]
  match request_id with
  | some id =>
    if id.chars = [] then .object [(asciiBytes "message", message)]
    else .object [(asciiBytes "requestId", .string id.chars), (asciiBytes "message", message)]
  | none => .object [(asciiBytes "message", message)]

def helix_protocol_build_packet_json (service method : Option CStr) (payload : Option Item)
    (request_id : Option CStr) : Except EspErr CStr :=
  match service, method with
  | some service, some method =>
    if service.chars = [] ∨ method.chars = [] then .error .invalidArg
    else .ok (lib.print
      (packetItem service method (duplicate_payload_or_empty payload) request_id))
  | _, _ => .error .invalidArg

/-- The text of a packet. The request id may be a null pointer when it is empty. -/
def Packet.build (packet : Packet) (request_id : Option CStr) : Except EspErr CStr :=
  helix_protocol_build_packet_json lib (some packet.service.toCStr) (some packet.method.toCStr)
    (some packet.payload) request_id

end Protocol

/-- Is a NUL escaped somewhere in the text? A backslash takes the next byte with it. -/
def hasNulEscape : Bytes → Bool
  | [] => false
  | [_] => false
  | b :: c :: rest =>
    if b = 0x5C then
      (c = 0x75 && (asciiBytes "0000").isPrefixOf rest) || hasNulEscape rest
    else hasNulEscape (c :: rest)

example : hasNulEscape (asciiBytes "a\\u0000") = true ∧
    hasNulEscape (asciiBytes "a\\\\u0000") = false := by decide

/-- The library reads what it prints, of the items that it supports, and decodes a zero byte only
from an escape. -/
structure Cjson.Correct (lib : Cjson) (supported : Item → Prop) : Prop where
  reads : ∀ item, supported item → NulFree item → lib.parse (lib.print item) = some item
  strings : ∀ text item, hasNulEscape text.chars = false → lib.parse text = some item → NulFree item

/-- A packet that can be built: it has a service and a method, and its payload is an object. -/
structure Packet.Sent (packet : Packet) : Prop where
  service : packet.service.chars ≠ []
  method : packet.method.chars ≠ []
  object : ∃ fields, packet.payload = .object fields
  free : NulFree packet.payload

/-- A pointer to the request id of the packet. -/
def Packet.Names (packet : Packet) (request_id : Option CStr) : Prop :=
  match request_id with
  | some id => id = packet.request_id.toCStr
  | none => packet.request_id.chars = []

def Packet.item (packet : Packet) : Item :=
  packetItem packet.service.toCStr packet.method.toCStr packet.payload
    (some packet.request_id.toCStr)

/-- The packet has the members of the text: a request id and a payload, if they have the right type,
and the service and the method. -/
structure Carried (root message : Item) (packet : Packet) : Prop where
  nested : root.member (asciiBytes "message") = some message
  request_id : ∀ id, root.member (asciiBytes "requestId") = some (.string id) →
    packet.request_id.chars = id
  no_request_id : (∀ id, root.member (asciiBytes "requestId") ≠ some (.string id)) →
    packet.request_id.chars = []
  service : message.member (asciiBytes "service") = some (.string packet.service.chars)
  method : message.member (asciiBytes "method") = some (.string packet.method.chars)
  payload : ∀ fields, message.member (asciiBytes "payload") = some (.object fields) →
    packet.payload = .object fields
  no_payload : (∀ fields, message.member (asciiBytes "payload") ≠ some (.object fields)) →
    packet.payload = .object []

/-! ### Reading -/

theorem CStr.ext {left right : CStr} (same : left.chars = right.chars) : left = right := by
  cases left
  cases right
  cases same
  rfl

theorem Field.ext {size : Nat} {left right : Field size} (same : left.chars = right.chars) :
    left = right := by
  cases left with
  | mk left =>
    cases right with
    | mk right =>
      obtain rfl := CStr.ext same
      rfl

theorem cstr_free {bytes : Bytes} (free : 0 ∉ bytes) : (cstr bytes).chars = bytes := by
  refine List.takeWhile_eq_self_iff.2 fun b member => ?_
  rw [decide_eq_true_eq]
  rintro rfl
  exact free member

theorem cstr_chars (text : CStr) : cstr text.chars = text :=
  CStr.ext (cstr_free text.free)

theorem getObjectItem_eq {item : Item} (free : NulFree item) (key : Bytes) :
    cJSON_GetObjectItemCaseSensitive item key = item.member key := by
  cases free with
  | object keys each =>
    rename_i fields
    have same : ∀ field ∈ fields, ((cstr field.1).chars = key) = (field.1 = key) :=
      fun field member => by rw [cstr_free (keys field member)]
    have found : (fields.find? fun field => (cstr field.1).chars = key) =
        fields.find? (·.1 = key) := by
      refine List.find?_congr fun field member => ?_
      simp only [same field member]
    exact congrArg (Option.map (·.2)) found
  | _ => rfl

theorem NulFree.nil : NulFree (.object []) :=
  .object (fun _ member => nomatch member) fun _ member => nomatch member

theorem NulFree.cons {key : Bytes} {value : Item} {fields : List (Bytes × Item)} (own : 0 ∉ key)
    (free : NulFree value) (rest : NulFree (.object fields)) :
    NulFree (.object ((key, value) :: fields)) := by
  cases rest with
  | object keys each =>
    exact .object (List.forall_mem_cons.2 ⟨own, keys⟩) (List.forall_mem_cons.2 ⟨free, each⟩)

theorem NulFree.member {item found : Item} {key : Bytes} (free : NulFree item)
    (has : item.member key = some found) : NulFree found := by
  cases free with
  | object keys each =>
    obtain ⟨field, first, rfl⟩ := Option.map_eq_some_iff.1 has
    exact each field (List.mem_of_find?_eq_some first)
  | _ => cases has

theorem json_string_eq_some {root : Item} {key : Bytes} {value : CStr} (free : NulFree root) :
    json_string root key = some value ↔ root.member key = some (.string value.chars) := by
  unfold json_string
  rw [getObjectItem_eq free]
  constructor
  · intro read
    split at read
    next text found =>
      obtain ⟨own⟩ := NulFree.member free found
      obtain rfl := Option.some.inj read
      rw [found, cstr_free ‹_›]
    next => cases read
  · intro found
    rw [found]
    exact congrArg some (cstr_chars value)

theorem hasNulEscape_append (text more : Bytes) (escaped : hasNulEscape text = true) :
    hasNulEscape (text ++ more) = true := by
  fun_induction hasNulEscape text with
  | case1 => cases escaped
  | case2 => cases escaped
  | case3 c rest ih =>
    rw [Bool.or_eq_true] at escaped
    simp only [List.cons_append, hasNulEscape, if_true, Bool.or_eq_true]
    rcases escaped with here | later
    · refine .inl ?_
      rw [Bool.and_eq_true] at here ⊢
      refine ⟨here.1, List.isPrefixOf_iff_prefix.2 ?_⟩
      exact (List.isPrefixOf_iff_prefix.1 here.2).trans (List.prefix_append rest more)
    · exact .inr (ih later)
  | case4 b c rest other ih =>
    simp only [List.cons_append, hasNulEscape, if_neg other]
    exact ih escaped

/-- What comes after a NUL does not take an escape away. -/
theorem hasNulEscape_cstr {json : Bytes} (plain : hasNulEscape json = false) :
    hasNulEscape (cstr json).chars = false := by
  refine Bool.eq_false_iff.2 fun escaped => ?_
  have whole := hasNulEscape_append _ (json.dropWhile (· ≠ 0)) escaped
  rw [cstr, List.takeWhile_append_dropWhile, plain] at whole
  cases whole

/-! ### Copying -/

theorem copy_ok {size : Nat} {value : CStr} {field : Field size} :
    copy size value = .ok field ↔ value = field.toCStr := by
  unfold copy
  constructor
  · intro copied
    split at copied
    · cases copied
      rfl
    · cases copied
  · rintro rfl
    rw [dif_pos field.fits]

theorem copy_required_ok {size : Nat} {value : Option CStr} {field : Field size} :
    copy_required size value = .ok field ↔ value = some field.toCStr ∧ field.chars ≠ [] := by
  cases value with
  | none => simp [copy_required]
  | some value =>
    by_cases empty : value.chars = []
    · simp only [copy_required, if_pos empty, reduceCtorEq, Option.some.injEq, false_iff, not_and]
      rintro rfl given
      exact given empty
    · simp only [copy_required, if_neg empty, copy_ok, Option.some.injEq]
      exact ⟨fun same => ⟨same, same ▸ empty⟩, And.left⟩

theorem copy_optional_ok {size : Nat} {positive : 0 < size} {value : Option CStr}
    {field : Field size} :
    copy_optional size positive value = .ok field ↔
      (∀ text, value = some text → text = field.toCStr) ∧ (value = none → field.chars = []) := by
  have none_iff : Except.ok (ε := EspErr) (Field.mk ⟨[], List.not_mem_nil⟩ positive) = .ok field ↔
      field.chars = [] := by
    rw [Except.ok.injEq]
    exact ⟨fun same => same ▸ rfl, fun empty => Field.ext empty.symm⟩
  cases value with
  | none => simpa [copy_optional] using none_iff
  | some value =>
    by_cases empty : value.chars = []
    · simp only [copy_optional, if_pos empty, none_iff]
      constructor
      · intro same
        refine ⟨fun text given => ?_, nofun⟩
        obtain rfl := Option.some.inj given
        exact CStr.ext (empty.trans same.symm)
      · rintro ⟨same, -⟩
        rw [← same value rfl]
        exact empty
    · simp [copy_optional, empty, copy_ok]

/-- The payload is copied if it is an object, and else there is an empty one. -/
theorem duplicate_cases (payload : Option Item) :
    (∃ fields, payload = some (.object fields) ∧
        duplicate_payload_or_empty payload = .object fields) ∨
      (∀ fields, payload ≠ some (.object fields)) ∧
        duplicate_payload_or_empty payload = .object [] := by
  unfold duplicate_payload_or_empty
  split
  next fields => exact .inl ⟨fields, rfl, rfl⟩
  next other => exact .inr ⟨other, rfl⟩

/-! ### Round trips -/

section Correct

variable {lib : Cjson} {supported : Item → Prop}

variable {packet : Packet}

/-- When a text is accepted: what it is parsed into, and what was copied. -/
theorem parse_packet_ok {json : Bytes} :
    helix_protocol_parse_packet lib json = .ok packet ↔
      ∃ fields members, lib.parse (cstr json) = some (.object fields) ∧
        cJSON_GetObjectItemCaseSensitive (.object fields) (asciiBytes "message") =
          some (.object members) ∧
        copy_optional requestIdMaxBytes (by decide)
          (json_string (.object fields) (asciiBytes "requestId")) = .ok packet.request_id ∧
        copy_required serviceMaxBytes (json_string (.object members) (asciiBytes "service")) =
          .ok packet.service ∧
        copy_required methodMaxBytes (json_string (.object members) (asciiBytes "method")) =
          .ok packet.method ∧
        packet.payload = duplicate_payload_or_empty
          (cJSON_GetObjectItemCaseSensitive (.object members) (asciiBytes "payload")) := by
  unfold helix_protocol_parse_packet
  constructor
  · intro accepted
    split at accepted
    next fields parsed =>
      dsimp only at accepted
      split at accepted
      next members nested =>
        cases id : copy_optional requestIdMaxBytes (by decide)
            (json_string (.object fields) (asciiBytes "requestId")) with
        | error err =>
          rw [id] at accepted
          cases accepted
        | ok request_id =>
          rw [id] at accepted
          cases named : copy_required serviceMaxBytes
              (json_string (.object members) (asciiBytes "service")) with
          | error err =>
            simp only [bind, Except.bind, named] at accepted
            cases accepted
          | ok service =>
            cases called : copy_required methodMaxBytes
                (json_string (.object members) (asciiBytes "method")) with
            | error err =>
              simp only [bind, Except.bind, named, called] at accepted
              cases accepted
            | ok method =>
              simp only [bind, Except.bind, named, called] at accepted
              cases accepted
              exact ⟨fields, members, parsed, nested, id, named, called, rfl⟩
      next => cases accepted
    next => cases accepted
  · rintro ⟨fields, members, parsed, nested, id, named, called, payload⟩
    rw [parsed]
    dsimp only
    rw [nested]
    dsimp only
    rw [id, named, called, ← payload]
    rfl

/-- What is accepted has the members of the text, and can be built. -/
theorem accepted_carried (correct : lib.Correct supported) {json : Bytes}
    (plain : hasNulEscape json = false)
    (accepted : helix_protocol_parse_packet lib json = .ok packet) :
    (∃ root message, lib.parse (cstr json) = some root ∧ Carried root message packet) ∧
      packet.Sent := by
  obtain ⟨fields, members, parsed, nested, id, named, called, payload⟩ :=
    parse_packet_ok.1 accepted
  have root := correct.strings _ _ (hasNulEscape_cstr plain) parsed
  rw [getObjectItem_eq root] at nested
  have message := root.member nested
  rw [getObjectItem_eq message] at payload
  obtain ⟨given, missing⟩ := copy_optional_ok.1 id
  obtain ⟨service, named⟩ := copy_required_ok.1 named
  obtain ⟨method, called⟩ := copy_required_ok.1 called
  rw [json_string_eq_some message] at service method
  have own : Carried (.object fields) (.object members) packet := by
    refine ⟨nested, fun text has => ?_, fun hasNone => ?_, service, method, fun inner has => ?_,
      fun hasNone => ?_⟩
    · cases root.member has with
      | string free =>
        have read : json_string (.object fields) (asciiBytes "requestId") = some ⟨text, free⟩ :=
          (json_string_eq_some root).2 has
        exact (congrArg CStr.chars (given _ read)).symm
    · refine missing (Option.eq_none_iff_forall_ne_some.2 fun text read => ?_)
      exact hasNone _ ((json_string_eq_some root).1 read)
    · rw [payload, has]
      rfl
    · rcases duplicate_cases ((Item.object members).member (asciiBytes "payload")) with
        ⟨inner, has, -⟩ | ⟨-, empty⟩
      · exact absurd has (hasNone inner)
      · exact payload.trans empty
  have whole : (∃ inner, packet.payload = .object inner) ∧ NulFree packet.payload := by
    rcases duplicate_cases ((Item.object members).member (asciiBytes "payload")) with
      ⟨inner, has, same⟩ | ⟨-, same⟩
    · rw [payload, same]
      exact ⟨⟨inner, rfl⟩, message.member has⟩
    · rw [payload, same]
      exact ⟨⟨[], rfl⟩, .nil⟩
  exact ⟨⟨.object fields, .object members, parsed, own⟩, named, called, whole.1, whole.2⟩

theorem packetItem_names {request_id : Option CStr} (names : packet.Names request_id) :
    packetItem packet.service.toCStr packet.method.toCStr packet.payload request_id =
      packet.item := by
  cases request_id with
  | none =>
    have empty : packet.request_id.chars = [] := names
    simp [Packet.item, packetItem, empty]
  | some id =>
    obtain rfl : id = packet.request_id.toCStr := names
    rfl

/-- The members of the text of a packet. -/
theorem item_members (packet : Packet) :
    ∃ fields members, packet.item = .object fields ∧
      packet.item.member (asciiBytes "message") = some (.object members) ∧
      packet.item.member (asciiBytes "requestId") =
        (if packet.request_id.chars = [] then none else some (.string packet.request_id.chars)) ∧
      (Item.object members).member (asciiBytes "service") =
        some (.string packet.service.chars) ∧
      (Item.object members).member (asciiBytes "method") = some (.string packet.method.chars) ∧
      (Item.object members).member (asciiBytes "payload") = some packet.payload := by
  by_cases empty : packet.request_id.chars = []
  · have item : packet.item = .object [(asciiBytes "message", .object
        [(asciiBytes "service", .string packet.service.chars),
          (asciiBytes "method", .string packet.method.chars),
          (asciiBytes "payload", packet.payload)])] := by
      simp only [Packet.item, packetItem, if_pos empty]
    rw [item, if_pos empty]
    exact ⟨_, _, rfl, rfl, rfl, rfl, rfl, rfl⟩
  · have item : packet.item = .object
        [(asciiBytes "requestId", .string packet.request_id.chars), (asciiBytes "message", .object
          [(asciiBytes "service", .string packet.service.chars),
            (asciiBytes "method", .string packet.method.chars),
            (asciiBytes "payload", packet.payload)])] := by
      simp only [Packet.item, packetItem, if_neg empty]
    rw [item, if_neg empty]
    exact ⟨_, _, rfl, rfl, rfl, rfl, rfl, rfl⟩

theorem Packet.Sent.item_free (sent : packet.Sent) : NulFree packet.item := by
  have message : NulFree (.object
      [(asciiBytes "service", .string packet.service.chars),
        (asciiBytes "method", .string packet.method.chars),
        (asciiBytes "payload", packet.payload)]) := by
    exact .cons (by decide) (.string packet.service.free)
      (.cons (by decide) (.string packet.method.free) (.cons (by decide) sent.free .nil))
  unfold Packet.item packetItem
  dsimp only
  split
  · exact .cons (by decide) message .nil
  · exact .cons (by decide) (.string packet.request_id.free) (.cons (by decide) message .nil)

/-- A packet that can be built is parsed from its text. -/
theorem Packet.Sent.parse_build (sent : packet.Sent)
    (correct : lib.Correct supported) (printed : supported packet.item)
    {request_id : Option CStr} (names : packet.Names request_id) :
    ∃ text, packet.build lib request_id = .ok text ∧
      helix_protocol_parse_packet lib text.chars = .ok packet := by
  obtain ⟨inner, object⟩ := sent.object
  have same : duplicate_payload_or_empty (some packet.payload) = packet.payload := by
    rw [object]
    rfl
  refine ⟨lib.print packet.item, ?_, ?_⟩
  · unfold Packet.build helix_protocol_build_packet_json
    dsimp only
    rw [if_neg (not_or.2 ⟨sent.service, sent.method⟩), same, packetItem_names names]
  · have free := sent.item_free
    have read := correct.reads _ printed free
    obtain ⟨fields, members, item, nested, id, service, method, payload⟩ := item_members packet
    rw [item] at read nested id free
    have message := free.member nested
    refine parse_packet_ok.2 ⟨fields, members, ?_, ?_, ?_, ?_, ?_, ?_⟩
    · rw [cstr_chars, item, read]
    · rw [getObjectItem_eq free, nested]
    · refine copy_optional_ok.2 ⟨fun text has => ?_, fun hasNone => ?_⟩
      · rw [json_string_eq_some free, id] at has
        split at has
        · cases has
        · exact CStr.ext (Item.string.inj (Option.some.inj has)).symm
      · by_contra given
        have has : json_string (.object fields) (asciiBytes "requestId") =
            some packet.request_id.toCStr := by
          rw [json_string_eq_some free, id, if_neg given]
        rw [hasNone] at has
        cases has
    · exact copy_required_ok.2 ⟨(json_string_eq_some message).2 service, sent.service⟩
    · exact copy_required_ok.2 ⟨(json_string_eq_some message).2 method, sent.method⟩
    · rw [getObjectItem_eq message, payload, same]

/-- A packet is parsed from the text that is built for it; and what is parsed from a text has the
members of the text, and is parsed again from the text that is built for it. -/
theorem packets_carried (correct : lib.Correct supported) :
    (∀ packet : Packet, packet.Sent → supported packet.item →
      ∀ request_id, packet.Names request_id →
        ∃ text, packet.build lib request_id = .ok text ∧
          helix_protocol_parse_packet lib text.chars = .ok packet) ∧
    ∀ (json : Bytes) (packet : Packet), hasNulEscape json = false →
      helix_protocol_parse_packet lib json = .ok packet →
        (∃ root message, lib.parse (cstr json) = some root ∧ Carried root message packet) ∧
          (supported packet.item →
            ∃ text, packet.build lib (some packet.request_id.toCStr) = .ok text ∧
              helix_protocol_parse_packet lib text.chars = .ok packet) := by
  refine ⟨fun packet sent printed request_id names => sent.parse_build correct printed names, ?_⟩
  intro json packet plain accepted
  obtain ⟨carried, sent⟩ := accepted_carried correct plain accepted
  exact ⟨carried, fun printed => sent.parse_build correct printed rfl⟩

end Correct

/-! ### A number for a request id -/

def numberedText : Bytes :=
  asciiBytes "\x7b\"requestId\":5,\"message\":\x7b\"service\":\"a\",\"method\":\"b\"\x7d\x7d"

def numbered : Item :=
  .object [(asciiBytes "requestId", .number 5), (asciiBytes "message", .object
    [(asciiBytes "service", .string (asciiBytes "a")),
      (asciiBytes "method", .string (asciiBytes "b"))])]

def plainText : Bytes :=
  asciiBytes "\x7b\"message\":\x7b\"service\":\"a\",\"method\":\"b\",\"payload\":\x7b\x7d\x7d\x7d"

def plainPacket : Packet where
  request_id := ⟨⟨[], by decide⟩, by decide⟩
  service := ⟨⟨asciiBytes "a", by decide⟩, by decide⟩
  method := ⟨⟨asciiBytes "b", by decide⟩, by decide⟩
  payload := .object []

/-- The library on these two texts, and on the item of the packet. -/
def tiny : Cjson where
  parse text :=
    if text.chars = numberedText then some numbered
    else if text.chars = plainText then some plainPacket.item
    else none
  print _ := ⟨plainText, by decide⟩

theorem tiny_correct : tiny.Correct (· = plainPacket.item) where
  reads := by
    rintro _ rfl _
    rfl
  strings := by
    intro text item _ parsed
    simp only [tiny] at parsed
    split at parsed
    · cases parsed
      exact .cons (by decide) (.number 5) (.cons (by decide) (.cons (by decide)
        (.string (by decide)) (.cons (by decide) (.string (by decide)) .nil)) .nil)
    split at parsed
    · cases parsed
      exact Packet.Sent.item_free ⟨by decide, by decide, ⟨[], rfl⟩, .nil⟩
    · cases parsed

theorem numbered_accepted : helix_protocol_parse_packet tiny numberedText = .ok plainPacket := by
  refine parse_packet_ok.2 ⟨_, _, rfl, rfl, ?_, ?_, ?_, rfl⟩
  · rfl
  · exact copy_required_ok.2 ⟨rfl, by decide⟩
  · exact copy_required_ok.2 ⟨rfl, by decide⟩

theorem packets_carried_tiny :
    (∃ text, plainPacket.build tiny none = .ok text ∧
        helix_protocol_parse_packet tiny text.chars = .ok plainPacket) ∧
      ∃ root message, tiny.parse (cstr numberedText) = some root ∧
        Carried root message plainPacket :=
  ⟨(packets_carried tiny_correct).1 plainPacket ⟨by decide, by decide, ⟨[], rfl⟩, .nil⟩ rfl none
      rfl,
    ((packets_carried tiny_correct).2 numberedText plainPacket (by decide)
      numbered_accepted).1⟩

/-- A text is accepted although its request id is a number, and the packet has none. -/
theorem id_ignored :
    tiny.Correct (· = plainPacket.item) ∧
      ¬ ∀ (json : Bytes) (packet : Packet), hasNulEscape json = false →
        helix_protocol_parse_packet tiny json = .ok packet →
          ∃ root, tiny.parse (cstr json) = some root ∧
            ∀ id, root.member (asciiBytes "requestId") = some id →
              id = .string packet.request_id.chars := by
  refine ⟨tiny_correct, fun all => ?_⟩
  obtain ⟨root, parsed, same⟩ := all numberedText plainPacket (by decide) numbered_accepted
  have read : tiny.parse (cstr numberedText) = some numbered := rfl
  obtain rfl := Option.some.inj (read.symm.trans parsed)
  cases same (.number 5) rfl

end HelixKit.Esp32.Packets
