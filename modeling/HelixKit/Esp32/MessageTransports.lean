/-
Purpose: The transports of the device whose peers send messages, MQTT, BLE and WebSocket: what they
  hand to the application and what they send.
Trusted boundary: the clients and servers of ESP-IDF, as far as the parameters say what they do
Main exports: messages_whole
-/
import HelixKit.Lib.WebSocketFrames

namespace HelixKit.Esp32.MessageTransports

open HelixKit.WebSocketFrames

/-! ## Packets -/

/-- The `esp_err_t` values other than `ESP_OK`. -/
inductive EspErr where
  | noMem
  | invalidArg
  | invalidSize
  | invalidState
  | notSupported
  | fail
  | other (code : Int)
deriving Repr, DecidableEq

variable {Packet : Type}

/-- `helix_protocol_parse_packet`, and the handler that the application has for packets. -/
structure App (Packet : Type) where
  parse : Bytes → Except EspErr Packet
  onPacket : Packet → Except EspErr Unit

/-- The texts that were parsed, the packets handed over, and how it ended. -/
structure Seen (Packet : Type) where
  parsed : List Bytes := []
  handed : List Packet := []
  result : Except EspErr Unit := .ok ()

/-- A text is parsed, and its packet handed over. -/
def dispatch (app : App Packet) (text : Bytes) : Seen Packet :=
  match app.parse text with
  | .error err => { parsed := [text], result := .error err }
  | .ok packet => { parsed := [text], handed := [packet], result := app.onPacket packet }

/-- The packets that texts are. -/
def packets (app : App Packet) (texts : List Bytes) : List Packet :=
  texts.filterMap fun text => (app.parse text).toOption

theorem dispatch_spec (app : App Packet) (text : Bytes) :
    (dispatch app text).parsed = [text] ∧ (dispatch app text).handed = packets app [text] := by
  unfold dispatch packets
  cases parsed : app.parse text <;> simp [parsed, Except.toOption]

/-! ## MQTT -/

/-- `MQTT_EVENT_DATA` -/
structure DataEvent where
  data : Option Bytes
deriving Repr, DecidableEq

def mqttEventHandler (app : App Packet) (event : DataEvent) : Seen Packet :=
  match event.data with
  | none => {}
  | some data => dispatch app data

/-- A message, and the pieces that the client cuts it into if it does not fit the buffer. -/
structure MqttMessage (bufferSize : Nat) where
  text : Bytes
  pieces : List Bytes
  whole : pieces.flatten = text
  some_ : pieces ≠ []
  cut : pieces.length = 1 ↔ text.length ≤ bufferSize

/-- The events of a message. -/
def MqttMessage.events {bufferSize : Nat} (message : MqttMessage bufferSize) : List DataEvent :=
  message.pieces.map fun piece => { data := some piece }

def mqttReceive (app : App Packet) (events : List DataEvent) : List (Seen Packet) :=
  events.map (mqttEventHandler app)

/-- `publish_to_topic`, when the client and the topic are there, with what goes on the wire.
`publish` is what `esp_mqtt_client_publish` returns for the text. -/
def publishToTopic (publish : Int) (json : Bytes) : Except EspErr Unit × List Bytes :=
  if publish < 0 then (.error .fail, []) else (.ok (), [json])

/-! ## BLE -/

/-- `helix_ble_profile_config_t`, where 0 stands for the default. -/
structure BleConfig where
  maxCommandBytes : Nat := 0
  maxNotifyBytes : Nat := 0
deriving Repr, DecidableEq

def bleDefaultCommandMaxBytes : Nat := 768
def bleDefaultNotifyMaxBytes : Nat := 480

def BleConfig.commandLimit (config : BleConfig) : Nat :=
  if 0 < config.maxCommandBytes then config.maxCommandBytes else bleDefaultCommandMaxBytes

def BleConfig.notifyLimit (config : BleConfig) : Nat :=
  if 0 < config.maxNotifyBytes then config.maxNotifyBytes else bleDefaultNotifyMaxBytes

inductive AttErr where
  | invalidAttrValueLen
deriving Repr, DecidableEq

def appendMbufFlat (om : Bytes) (outLen : Nat) : Except AttErr Bytes :=
  if om.length = 0 ∨ outLen ≤ om.length then .error .invalidAttrValueLen
  else .ok (om.take (outLen - 1))

def handleCommandWrite (app : App Packet) (config : BleConfig) (om : Bytes) : Seen Packet :=
  match appendMbufFlat om config.commandLimit with
  | .error _ => {}
  | .ok payload => dispatch app payload

/-- The state of the link, and what the host makes of a notification. -/
structure BleLink where
  connected : Bool
  notifyEnabled : Bool
  buffers : Bool
  notified : Bool
deriving Repr, DecidableEq

def notifyPacketJson (config : BleConfig) (link : BleLink) (json : Bytes) :
    Except EspErr Unit × List Bytes :=
  if !link.notifyEnabled || !link.connected then (.error .invalidState, [])
  else
    let len := min json.length config.notifyLimit
    if !link.buffers then (.error .noMem, [])
    else if link.notified then (.ok (), [json.take len]) else (.error .fail, [])

/-! ## WebSocket -/

def websocketDefaultFrameBytes : Nat := 4096

/-- `max_frame_bytes`, where 0 is configured for the default. -/
def frameLimit (frameBytes : Nat) : Nat :=
  if 0 < frameBytes then frameBytes else websocketDefaultFrameBytes

def opContinuation : Fin 16 := 0
def opText : Fin 16 := 1
def opClose : Fin 16 := 8

/-- `dispatch_websocket_text` -/
def dispatchWebsocketText (app : App Packet) (json : Bytes) : Seen Packet :=
  if json = [] then { result := .error .invalidArg } else dispatch app json

/-- What the server makes of the handler's result: an error closes the connection. -/
def accepted : Except EspErr Unit → Bool
  | .ok () => true
  | .error .notSupported => true
  | .error _ => false

/-- What a call of the handler saw, what it left of the stream, and whether the connection is kept. -/
structure Handled (Packet : Type) where
  seen : Seen Packet := {}
  rest : Bytes
  kept : Bool

/-- `websocket_handler`, after the first `httpd_ws_recv_frame` has read a header. -/
def websocketHandler (app : App Packet) (limit : Nat) (header : Header) (stream : Bytes) :
    Handled Packet :=
  if header.opcode = opClose then { rest := stream, kept := true }
  else if header.opcode ≠ opText then { rest := stream, kept := true }
  else if header.length = 0 ∨ limit ≤ header.length then { rest := stream, kept := false }
  else if stream.length < header.length then { rest := [], kept := false }
  else
    let seen := dispatchWebsocketText app (applyMask header.mask (stream.take header.length))
    { seen, rest := stream.drop header.length, kept := accepted seen.result }

/-- The server on the bytes of a connection. It answers the control frames itself. -/
def serve (app : App Packet) (limit : Nat) : Nat → Bytes → List (Seen Packet)
  | 0, _ => []
  | fuel + 1, stream =>
    match readHeader stream with
    | none => []
    | some (header, rest) =>
      if opClose ≤ header.opcode then
        if header.opcode = opClose ∨ rest.length < header.length then []
        else serve app limit fuel (rest.drop header.length)
      else
        let handled := websocketHandler app limit header rest
        handled.seen :: if handled.kept then serve app limit fuel handled.rest else []

/-- All that the server sees of a connection on which these frames are sent. -/
def receive (app : App Packet) (limit : Nat) (frames : List Frame) : List (Seen Packet) :=
  let stream := (frames.map Frame.encode).flatten
  serve app limit stream.length stream

/-- `helix_websocket_transport_send_packet_json`: what each client's send returned, for the clients
that are WebSockets, and what goes on the wire. -/
def websocketSend (json : Bytes) (clients : List (Except EspErr Unit)) :
    Except EspErr Unit × List Bytes :=
  clients.foldl
    (fun sent client =>
      match client with
      | .ok () => (.ok (), sent.2 ++ [json])
      | .error .invalidState => sent
      | .error err => (.error err, sent.2))
    (.error .invalidState, [])

/-! ## What they should do -/

/-- The texts of a connection's messages that are within the limit, up to the one on which the
connection is closed. `partly` is the message whose fragments are being sent. -/
def messages (app : App Packet) (limit : Nat) : Option Bytes → List Frame → List Bytes
  | _, [] => []
  | partly, frame :: rest =>
    let take (text : Bytes) : List Bytes :=
      if limit ≤ text.length then []
      else if !frame.final then messages app limit (some text) rest
      else if text = [] then []
      else text :: if accepted (dispatch app text).result then messages app limit none rest else []
    if frame.opcode = opClose then []
    else if frame.opcode = opText then take frame.payload
    else if frame.opcode = opContinuation then
      match partly with
      | none => messages app limit none rest
      | some text => take (text ++ frame.payload)
    else messages app limit partly rest

/-- Exactly these texts were parsed, and their packets handed over. -/
def Delivers (app : App Packet) (seen : List (Seen Packet)) (texts : List Bytes) : Prop :=
  (seen.map Seen.parsed).flatten = texts ∧ (seen.map Seen.handed).flatten = packets app texts

/-- A send that returns `ESP_OK` has put the text on the wire, and nothing else. -/
def SendsWhole (json : Bytes) (sent : Except EspErr Unit × List Bytes) : Prop :=
  sent.1 = .ok () → json ∈ sent.2 ∧ ∀ text ∈ sent.2, text = json

/-! ## What they do -/

theorem packets_append (app : App Packet) (texts more : List Bytes) :
    packets app (texts ++ more) = packets app texts ++ packets app more :=
  List.filterMap_append

theorem Delivers.nil (app : App Packet) : Delivers app [] [] := ⟨rfl, rfl⟩

/-- What one call saw, and then the others. -/
theorem Delivers.cons {app : App Packet} {first : Seen Packet} {seen : List (Seen Packet)}
    {texts more : List Bytes} (one : Delivers app [first] texts) (rest : Delivers app seen more) :
    Delivers app (first :: seen) (texts ++ more) := by
  have parsed : first.parsed = texts := by simpa using one.1
  have handed : first.handed = packets app texts := by simpa using one.2
  refine ⟨?_, ?_⟩
  · rw [List.map_cons, List.flatten_cons, parsed, rest.1]
  · rw [List.map_cons, List.flatten_cons, handed, rest.2, packets_append]

theorem Delivers.dispatch (app : App Packet) (text : Bytes) :
    Delivers app [dispatch app text] [text] := by
  obtain ⟨parsed, handed⟩ := dispatch_spec app text
  exact ⟨by simp [parsed], by simp [handed]⟩

theorem Delivers.nothing (app : App Packet) : Delivers app [({} : Seen Packet)] [] := ⟨rfl, rfl⟩

/-! ### MQTT -/

theorem mqttReceive_delivers (app : App Packet) (pieces : List Bytes) :
    Delivers app (mqttReceive app (pieces.map fun piece => { data := some piece })) pieces := by
  induction pieces with
  | nil => exact .nil app
  | cons piece rest ih => exact (Delivers.dispatch app piece).cons ih

theorem MqttMessage.pieces_eq {bufferSize : Nat} (message : MqttMessage bufferSize)
    (fits : message.text.length ≤ bufferSize) : message.pieces = [message.text] := by
  obtain ⟨piece, only⟩ := List.length_eq_one_iff.mp (message.cut.mpr fits)
  have whole := message.whole
  rw [only, List.flatten_singleton] at whole
  rw [only, whole]

/-- There are as many pieces as messages only if each message is one piece. -/
theorem fits_of_length {bufferSize : Nat} (sent : List (MqttMessage bufferSize)) :
    sent.length ≤ (sent.flatMap MqttMessage.pieces).length ∧
      ((sent.flatMap MqttMessage.pieces).length = sent.length →
        ∀ message ∈ sent, message.text.length ≤ bufferSize) := by
  induction sent with
  | nil => simp
  | cons message rest ih =>
    have some_ := List.length_pos_iff.mpr message.some_
    rw [List.flatMap_cons, List.length_append, List.length_cons]
    refine ⟨by omega, fun even => ?_⟩
    intro other member
    rcases List.mem_cons.mp member with rfl | later
    · exact other.cut.mp (by omega)
    · exact ih.2 (by omega) other later

/-- Messages arrive whole exactly where none is cut. -/
theorem mqtt_whole {bufferSize : Nat} (app : App Packet) (sent : List (MqttMessage bufferSize)) :
    Delivers app (mqttReceive app (sent.flatMap MqttMessage.events)) (sent.map MqttMessage.text) ↔
      ∀ message ∈ sent, message.text.length ≤ bufferSize := by
  have events : sent.flatMap MqttMessage.events =
      (sent.flatMap MqttMessage.pieces).map fun piece => ({ data := some piece } : DataEvent) := by
    rw [List.map_flatMap]
    rfl
  have delivered := mqttReceive_delivers app (sent.flatMap MqttMessage.pieces)
  rw [events]
  constructor
  · intro whole
    have same : sent.map MqttMessage.text = sent.flatMap MqttMessage.pieces :=
      whole.1.symm.trans delivered.1
    have lengths := congrArg List.length same
    rw [List.length_map] at lengths
    exact (fits_of_length sent).2 lengths.symm
  · intro fit
    have same : sent.flatMap MqttMessage.pieces = sent.map MqttMessage.text := by
      rw [← List.flatMap_singleton' (sent.map MqttMessage.text), List.flatMap_map]
      exact List.flatMap_congr fun message member => message.pieces_eq (fit message member)
    rw [← same]
    exact delivered

/-! ### BLE -/

/-- A write of a length that is admitted, and nothing else, is parsed, and it is parsed whole. -/
theorem ble_whole (app : App Packet) (config : BleConfig) (writes : List Bytes) :
    Delivers app (writes.map (handleCommandWrite app config))
      (writes.filter fun om => 0 < om.length ∧ om.length < config.commandLimit) := by
  induction writes with
  | nil => exact .nil app
  | cons om rest ih =>
    rw [List.map_cons, handleCommandWrite, appendMbufFlat]
    by_cases admitted : 0 < om.length ∧ om.length < config.commandLimit
    · have whole : om.take (config.commandLimit - 1) = om := List.take_of_length_le (by omega)
      rw [if_neg (by omega), List.filter_cons_of_pos (by simpa using admitted), whole]
      exact (Delivers.dispatch app om).cons ih
    · rw [if_pos (by omega), List.filter_cons_of_neg (by simpa using admitted)]
      exact (Delivers.nothing app).cons ih

theorem ble_sends_iff (config : BleConfig) (json : Bytes) :
    (∀ link, SendsWhole json (notifyPacketJson config link json)) ↔
      json.length ≤ config.notifyLimit := by
  constructor
  · intro whole
    have sent := whole { connected := true, notifyEnabled := true, buffers := true, notified := true }
    obtain ⟨-, only⟩ := sent rfl
    have cut : json.take (min json.length config.notifyLimit) = json := only _ (by simp [notifyPacketJson])
    have lengths := congrArg List.length cut
    rw [List.length_take] at lengths
    omega
  · intro fits link
    have uncut : json.take (min json.length config.notifyLimit) = json :=
      List.take_of_length_le (by omega)
    intro returned
    unfold notifyPacketJson at returned ⊢
    split at returned
    · cases returned
    dsimp only at returned ⊢
    split at returned
    · cases returned
    split at returned
    next ready buffers notified =>
      rw [if_neg ready, if_neg buffers, if_pos notified, uncut]
      simp
    · cases returned

theorem mqtt_sends (publish : Int) (json : Bytes) : SendsWhole json (publishToTopic publish json) := by
  intro returned
  unfold publishToTopic at returned ⊢
  split at returned
  · cases returned
  next published =>
    rw [if_neg published]
    simp

theorem websocket_sends (json : Bytes) (clients : List (Except EspErr Unit)) :
    SendsWhole json (websocketSend json clients) := by
  have keeps : ∀ sent : Except EspErr Unit × List Bytes, SendsWhole json sent →
      (∀ text ∈ sent.2, text = json) →
        SendsWhole json (clients.foldl
          (fun sent client =>
            match client with
            | .ok () => (.ok (), sent.2 ++ [json])
            | .error .invalidState => sent
            | .error err => (.error err, sent.2)) sent) := by
    induction clients with
    | nil => exact fun sent whole _ => whole
    | cons client rest ih =>
      intro sent whole only
      rw [List.foldl_cons]
      rcases client with err | ⟨⟩
      · cases err
        case invalidState => exact ih sent whole only
        all_goals exact ih _ (fun returned => by cases returned) only
      · have more : ∀ text ∈ sent.2 ++ [json], text = json := by
          intro text member
          rcases List.mem_append.mp member with old | new
          · exact only text old
          · exact List.mem_singleton.mp new
        exact ih _ (fun _ => ⟨by simp, more⟩) more
  exact keeps _ (fun returned => by cases returned) (by simp)

/-! ### WebSocket -/

/-- A control frame, an unfragmented text, or a frame without payload of another type. -/
def Whole (frame : Frame) : Prop :=
  opClose ≤ frame.opcode ∨ (frame.opcode = opText ∧ frame.final) ∨
    (frame.opcode ≠ opText ∧ frame.payload = [])

theorem Frame.body_length (frame : Frame) : frame.body.length = frame.payload.length := by
  rw [Frame.body, length_applyMask]

/-- A frame is read as it was sent. -/
theorem websocketHandler_text (app : App Packet) (limit : Nat) (frame : Frame) (rest : Bytes)
    (text : frame.opcode = opText) :
    websocketHandler app limit frame.header (frame.body ++ rest) =
      if frame.payload.length = 0 ∨ limit ≤ frame.payload.length then
        { rest := frame.body ++ rest, kept := false }
      else
        { seen := dispatch app frame.payload, rest,
          kept := accepted (dispatch app frame.payload).result } := by
  have open_ : frame.opcode ≠ opClose := by
    rw [text]
    decide
  have body := Frame.body_length frame
  unfold websocketHandler Frame.header
  dsimp only
  rw [if_neg open_, if_neg (not_not.mpr text)]
  split
  · rfl
  next admitted =>
    have enough : ¬ (frame.body ++ rest).length < frame.payload.length := by
      rw [List.length_append]
      omega
    have full : frame.payload ≠ [] := fun empty => admitted (.inl (by rw [empty]; rfl))
    have unmasked : applyMask frame.mask ((frame.body ++ rest).take frame.payload.length) =
        frame.payload := by
      rw [List.take_left' body, Frame.body, applyMask_applyMask]
    have left : (frame.body ++ rest).drop frame.payload.length = rest := List.drop_left' body
    rw [if_neg enough, unmasked, left, dispatchWebsocketText, if_neg full]

/-- A connection on which every frame is whole. -/
theorem serve_delivers (app : App Packet) (limit : Nat) {frames : List Frame}
    (whole : ∀ frame ∈ frames, Whole frame) {fuel : Nat}
    (enough : ((frames.map Frame.encode).flatten).length ≤ fuel) :
    Delivers app (serve app limit fuel (frames.map Frame.encode).flatten)
      (messages app limit none frames) := by
  induction frames generalizing fuel with
  | nil => cases fuel <;> exact .nil app
  | cons frame rest ih =>
    have wholeRest : ∀ other ∈ rest, Whole other := fun other member =>
      whole other (List.mem_cons_of_mem frame member)
    rw [List.map_cons, List.flatten_cons] at enough ⊢
    have read := readHeader_encode frame (rest.map Frame.encode).flatten
    have body := Frame.body_length frame
    obtain ⟨fuel, rfl⟩ : ∃ less, fuel = less + 1 := by
      refine ⟨fuel - 1, ?_⟩
      have shorter := readHeader_lt read
      omega
    have less : ((rest.map Frame.encode).flatten).length ≤ fuel := by
      have shorter := readHeader_lt read
      simp only [List.length_append] at shorter enough
      omega
    have later := ih wholeRest less
    rw [serve, read]
    dsimp only
    have opcode : frame.header.opcode = frame.opcode := rfl
    have length : frame.header.length = frame.payload.length := rfl
    rw [opcode, length]
    by_cases control : opClose ≤ frame.opcode
    · have notText : frame.opcode ≠ opText := fun text => absurd control (by rw [text]; decide)
      have notMore : frame.opcode ≠ opContinuation := fun more =>
        absurd control (by rw [more]; decide)
      rw [if_pos control, messages]
      dsimp only
      by_cases close : frame.opcode = opClose
      · rw [if_pos (.inl close), if_pos close]
        exact .nil app
      · have there : ¬ (frame.opcode = opClose ∨
            (frame.body ++ (rest.map Frame.encode).flatten).length < frame.payload.length) := by
          rw [List.length_append]
          omega
        rw [if_neg there, if_neg close, if_neg notText, if_neg notMore, List.drop_left' body]
        exact later
    · have open_ : frame.opcode ≠ opClose := fun close => control (Fin.le_of_eq close.symm)
      rw [if_neg control, messages]
      dsimp only
      rw [if_neg open_]
      rcases whole frame List.mem_cons_self with isControl | ⟨text, final⟩ | ⟨other, empty⟩
      · exact absurd isControl control
      · rw [websocketHandler_text app limit frame _ text, if_pos text, final]
        by_cases long : limit ≤ frame.payload.length
        · rw [if_pos (.inr long), if_pos long]
          exact Delivers.nothing app
        rw [if_neg long]
        by_cases none_ : frame.payload = []
        · rw [if_pos (.inl (by rw [none_]; rfl))]
          simp only [none_, Bool.not_true, Bool.false_eq_true, if_false, if_true]
          exact Delivers.nothing app
        have admitted : ¬ (frame.payload.length = 0 ∨ limit ≤ frame.payload.length) := by
          have some_ := List.length_pos_iff.mpr none_
          omega
        rw [if_neg admitted]
        have one := Delivers.dispatch app frame.payload
        cases kept : accepted (dispatch app frame.payload).result with
        | true =>
          simp only [none_, Bool.not_true, Bool.false_eq_true, if_false, if_true]
          exact one.cons later
        | false =>
          simp only [none_, Bool.not_true, Bool.false_eq_true, if_false]
          exact one
      · -- Of a frame without payload the header is all there is.
        have nothing : frame.body = [] := List.eq_nil_of_length_eq_zero (by rw [body, empty]; rfl)
        have ignored : websocketHandler app limit frame.header (rest.map Frame.encode).flatten =
            { rest := (rest.map Frame.encode).flatten, kept := true } := by
          unfold websocketHandler Frame.header
          dsimp only
          rw [if_neg open_, if_pos other]
        rw [nothing, List.nil_append, ignored, if_neg other]
        simp only [if_true, ite_self]
        exact (Delivers.nothing app).cons later

/-! ## All three -/

/-- Messages are handed over whole, and texts sent whole: over MQTT where no message is cut, over
BLE where a text sent is within the limit, and over a WebSocket where every frame is whole. -/
theorem messages_whole {bufferSize : Nat} (app : App Packet) (config : BleConfig) (limit : Nat) :
    (∀ sent : List (MqttMessage bufferSize),
      Delivers app (mqttReceive app (sent.flatMap MqttMessage.events))
          (sent.map MqttMessage.text) ↔
        ∀ message ∈ sent, message.text.length ≤ bufferSize) ∧
    (∀ writes : List Bytes,
      Delivers app (writes.map (handleCommandWrite app config))
        (writes.filter fun om => 0 < om.length ∧ om.length < config.commandLimit)) ∧
    (∀ frames : List Frame, (∀ frame ∈ frames, Whole frame) →
      Delivers app (receive app limit frames) (messages app limit none frames)) ∧
    (∀ publish json, SendsWhole json (publishToTopic publish json)) ∧
    (∀ json clients, SendsWhole json (websocketSend json clients)) ∧
    (∀ json, (∀ link, SendsWhole json (notifyPacketJson config link json)) ↔
      json.length ≤ config.notifyLimit) :=
  ⟨mqtt_whole app, ble_whole app config,
    fun _ whole => serve_delivers app limit whole (Nat.le_refl _), mqtt_sends, websocket_sends,
    ble_sends_iff config⟩

def ascii (text : String) : Bytes := text.toList.map fun char => UInt8.ofNat char.toNat

/-- A command, and a text in which it is that is none. -/
def sampleCommand : Bytes := ascii "\x7b\"message\":\x7b\"service\":\"s\",\"method\":\"m\"\x7d\x7d"

def sampleText : Bytes := ascii "[" ++ sampleCommand ++ ascii "]"

def sampleApp : App Unit where
  parse text := if text = sampleCommand then .ok () else .error .invalidArg
  onPacket _ := .ok ()

/-- The text, cut around the command. -/
def cutMessage : MqttMessage 40 where
  text := sampleText
  pieces := [ascii "[", sampleCommand, ascii "]"]
  whole := by decide
  some_ := by decide
  cut := by decide

def frameOf (opcode : Fin 16) (final : Bool) (payload : Bytes) (fits : payload.length < 2 ^ 63) :
    Frame :=
  { opcode, final, mask := [1, 2, 3, 4], payload, masked := rfl, fits }

def commandFrame : Frame := frameOf opText true sampleCommand (by decide)

/-- A binary frame whose payload reads as a frame. -/
def wrappingFrame : Frame :=
  { opcode := 2, final := true, mask := [0, 0, 0, 0], payload := commandFrame.encode, masked := rfl
    fits := by decide }

/-- The first fragment of a text. -/
def fragmentFrame : Frame := frameOf opText false sampleCommand (by decide)

/-- A piece of a message, the payload of a binary frame and a fragment of a text are each taken for
a command, and a notification is cut off. -/
theorem messages_not_whole :
    (¬ ∀ sent : List (MqttMessage 40),
      Delivers sampleApp (mqttReceive sampleApp (sent.flatMap MqttMessage.events))
        (sent.map MqttMessage.text)) ∧
    (¬ ∀ frames : List Frame, Delivers sampleApp (receive sampleApp 4096 frames)
      (messages sampleApp 4096 none frames)) ∧
    (receive sampleApp 4096 [wrappingFrame]).map Seen.handed = [[], [()]] ∧
    messages sampleApp 4096 none [wrappingFrame] = [] ∧
    (receive sampleApp 4096 [fragmentFrame]).map Seen.handed = [[()]] ∧
    messages sampleApp 4096 none [fragmentFrame] = [] ∧
    ¬ ∀ json link, SendsWhole json (notifyPacketJson {} link json) := by
  have wrapped : (receive sampleApp 4096 [wrappingFrame]).map Seen.handed = [[], [()]] := by
    decide
  have binary : messages sampleApp 4096 none [wrappingFrame] = [] := by decide
  refine ⟨?_, ?_, wrapped, binary, by decide, by decide, ?_⟩
  · intro whole
    have handed := (whole [cutMessage]).2
    exact absurd handed (by decide)
  · intro whole
    have handed := (whole [wrappingFrame]).2
    rw [wrapped, binary] at handed
    exact absurd handed (by decide)
  · intro whole
    have fits := (ble_sends_iff {} (List.replicate 481 0)).mp fun link => whole _ link
    rw [List.length_replicate] at fits
    exact absurd fits (by decide)

end HelixKit.Esp32.MessageTransports
