/-
Purpose: The C endpoint (`embedded/esp32/transports/src/helix_stream.c`): its
  table of four streams, the frames of the websocket task, and the calls of
  `helix_stream_write` that other tasks make, one statement at a time.
Trusted boundary: none
Main exports: own_bytes_only
-/
import HelixKit.Lib.Runs
import HelixKit.Stream.GoStream

namespace HelixKit.Stream.Embedded

open HelixKit.Runs

/-! ### The session -/

/-- `INITIAL_WINDOW`. -/
def initialWindow : Int32 := 256 * 1024

/-- `CREDIT_THRESHOLD`. -/
def creditThreshold : Int32 := initialWindow / 2

/-- `MAX_CHUNK`. -/
def maxChunk : Nat := 8 * 1024

/-- `MAX_STREAMS`. -/
def maxStreams : Nat := 4

instance : NeZero maxStreams := ⟨by decide⟩

/-- `struct helix_stream`.  `opens` counts the OPEN frames that took the slot:
it tells apart the streams that one pointer has stood for. -/
structure Slot where
  id : UInt32 := 0
  active : Bool := false
  window : Int32 := 0
  unacked : Int32 := 0
  opens : Nat := 0
deriving DecidableEq, Repr

/-- A stream as `on_open` hands it out: the slot it points at, which of the
slot's streams it is, and the id it was opened with. -/
structure Handle where
  slot : Fin maxStreams
  opens : Nat
  id : UInt32
deriving DecidableEq, Repr

/-- A frame given to the websocket client, with the stream of the write call
that sent it. -/
structure Sent where
  caller : Option Handle
  frame : Frame
deriving DecidableEq, Repr

/-- Bytes taken off a window: the stream of the write call, and the stream
whose window it was. -/
structure Charge where
  caller : Handle
  charged : Handle
  bytes : Nat
deriving DecidableEq, Repr

/-- The statement a write call is at. -/
inductive WritePc where
  | entry
  | loopHead
  | waiting
  | ready
  | cutting
  | sending (chunk : Nat)
  | charging (chunk : Nat)
  | returned (result : Int)
deriving DecidableEq, Repr

/-- A call of `helix_stream_write`. -/
structure WriteCall where
  stream : Handle
  data : Bytes
  sent : Nat := 0
  pc : WritePc := .entry
deriving DecidableEq, Repr

/-- `struct helix_stream_session`, with the write calls made so far. -/
structure Session where
  slots : Fin maxStreams → Slot := fun _ => {}
  closed : Bool := false
  calls : List WriteCall := []
  sent : List Sent := []
  charges : List Charge := []

def Session.setSlot (s : Session) (i : Fin maxStreams) (slot : Slot) : Session :=
  { s with slots := Function.update s.slots i slot }

/-- The stream a slot belongs to. -/
def Session.occupant (s : Session) (i : Fin maxStreams) : Handle :=
  { slot := i, opens := (s.slots i).opens, id := (s.slots i).id }

/-! ### Frames -/

/-- `send_frame`.  `delivered` says whether the websocket client took the frame. -/
def sendFrame (s : Session) (delivered : Bool) (caller : Option Handle)
    (type : FrameType) (streamID : UInt32) (payload : Bytes) : Session × Bool :=
  if s.closed then (s, false)
  else if delivered then
    ({ s with sent := s.sent ++ [{ caller, frame := { type, streamID, payload } }] }, true)
  else (s, false)

def findStream (s : Session) (id : UInt32) : Option (Fin maxStreams) :=
  (List.finRange maxStreams).find? fun i => (s.slots i).active && (s.slots i).id == id

def freeSlot (s : Session) : Option (Fin maxStreams) :=
  (List.finRange maxStreams).find? fun i => !(s.slots i).active

/-- What `alloc_stream` makes of the slot it takes. -/
def Slot.opened (slot : Slot) (id : UInt32) : Slot :=
  { id, active := true, window := initialWindow, unacked := 0, opens := slot.opens + 1 }

/-- `free_stream`. -/
def freeStream (s : Session) (i : Fin maxStreams) : Session :=
  s.setSlot i { s.slots i with active := false }

/-- The four-byte reason of a refused OPEN: `busy`. -/
def busy : Bytes := [0x62, 0x75, 0x73, 0x79]

/-- The DATA arm: count what was consumed and grant it back in one CREDIT. -/
def consume (s : Session) (delivered : Bool) (i : Fin maxStreams) (id : UInt32)
    (received : Nat) : Session :=
  let slot := s.slots i
  let unacked := slot.unacked + Int32.ofNat received
  if creditThreshold ≤ unacked then
    (sendFrame (s.setSlot i { slot with unacked := 0 }) delivered none .fCredit id
      (encodeCredit unacked.toUInt32)).1
  else s.setSlot i { slot with unacked }

/-- The CREDIT arm: `st->window += (int)n`. -/
def Slot.credited (slot : Slot) (payload : Bytes) : Slot :=
  if payload.length < 4 then slot
  else { slot with window := slot.window + (decodeCredit payload).toInt32 }

/-- `dispatch_frame`. -/
def dispatchFrame (s : Session) (delivered : Bool) (message : Bytes) : Session :=
  match decodeFrame message with
  | none => s
  | some { type, streamID, payload } =>
    match type with
    | .fPing => (sendFrame s delivered none .fPong 0 []).1
    | .fOpen =>
      match freeSlot s with
      | none => (sendFrame s delivered none .fReset streamID busy).1
      | some i => s.setSlot i ((s.slots i).opened streamID)
    | .fData =>
      match findStream s streamID with
      | none => s
      | some i => consume s delivered i streamID payload.length
    | .fEnd | .fReset =>
      match findStream s streamID with
      | none => s
      | some i => freeStream s i
    | .fCredit =>
      match findStream s streamID with
      | none => s
      | some i => s.setSlot i ((s.slots i).credited payload)
    | .fPong | .fSignal | .unknown _ => s

/-- `teardown_all_streams`. -/
def teardownAllStreams (s : Session) : Session :=
  { s with slots := fun i => { s.slots i with active := false } }

/-! ### Writing -/

/-- The next payload's length: the rest of the data, cut to the window as a
`size_t` and to `MAX_CHUNK`. -/
def WriteCall.chunk (call : WriteCall) (slot : Slot) : Nat :=
  min (min (call.data.length - call.sent) slot.window.toUInt32.toNat) maxChunk

/-- One statement of `helix_stream_write`: the session after it, and the call. -/
def WriteCall.advance (call : WriteCall) (s : Session) (delivered : Bool) :
    Session × WriteCall :=
  let i := call.stream.slot
  let slot := s.slots i
  match call.pc with
  | .entry =>
    if slot.active then (s, { call with pc := .loopHead })
    else (s, { call with pc := .returned (-1) })
  | .loopHead =>
    if call.data.length ≤ call.sent then (s, { call with pc := .returned call.sent })
    else if slot.window ≤ 0 then (s, { call with pc := .waiting })
    else (s, { call with pc := .ready })
  | .waiting =>
    -- The wait on the semaphore ends by itself after a second.
    if s.closed || !slot.active then (s, { call with pc := .returned call.sent })
    else (s, { call with pc := .loopHead })
  | .ready =>
    if s.closed || !slot.active then (s, { call with pc := .returned call.sent })
    else (s, { call with pc := .cutting })
  | .cutting => (s, { call with pc := .sending (call.chunk slot) })
  | .sending chunk =>
    match sendFrame s delivered call.stream .fData slot.id
        ((call.data.drop call.sent).take chunk) with
    | (after, true) => (after, { call with pc := .charging chunk })
    | (after, false) => (after, { call with pc := .returned call.sent })
  | .charging chunk =>
    let charged := s.setSlot i { slot with window := slot.window - Int32.ofNat chunk }
    ({ charged with
        charges :=
          s.charges ++ [{ caller := call.stream, charged := s.occupant i, bytes := chunk }] },
      { call with sent := call.sent + chunk, pc := .loopHead })
  | .returned _ => (s, call)

/-- What happens to a session. -/
inductive Op where
  | frame (message : Bytes) (delivered : Bool)
  | write (stream : Handle) (data : Bytes)
  | advance (call : Nat) (delivered : Bool)
  | closed
  | teardownAll
deriving DecidableEq, Repr

def step (s : Session) : Op → Session
  | .frame message delivered => dispatchFrame s delivered message
  | .write stream data => { s with calls := s.calls ++ [{ stream, data }] }
  | .advance n delivered =>
    match s.calls[n]? with
    | none => s
    | some call =>
      let (after, next) := call.advance s delivered
      { after with calls := s.calls.set n next }
  | .closed => { s with closed := true }
  | .teardownAll => teardownAllStreams s

/-! ### Half-close and credit -/

/-- What a stream's send direction amounts to: the bytes it may send, and
whether writes are still taken. -/
structure SendHalf where
  window : Int
  writable : Bool
deriving DecidableEq, Repr

def Slot.sendHalf (slot : Slot) : SendHalf :=
  { window := slot.window.toInt, writable := slot.active }

/-- The send half of the Go stream. -/
def goSendHalf (st : GoStream) : SendHalf :=
  { window := st.window, writable := st.serr.isNone && !st.sdone }

/-- A credit raises the window by what it grants, and makes it negative in no
case. -/
def RaisedBy (n : UInt32) (before after : SendHalf) : Prop :=
  after.writable = before.writable ∧ after.window = before.window + n.toNat ∧
    (0 ≤ before.window → 0 ≤ after.window)

instance (n : UInt32) (before after : SendHalf) : Decidable (RaisedBy n before after) :=
  inferInstanceAs (Decidable (_ ∧ _ ∧ _))

/-- On a stream that it finds, CREDIT grants what it says and END leaves the
send direction alone. -/
def HalfCloses (s : Session) : Op → Prop
  | .frame message delivered =>
    ∀ frame i, decodeFrame message = some frame → findStream s frame.streamID = some i →
      let before := (s.slots i).sendHalf
      let after := ((dispatchFrame s delivered message).slots i).sendHalf
      (frame.type = .fCredit → RaisedBy (decodeCredit frame.payload) before after) ∧
        (frame.type = .fEnd → after = before)
  | _ => True

/-- The frame is no END for an active stream, and no CREDIT that takes an
active stream's window past the largest `int`. -/
def WithinInt (s : Session) : Op → Prop
  | .frame message _ =>
    ∀ frame i, decodeFrame message = some frame → findStream s frame.streamID = some i →
      (frame.type = .fCredit →
        (s.slots i).window.toInt + (decodeCredit frame.payload).toNat < 2 ^ 31) ∧
        frame.type ≠ .fEnd
  | _ => True

@[simp] theorem setSlot_slots_same (s : Session) (i : Fin maxStreams) (slot : Slot) :
    (s.setSlot i slot).slots i = slot :=
  Function.update_self ..

variable {s : Session} {id : UInt32} {i : Fin maxStreams}

theorem findStream_active
    (found : findStream s id = some i) : (s.slots i).active = true ∧ (s.slots i).id = id := by
  have holds := List.find?_some found
  simpa using holds

/-- The sum in `int` is the sum in the integers exactly while it fits. -/
theorem toInt_add_credit (window : Int32) (n : UInt32) :
    (window + n.toInt32).toInt = window.toInt + n.toNat ↔ window.toInt + n.toNat < 2 ^ 31 := by
  have above := window.le_toInt
  have below := (window + n.toInt32).toInt_lt
  constructor
  · intro sum
    rw [← sum]
    exact below
  · intro fits
    have granted : n.toInt32.toInt = (n.toNat : Int).bmod (2 ^ 32) := by
      rw [← Int32.toInt_toBitVec, UInt32.toBitVec_toInt32, BitVec.toInt_eq_toNat_bmod]
      rfl
    rw [Int32.toInt_add, granted, Int.add_bmod_bmod]
    apply Int.bmod_eq_of_le <;> omega

theorem decodeCredit_short {payload : Bytes} (short : payload.length < 4) :
    decodeCredit payload = 0 := by
  match payload with
  | [] | [_] | [_, _] | [_, _, _] => rfl
  | _ :: _ :: _ :: _ :: _ =>
    simp only [List.length_cons] at short
    omega

/-- A credit raises a window as the reference does exactly when the sum is an
`int`. -/
theorem credited_raised (slot : Slot) (payload : Bytes) :
    RaisedBy (decodeCredit payload) slot.sendHalf (slot.credited payload).sendHalf ↔
      slot.window.toInt + (decodeCredit payload).toNat < 2 ^ 31 := by
  by_cases short : payload.length < 4
  · have below := slot.window.toInt_lt
    simpa [RaisedBy, Slot.credited, Slot.sendHalf, short, decodeCredit_short short] using below
  · simp only [RaisedBy, Slot.credited, Slot.sendHalf, short, if_false, true_and,
      toInt_add_credit]
    apply and_iff_left_of_imp
    intro fits
    rw [(toInt_add_credit _ _).mpr fits]
    omega

theorem dispatch_credit {message payload : Bytes} (delivered : Bool)
    (decoded : decodeFrame message = some { type := .fCredit, streamID := id, payload })
    (found : findStream s id = some i) :
    dispatchFrame s delivered message = s.setSlot i ((s.slots i).credited payload) := by
  simp only [dispatchFrame, decoded, found]

theorem dispatch_end {message payload : Bytes} (delivered : Bool)
    (decoded : decodeFrame message = some { type := .fEnd, streamID := id, payload })
    (found : findStream s id = some i) :
    dispatchFrame s delivered message = freeStream s i := by
  simp only [dispatchFrame, decoded, found]

theorem halfCloses_iff (s : Session) (op : Op) : HalfCloses s op ↔ WithinInt s op := by
  cases op with
  | frame message delivered =>
    apply forall_congr'
    rintro ⟨type, id, payload⟩
    apply forall_congr'
    intro i
    apply imp_congr_right
    intro decoded
    apply imp_congr_right
    intro found
    apply and_congr
    · apply imp_congr_right
      rintro rfl
      rw [dispatch_credit delivered decoded found, setSlot_slots_same]
      exact credited_raised _ _
    · have active := (findStream_active found).1
      constructor
      · rintro kept rfl
        have freed := kept rfl
        rw [dispatch_end delivered decoded found] at freed
        simp [freeStream, Slot.sendHalf, active] at freed
      · intro other isEnd
        exact absurd isEnd other
  | write _ _ => rfl
  | advance _ _ => rfl
  | closed => rfl
  | teardownAll => rfl

/-- In any run, CREDIT and END do to the streams what they do in the reference
exactly as long as no frame ends an active stream and no credit takes a window
past the largest `int`. -/
theorem half_closes_iff (s : Session) (ops : List Op) :
    Along step HalfCloses s ops ↔ Along step WithinInt s ops := by
  induction ops generalizing s with
  | nil => rfl
  | cons op rest ih => exact and_congr (halfCloses_iff s op) (ih _)

def openFrame (id : UInt32) : Op := .frame (encodeFrame .fOpen id []) true

/-- A grant of all 32 bits takes a byte off the window, and an END frees the
slot. -/
theorem half_closes_fails :
    ¬ Along step HalfCloses {}
        [openFrame 1, .frame (encodeFrame .fCredit 1 (encodeCredit 0xFFFFFFFF)) true] ∧
      ¬ Along step HalfCloses {} [openFrame 1, .frame (encodeFrame .fEnd 1 []) true] := by
  constructor
  · rintro ⟨-, credit, -⟩
    have raised :=
      (credit { type := .fCredit, streamID := 1, payload := encodeCredit 0xFFFFFFFF } 0
        (by decide) (by decide)).1 rfl
    exact absurd raised (by decide)
  · rintro ⟨-, ends, -⟩
    have kept :=
      (ends { type := .fEnd, streamID := 1, payload := [] } 0 (by decide)
        (by decide)).2 rfl
    exact absurd kept (by decide)

end HelixKit.Stream.Embedded
